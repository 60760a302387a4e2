import OfficeAuto.Logic.Comparator
import OfficeAuto.Text.Split

/-!
# The items of an order

An `OrderByItem` orders rows by a value, which is a field or a function of one, in one of two
directions and with the nulls first or last. It is a comparator of rows, it makes a part of an
`ORDER BY` clause, and it is written as a text from which it can be parsed.

The comparator takes null for the largest value, whatever the item says of nulls. So it agrees with
the clause exactly if the nulls are to go where the direction puts the largest value (`agrees_iff`).
And a text is read back if it is that of a field or of `UPPER` or `LOWER` of a field
(`readsBack_iff`): the parser knows no other function, and takes the closing bracket off a name as
well.

Values are those of fields of entities. The database orders values as their `compareTo` does; where
a clause does not say so, it has nulls either for the largest values or for the smallest.
-/

namespace OfficeAuto.Entity

/-! ### Values -/

/-- `EntityFunction.SQLFunction` -/
inductive SQLFunction
  | length
  | trim
  | upper
  | lower
  deriving DecidableEq

def SQLFunction.name : SQLFunction → List Char
  | length => "LENGTH".toList
  | trim => "TRIM".toList
  | upper => "UPPER".toList
  | lower => "LOWER".toList

/-- An `EntityConditionValue` that orders rows: a field or a function of a value. -/
inductive OrderValue
  | field (fieldName : List Char)
  | function (sqlFunction : SQLFunction) (nested : OrderValue)
  deriving DecidableEq

namespace OrderValue

/-- `addSqlValue`: the text of a value, for the column names of the fields. -/
def addSqlValue (colName : List Char → List Char) : OrderValue → List Char
  | field fieldName => colName fieldName
  | function sqlFunction nested =>
    sqlFunction.name ++ '(' :: (nested.addSqlValue colName ++ [')'])

def toString (value : OrderValue) : List Char := value.addSqlValue id

def getValue {V : Type} (fetcher : SQLFunction → V → V) (row : List Char → Option V) :
    OrderValue → Option V
  | field fieldName => row fieldName
  | function sqlFunction nested => (nested.getValue fetcher row).map (fetcher sqlFunction)

end OrderValue

/-! ### Items -/

structure OrderByItem where
  value : OrderValue
  descending : Bool
  nullsFirst : Option Bool

namespace OrderByItem

def equals (item that : OrderByItem) : Bool :=
  item.value = that.value ∧ item.descending = that.descending

def directionText (descending : Bool) : List Char :=
  if descending then " DESC".toList else " ASC".toList

def nullsText (nullsFirst : Bool) : List Char :=
  if nullsFirst then " NULLS FIRST".toList else " NULLS LAST".toList

def toString (item : OrderByItem) : List Char :=
  item.value.toString ++ directionText item.descending ++
    (item.nullsFirst.map nullsText).getD []

/-! ### The parser -/

def toUpperCase (s : List Char) : List Char := s.map Char.toUpper

def stripEnd (ending text : List Char) : List Char := text.take (text.length - ending.length)

def parseNulls (text : List Char) : Option Bool × List Char :=
  let first :=
    if "NULLS FIRST".toList <:+ toUpperCase text then
      (some true, Text.trim (stripEnd "NULLS FIRST".toList text))
    else (none, text)
  if "NULLS LAST".toList <:+ toUpperCase first.2 then
    (some false, Text.trim (stripEnd "NULLS LAST".toList first.2))
  else first

def parseDirection (text : List Char) : Bool × List Char :=
  if " DESC".toList <:+ text then (true, stripEnd " DESC".toList text)
  else if " ASC".toList <:+ text then (false, stripEnd " ASC".toList text)
  else if ['-'] <+: text then (true, text.drop 1)
  else if ['+'] <+: text then (false, text.drop 1)
  else (false, text)

/-- The field, in `UPPER` or `LOWER`. A closing bracket is taken off in any case. -/
def parseValue (text : List Char) : OrderValue :=
  if [')'] <:+ text then
    if "UPPER(".toList <+: toUpperCase text then
      .function .upper (.field (stripEnd [')'] (text.drop 6)))
    else if "LOWER(".toList <+: toUpperCase text then
      .function .lower (.field (stripEnd [')'] (text.drop 6)))
    else .field (stripEnd [')'] text)
  else .field text

/-- **`OrderByItem.parse`** -/
def parse (text : List Char) : OrderByItem :=
  let nulls := parseNulls (Text.trim text)
  let direction := parseDirection nulls.2
  ⟨parseValue direction.2, direction.1, nulls.1⟩

/-! ### The comparator -/

def sign (n : Int32) : Ordering := if n < 0 then .lt else if 0 < n then .gt else .eq

/-- How values compare: `compareTo` keeps its contract. -/
structure Comparison (V : Type) where
  compareTo : V → V → Int32
  lawful : Std.TransCmp fun x y => sign (compareTo x y)

abbrev Row (V : Type) := List Char → Option V

variable {V : Type} (C : Comparison V) (fetcher : SQLFunction → V → V)

/-- **`OrderByItem.compare`**: null is the largest possible value. -/
def compare (item : OrderByItem) (obj₁ obj₂ : Row V) : Int32 :=
  let result := match item.value.getValue fetcher obj₁, item.value.getValue fetcher obj₂ with
    | none, none => 0
    | none, some _ => 1
    | some _, none => -1
    | some value₁, some value₂ => C.compareTo value₁ value₂
  if item.descending then -result else result

/-! ### The clause -/

/-- The keys of an `ORDER BY` clause. -/
inductive SortKey
  | caseNull (value : OrderValue) (whenNull otherwise : ℕ)
  | column (value : OrderValue) (descending : Bool) (nulls : Option Bool)

def caseText (value whenNull otherwise : List Char) : List Char :=
  "CASE WHEN ".toList ++ value ++ " IS NULL THEN ".toList ++ whenNull ++ " ELSE ".toList ++
    otherwise ++ " END".toList

def SortKey.text (colName : List Char → List Char) : SortKey → List Char
  | caseNull value whenNull otherwise =>
    caseText (value.addSqlValue colName) (Nat.toDigits 10 whenNull) (Nat.toDigits 10 otherwise)
  | column value descending nulls =>
    value.addSqlValue colName ++ directionText descending ++ (nulls.map nullsText).getD []

/-- **`makeOrderByString`**, for a data source that has nulls in its clauses or not. -/
def makeOrderByString (item : OrderByItem) (useOrderByNulls : Bool)
    (colName : List Char → List Char) : List Char :=
  let value := item.value.addSqlValue colName
  (match item.nullsFirst with
    | some nullsFirst =>
      if useOrderByNulls then []
      else caseText value (if nullsFirst then "0".toList else "1".toList)
        (if nullsFirst then "1".toList else "0".toList) ++ ", ".toList
    | none => []) ++
  value ++ directionText item.descending ++
  (match item.nullsFirst with
    | some nullsFirst => if useOrderByNulls then nullsText nullsFirst else []
    | none => [])

def sortKeys (item : OrderByItem) (useOrderByNulls : Bool) : List SortKey :=
  match item.nullsFirst with
  | none => [.column item.value item.descending none]
  | some nullsFirst =>
    if useOrderByNulls then [.column item.value item.descending (some nullsFirst)]
    else [.caseNull item.value (if nullsFirst then 0 else 1) (if nullsFirst then 1 else 0),
      .column item.value item.descending none]

def placeNulls (first : Bool) (cmp : V → V → Ordering) : Option V → Option V → Ordering
  | none, none => .eq
  | none, some _ => if first then .lt else .gt
  | some _, none => if first then .gt else .lt
  | some a, some b => cmp a b

/-- Where a database that takes nulls for the largest values, or for the smallest, puts them. -/
def defaultFirst (nullsLargest descending : Bool) : Bool :=
  if nullsLargest then descending else !descending

def SortKey.order (nullsLargest : Bool) : SortKey → Row V → Row V → Ordering
  | caseNull value whenNull otherwise, row₁, row₂ =>
    Ord.compare (if (value.getValue fetcher row₁).isNone then whenNull else otherwise)
      (if (value.getValue fetcher row₂).isNone then whenNull else otherwise)
  | column value descending nulls, row₁, row₂ =>
    placeNulls (nulls.getD (defaultFirst nullsLargest descending))
      (Comparator.directed descending fun x y => sign (C.compareTo x y))
      (value.getValue fetcher row₁) (value.getValue fetcher row₂)

/-- **The order that the clause gives.** -/
def clauseOrder (nullsLargest : Bool) (item : OrderByItem) (useOrderByNulls : Bool) :
    Row V → Row V → Ordering :=
  Comparator.lexicographic
    ((item.sortKeys useOrderByNulls).map (SortKey.order C fetcher nullsLargest))

/-! ### What an item is for -/

/-- **An item is right** if its text is read back, if it orders the rows, and if it orders them as
the clause does. -/
structure Right (nullsLargest : Bool) (item : OrderByItem) : Prop where
  readsBack : (parse item.toString).equals item = true
  order : Std.TransCmp fun row₁ row₂ => sign (item.compare C fetcher row₁ row₂)
  agrees : ∀ useOrderByNulls row₁ row₂,
    sign (item.compare C fetcher row₁ row₂) =
      clauseOrder C fetcher nullsLargest item useOrderByNulls row₁ row₂

/-- A field whose name does not start with a blank or end with a bracket, or `UPPER` or `LOWER` of
a field. -/
def ReadsBack : OrderValue → Prop
  | .field fieldName =>
    (∃ c rest, fieldName = c :: rest ∧ ' ' < c) ∧ ¬[')'] <:+ fieldName
  | .function sqlFunction (.field _) => sqlFunction = .upper ∨ sqlFunction = .lower
  | .function _ (.function _ _) => False

def NullsLargest (nullsLargest : Bool) (item : OrderByItem) : Prop :=
  match item.nullsFirst with
  | none => nullsLargest = true
  | some nullsFirst => nullsFirst = item.descending

def HasOpposites (item : OrderByItem) : Prop :=
  item.descending = true → ∀ row₁ row₂, ∀ value₁ ∈ item.value.getValue fetcher row₁,
    ∀ value₂ ∈ item.value.getValue fetcher row₂, C.compareTo value₁ value₂ ≠ Int32.minValue

/-! ### Texts that are read back -/

section Parse

variable {s t u ending : List Char}

def StartsVisible (t : List Char) : Prop := ∃ c rest, t = c :: rest ∧ ' ' < c

theorem dropWhile_of_startsVisible (h : StartsVisible t) (u : List Char) :
    (t ++ u).dropWhile (fun c => c ≤ ' ') = t ++ u := by
  obtain ⟨c, rest, rfl, hc⟩ := h
  exact List.dropWhile_cons_of_neg (by simpa using hc)

theorem trim_append {c : Char} (h : StartsVisible t) (hc : ' ' < c) :
    Text.trim (t ++ (u ++ [c])) = t ++ (u ++ [c]) := by
  rw [Text.trim, dropWhile_of_startsVisible h, ← List.append_assoc,
    List.rdropWhile_concat_neg _ _ _ (by simpa using hc)]

theorem trim_append_blank {c : Char} (h : StartsVisible t) (hc : ' ' < c) :
    Text.trim (t ++ (u ++ [c]) ++ [' ']) = t ++ (u ++ [c]) := by
  rw [Text.trim, List.append_assoc, dropWhile_of_startsVisible h, ← List.append_assoc,
    List.rdropWhile_concat_pos _ _ _ (by decide), ← List.append_assoc,
    List.rdropWhile_concat_neg _ _ _ (by simpa using hc)]

theorem trim_blanks_append (h : ∀ c ∈ s, c ≤ ' ') (t : List Char) :
    Text.trim (s ++ t) = Text.trim t := by
  rw [Text.trim, List.dropWhile_append_of_pos (by simpa using h), Text.trim]

theorem toUpperCase_append (t u : List Char) :
    toUpperCase (t ++ u) = toUpperCase t ++ toUpperCase u := List.map_append

theorem stripEnd_append (t ending : List Char) : stripEnd ending (t ++ ending) = t := by
  rw [stripEnd, List.length_append, Nat.add_sub_cancel, List.take_left]

theorem not_suffix_append (h : ¬ending <:+ u) (hlen : ending.length ≤ u.length) (t : List Char) :
    ¬ending <:+ t ++ u := fun hend =>
  h (List.suffix_of_suffix_length_le hend (List.suffix_append t u) hlen)

theorem not_suffix_append_of_le (h : ¬u <:+ ending) (hlen : u.length ≤ ending.length)
    (t : List Char) : ¬ending <:+ t ++ u := fun hend =>
  h (List.suffix_of_suffix_length_le (List.suffix_append t u) hend hlen)

theorem not_prefix_append (h : ¬ending <+: u) (hlen : ending.length ≤ u.length) (t : List Char) :
    ¬ending <+: u ++ t := fun hstart =>
  h (List.prefix_of_prefix_length_le hstart (List.prefix_append u t) hlen)

theorem not_prefix_append_of_le (h : ¬u <+: ending) (hlen : u.length ≤ ending.length)
    (t : List Char) : ¬ending <+: u ++ t := fun hstart =>
  h (List.prefix_of_prefix_length_le (List.prefix_append u t) hstart hlen)

theorem exists_directionText (descending : Bool) :
    ∃ u c, directionText descending = u ++ [c] ∧ ' ' < c := by
  cases descending
  · exact ⟨" AS".toList, 'C', rfl, by decide⟩
  · exact ⟨" DES".toList, 'C', rfl, by decide⟩

theorem exists_nullsText (nullsFirst : Bool) :
    ∃ u c, nullsText nullsFirst = u ++ [c] ∧ ' ' < c := by
  cases nullsFirst
  · exact ⟨" NULLS LAS".toList, 'T', rfl, by decide⟩
  · exact ⟨" NULLS FIRS".toList, 'T', rfl, by decide⟩

theorem not_nulls_suffix (t : List Char) (descending : Bool) :
    ¬"NULLS FIRST".toList <:+ toUpperCase (t ++ directionText descending) ∧
      ¬"NULLS LAST".toList <:+ toUpperCase (t ++ directionText descending) := by
  rw [toUpperCase_append]
  cases descending
  · exact ⟨not_suffix_append_of_le (by decide) (by decide) _,
      not_suffix_append_of_le (by decide) (by decide) _⟩
  · exact ⟨not_suffix_append_of_le (by decide) (by decide) _,
      not_suffix_append_of_le (by decide) (by decide) _⟩

theorem parseNulls_append (h : StartsVisible t) (descending : Bool) (nullsFirst : Option Bool) :
    parseNulls (t ++ directionText descending ++ (nullsFirst.map nullsText).getD []) =
      (nullsFirst, t ++ directionText descending) := by
  obtain ⟨hfirst, hlast⟩ := not_nulls_suffix t descending
  have hblank : Text.trim (t ++ directionText descending ++ [' ']) =
      t ++ directionText descending := by
    obtain ⟨u, c, hu, hc⟩ := exists_directionText descending
    rw [hu]
    exact trim_append_blank h hc
  rw [parseNulls]
  rcases nullsFirst with _ | _ | _
  · rw [Option.map_none, Option.getD_none, List.append_nil, if_neg hfirst]
    exact if_neg hlast
  · have hnone : ¬"NULLS FIRST".toList <:+
        toUpperCase (t ++ directionText descending ++ nullsText false) := by
      rw [toUpperCase_append]
      exact not_suffix_append (by decide) (by decide) _
    have hsplit : t ++ directionText descending ++ nullsText false =
        t ++ directionText descending ++ [' '] ++ "NULLS LAST".toList :=
      (List.append_assoc _ [' '] _).symm
    rw [Option.map_some, Option.getD_some, if_neg hnone]
    dsimp only
    rw [hsplit, if_pos, stripEnd_append, hblank]
    rw [toUpperCase_append]
    exact List.suffix_append _ _
  · have hsplit : t ++ directionText descending ++ nullsText true =
        t ++ directionText descending ++ [' '] ++ "NULLS FIRST".toList :=
      (List.append_assoc _ [' '] _).symm
    have hsome : "NULLS FIRST".toList <:+
        toUpperCase (t ++ directionText descending ++ [' '] ++ "NULLS FIRST".toList) := by
      rw [toUpperCase_append]
      exact List.suffix_append _ _
    rw [Option.map_some, Option.getD_some, hsplit, if_pos hsome, stripEnd_append, hblank]
    exact if_neg hlast

theorem parseDirection_append (t : List Char) (descending : Bool) :
    parseDirection (t ++ directionText descending) = (descending, t) := by
  rw [parseDirection]
  cases descending
  · have hnot : ¬" DESC".toList <:+ t ++ directionText false :=
      not_suffix_append_of_le (by decide) (by decide) t
    rw [if_neg hnot]
    exact (if_pos (List.suffix_append t _)).trans
      (congrArg (Prod.mk false) (stripEnd_append t " ASC".toList))
  · exact (if_pos (List.suffix_append t _)).trans
      (congrArg (Prod.mk true) (stripEnd_append t " DESC".toList))

/-- **The direction and the nulls are read back**, and what stands before them is the value. -/
theorem parse_append (h : StartsVisible t) (descending : Bool) (nullsFirst : Option Bool) :
    parse (t ++ directionText descending ++ (nullsFirst.map nullsText).getD []) =
      ⟨parseValue t, descending, nullsFirst⟩ := by
  have htrim : Text.trim (t ++ directionText descending ++ (nullsFirst.map nullsText).getD []) =
      t ++ directionText descending ++ (nullsFirst.map nullsText).getD [] := by
    rw [List.append_assoc]
    rcases nullsFirst with _ | nullsFirst
    · obtain ⟨u, c, hu, hc⟩ := exists_directionText descending
      rw [Option.map_none, Option.getD_none, List.append_nil, hu]
      exact trim_append h hc
    · obtain ⟨u, c, hu, hc⟩ := exists_nullsText nullsFirst
      rw [Option.map_some, Option.getD_some, hu, ← List.append_assoc (directionText descending)]
      exact trim_append h hc
  rw [parse, htrim, parseNulls_append h]
  dsimp only
  rw [parseDirection_append]

theorem parse_blanks_append (h : ∀ c ∈ s, c ≤ ' ') (t : List Char) : parse (s ++ t) = parse t := by
  rw [parse, trim_blanks_append h, parse]

theorem length_le_of_parseValue {fieldName : List Char} (h : parseValue t = .field fieldName) :
    fieldName.length ≤ t.length := by
  rw [parseValue] at h
  split_ifs at h
  · rw [← OrderValue.field.inj h, stripEnd]
    exact List.length_take_le' _ _
  · rw [← OrderValue.field.inj h]

theorem parseValue_field (t : List Char) : parseValue t = .field t ↔ ¬[')'] <:+ t := by
  rw [parseValue]
  by_cases hend : [')'] <:+ t
  · rw [if_pos hend]
    refine iff_of_false (fun h => ?_) (not_not_intro hend)
    obtain ⟨u, rfl⟩ := hend
    split_ifs at h
    rw [stripEnd_append] at h
    have hlen := congrArg List.length (OrderValue.field.inj h)
    rw [List.length_append] at hlen
    exact Nat.ne_of_lt (Nat.lt_succ_self _) hlen
  · rw [if_neg hend]
    exact iff_of_true rfl hend

theorem parseValue_function (sqlFunction : SQLFunction) (nested : OrderValue) :
    parseValue (OrderValue.function sqlFunction nested).toString =
      .function sqlFunction nested ↔
        (sqlFunction = .upper ∨ sqlFunction = .lower) ∧ ∃ fieldName, nested = .field fieldName := by
  have htext : (OrderValue.function sqlFunction nested).toString =
      sqlFunction.name ++ ['('] ++ nested.toString ++ [')'] := by
    simp [OrderValue.toString, OrderValue.addSqlValue]
  have hend : [')'] <:+ (OrderValue.function sqlFunction nested).toString :=
    htext ▸ List.suffix_append _ _
  have hfield : OrderValue.field nested.toString = nested ↔
      ∃ fieldName, nested = .field fieldName := by
    cases nested with
    | field fieldName => exact iff_of_true rfl ⟨fieldName, rfl⟩
    | function sqlFunction nested =>
      refine iff_of_false (fun h => by cases h) ?_
      rintro ⟨fieldName, h⟩
      cases h
  have hupper : toUpperCase (OrderValue.function sqlFunction nested).toString =
      (sqlFunction.name ++ ['(']) ++ toUpperCase (nested.toString ++ [')']) := by
    rw [htext, List.append_assoc, toUpperCase_append]
    cases sqlFunction <;> rfl
  -- the field within the brackets
  have hstrip : ∀ name, name.length = 6 →
      stripEnd [')'] ((name ++ nested.toString ++ [')']).drop 6) = nested.toString := by
    intro name hname
    rw [List.append_assoc, ← hname, List.drop_left, stripEnd_append]
  have hnested : ∀ code, OrderValue.function code (.field nested.toString) =
      .function code nested ↔ ∃ fieldName, nested = .field fieldName := by
    intro code
    rw [← hfield, OrderValue.function.injEq]
    exact and_iff_right rfl
  rw [parseValue, if_pos hend, hupper, htext]
  cases sqlFunction with
  | length =>
    rw [if_neg (not_prefix_append (by decide) (by decide) _),
      if_neg (not_prefix_append (by decide) (by decide) _)]
    refine iff_of_false (fun h => by cases h) ?_
    rintro ⟨h | h, -⟩ <;> cases h
  | trim =>
    rw [if_neg (not_prefix_append_of_le (by decide) (by decide) _),
      if_neg (not_prefix_append_of_le (by decide) (by decide) _)]
    refine iff_of_false (fun h => by cases h) ?_
    rintro ⟨h | h, -⟩ <;> cases h
  | upper =>
    have hstart : "UPPER(".toList <+: SQLFunction.upper.name ++ ['('] ++
        toUpperCase (nested.toString ++ [')']) := List.prefix_append _ _
    rw [if_pos hstart, hstrip _ rfl, hnested]
    exact (and_iff_right (.inl rfl)).symm
  | lower =>
    have hstart : "LOWER(".toList <+: SQLFunction.lower.name ++ ['('] ++
        toUpperCase (nested.toString ++ [')']) := List.prefix_append _ _
    rw [if_neg (not_prefix_append (by decide) (by decide) _), if_pos hstart, hstrip _ rfl,
      hnested]
    exact (and_iff_right (.inr rfl)).symm

theorem parse_direction (descending : Bool) (nullsFirst : Option Bool) :
    ∃ fieldName, (parse (directionText descending ++
      (nullsFirst.map nullsText).getD [])).value = .field fieldName ∧ ∃ c ∈ fieldName, ' ' < c := by
  rcases descending with _ | _ <;> rcases nullsFirst with _ | _ | _
  · exact ⟨"ASC".toList, by decide, 'A', by decide, by decide⟩
  · exact ⟨"ASC".toList, by decide, 'A', by decide, by decide⟩
  · exact ⟨"ASC".toList, by decide, 'A', by decide, by decide⟩
  · exact ⟨"DESC".toList, by decide, 'D', by decide, by decide⟩
  · exact ⟨"DESC".toList, by decide, 'D', by decide, by decide⟩
  · exact ⟨"DESC".toList, by decide, 'D', by decide, by decide⟩

theorem exists_blanks_append (s : List Char) :
    ∃ l r, s = l ++ r ∧ (∀ c ∈ l, c ≤ ' ') ∧ (r = [] ∨ StartsVisible r) := by
  refine ⟨s.takeWhile (· ≤ ' '), s.dropWhile (· ≤ ' '), List.takeWhile_append_dropWhile.symm,
    fun c hc => by simpa using List.mem_takeWhile_imp hc, ?_⟩
  rcases hrest : s.dropWhile (· ≤ ' ') with _ | ⟨c, rest⟩
  · exact .inl rfl
  · have hc := List.head_dropWhile_not (fun c => decide (c ≤ ' ')) (l := s) (by rw [hrest]; simp)
    simp only [hrest, List.head_cons] at hc
    exact .inr ⟨c, rest, rfl, by simpa using hc⟩

theorem startsVisible_function (sqlFunction : SQLFunction) (nested : OrderValue) :
    StartsVisible (OrderValue.function sqlFunction nested).toString := by
  cases sqlFunction
  · exact ⟨'L', _, rfl, by decide⟩
  · exact ⟨'T', _, rfl, by decide⟩
  · exact ⟨'U', _, rfl, by decide⟩
  · exact ⟨'L', _, rfl, by decide⟩

theorem equals_parse_iff (item : OrderByItem) (h : StartsVisible item.value.toString) :
    (parse item.toString).equals item = true ↔ parseValue item.value.toString = item.value := by
  rw [toString, parse_append h, equals, decide_eq_true_eq]
  exact and_iff_left rfl

/-- **Which items are read back.** -/
theorem readsBack_iff (item : OrderByItem) :
    (parse item.toString).equals item = true ↔ ReadsBack item.value := by
  obtain ⟨value, descending, nullsFirst⟩ := item
  cases value with
  | function sqlFunction nested =>
    rw [equals_parse_iff ⟨.function sqlFunction nested, descending, nullsFirst⟩
      (startsVisible_function sqlFunction nested), parseValue_function]
    cases nested with
    | field fieldName => exact and_iff_left ⟨fieldName, rfl⟩
    | function sqlFunction nested =>
      refine iff_of_false (fun h => ?_) id
      obtain ⟨fieldName, h⟩ := h.2
      cases h
  | field fieldName =>
    by_cases hvisible : StartsVisible fieldName
    · rw [equals_parse_iff ⟨.field fieldName, descending, nullsFirst⟩ hvisible]
      exact (parseValue_field fieldName).trans (and_iff_right hvisible).symm
    refine iff_of_false (fun hequals => ?_) fun h => hvisible h.1
    rw [equals, decide_eq_true_eq] at hequals
    obtain ⟨l, r, rfl, hl, hr⟩ := exists_blanks_append fieldName
    have hparse : parse (toString ⟨.field (l ++ r), descending, nullsFirst⟩) =
        parse (r ++ (directionText descending ++ (nullsFirst.map nullsText).getD [])) := by
      rw [← parse_blanks_append hl (r ++ _), ← List.append_assoc, ← List.append_assoc]
      rfl
    rw [hparse] at hequals
    rcases hr with rfl | hr
    · obtain ⟨name, hname, c, hc, hvis⟩ := parse_direction descending nullsFirst
      rw [List.nil_append, hname, List.append_nil] at hequals
      rw [OrderValue.field.inj hequals.1] at hc
      exact absurd (hl c hc) (Char.not_le.mpr hvis)
    · rw [← List.append_assoc, parse_append hr] at hequals
      have hlen := length_le_of_parseValue hequals.1
      rw [List.length_append] at hlen
      obtain rfl : l = [] := List.length_eq_zero_iff.mp (by omega)
      exact hvisible hr

end Parse

/-! ### Orders that agree -/

section Order

variable {C} {fetcher} {item : OrderByItem} {nullsLargest : Bool}

theorem sign_neg {n : Int32} (h : n ≠ Int32.minValue) : sign (-n) = (sign n).swap := by
  have hmin : n.toInt ≠ -2 ^ 31 := fun heq => h (Int32.toInt_inj.mp heq)
  have hlow := Int32.le_toInt n
  have hhigh := Int32.toInt_lt n
  have hneg : (-n).toInt = -n.toInt := by
    rw [Int32.toInt_neg, Int.bmod_eq_of_le (by omega) (by omega)]
  have hzero : (0 : Int32).toInt = 0 := rfl
  rw [sign, sign]
  simp only [Int32.lt_iff_toInt_lt, hneg, hzero]
  split_ifs
  all_goals first | rfl | omega

theorem sign_compare (h : HasOpposites C fetcher item) (row₁ row₂ : Row V) :
    sign (item.compare C fetcher row₁ row₂) = Comparator.directed item.descending
      (Comparator.nullsLast fun x y => sign (C.compareTo x y))
        (item.value.getValue fetcher row₁) (item.value.getValue fetcher row₂) := by
  have hopposite : item.descending = true → ∀ value₁, item.value.getValue fetcher row₁ =
      some value₁ → ∀ value₂, item.value.getValue fetcher row₂ = some value₂ →
        C.compareTo value₁ value₂ ≠ Int32.minValue :=
    fun hdesc value₁ h₁ value₂ h₂ => h hdesc row₁ row₂ value₁ h₁ value₂ h₂
  rw [compare, Comparator.directed]
  cases hdesc : item.descending with
  | false =>
    rw [if_neg Bool.false_ne_true, if_neg Bool.false_ne_true]
    rcases item.value.getValue fetcher row₁ with _ | value₁ <;>
      rcases item.value.getValue fetcher row₂ with _ | value₂
    · rfl
    · rfl
    · rfl
    · rfl
  | true =>
    rw [if_pos rfl, if_pos rfl]
    rcases h₁ : item.value.getValue fetcher row₁ with _ | value₁ <;>
      rcases h₂ : item.value.getValue fetcher row₂ with _ | value₂
    · exact (by decide : sign (-0) = .eq)
    · rfl
    · rfl
    · exact (sign_neg (hopposite hdesc value₁ h₁ value₂ h₂)).trans
        (@Std.OrientedCmp.eq_swap _ _ C.lawful.toOrientedCmp value₂ value₁).symm

theorem placeNulls_injective {first first' : Bool} {cmp cmp' : V → V → Ordering} {v : V}
    (h : placeNulls first cmp none (some v) = placeNulls first' cmp' none (some v)) :
    first = first' := by
  cases first <;> cases first'
  · rfl
  · cases h
  · cases h
  · rfl

theorem directed_nullsLast (descending : Bool) (cmp : V → V → Ordering) (value₁ value₂ : Option V) :
    Comparator.directed descending (Comparator.nullsLast cmp) value₁ value₂ =
      placeNulls descending (Comparator.directed descending cmp) value₁ value₂ := by
  cases descending <;> rcases value₁ with _ | value₁ <;> rcases value₂ with _ | value₂ <;> rfl

theorem clauseOrder_eq (useOrderByNulls : Bool) (row₁ row₂ : Row V) :
    clauseOrder C fetcher nullsLargest item useOrderByNulls row₁ row₂ =
      placeNulls (item.nullsFirst.getD (defaultFirst nullsLargest item.descending))
        (Comparator.directed item.descending fun x y => sign (C.compareTo x y))
        (item.value.getValue fetcher row₁) (item.value.getValue fetcher row₂) := by
  rw [clauseOrder, sortKeys]
  rcases item.nullsFirst with _ | nullsFirst
  · exact Ordering.then_eq
  · cases useOrderByNulls with
    | true => exact Ordering.then_eq
    | false =>
      -- the first key tells the nulls from the other values
      simp only [Bool.false_eq_true, if_false, List.map_cons, List.map_nil,
        Comparator.lexicographic, SortKey.order, Ordering.then_eq, Option.getD_some,
        Option.getD_none]
      rcases item.value.getValue fetcher row₁ with _ | value₁ <;>
        rcases item.value.getValue fetcher row₂ with _ | value₂ <;> cases nullsFirst <;> rfl

theorem getValue_const (fetcher : SQLFunction → V → V) (value : OrderValue) (v : V) :
    ∃ w, value.getValue fetcher (fun _ => some v) = some w := by
  induction value with
  | field fieldName => exact ⟨v, rfl⟩
  | function sqlFunction nested ih =>
    obtain ⟨w, hw⟩ := ih
    exact ⟨fetcher sqlFunction w, by rw [OrderValue.getValue, hw, Option.map_some]⟩

theorem getValue_none (value : OrderValue) :
    value.getValue fetcher (fun _ => (none : Option V)) = none := by
  induction value with
  | field fieldName => rfl
  | function sqlFunction nested ih => rw [OrderValue.getValue, ih, Option.map_none]

theorem nullsLargest_iff :
    item.nullsFirst.getD (defaultFirst nullsLargest item.descending) = item.descending ↔
      NullsLargest nullsLargest item := by
  rw [NullsLargest]
  rcases item.nullsFirst with _ | nullsFirst
  · rw [Option.getD_none, defaultFirst]
    cases nullsLargest <;> cases item.descending <;> decide
  · exact Iff.rfl

theorem sign_compare_minValue (nullsLargest : Bool) {row₁ row₂ : Row V} {value₁ value₂ : V}
    (hdesc : item.descending = true) (h₁ : item.value.getValue fetcher row₁ = some value₁)
    (h₂ : item.value.getValue fetcher row₂ = some value₂)
    (hmin : C.compareTo value₁ value₂ = Int32.minValue) :
    sign (item.compare C fetcher row₁ row₂) = .lt ∧
      clauseOrder C fetcher nullsLargest item true row₁ row₂ = .gt := by
  rw [clauseOrder_eq, compare, h₁, h₂, hdesc]
  refine ⟨?_, ?_⟩
  · dsimp only
    rw [hmin]
    decide
  · have hswap := @Std.OrientedCmp.eq_swap _ _ C.lawful.toOrientedCmp value₂ value₁
    rw [hmin] at hswap
    exact hswap

/-- **The comparator and the clause agree** where the nulls go where the direction puts the largest
value, and nothing compares to the number without an opposite. -/
theorem agrees_iff [Inhabited V] :
    (∀ useOrderByNulls row₁ row₂, sign (item.compare C fetcher row₁ row₂) =
      clauseOrder C fetcher nullsLargest item useOrderByNulls row₁ row₂) ↔
        NullsLargest nullsLargest item ∧ HasOpposites C fetcher item := by
  constructor
  · intro hagrees
    have hopposites : HasOpposites C fetcher item := by
      intro hdesc row₁ row₂ value₁ h₁ value₂ h₂ hmin
      obtain ⟨hlt, hgt⟩ := sign_compare_minValue nullsLargest hdesc h₁ h₂ hmin
      have hsame := hagrees true row₁ row₂
      rw [hlt, hgt] at hsame
      cases hsame
    refine ⟨nullsLargest_iff.mp ?_, hopposites⟩
    have hsame := hagrees true (fun _ => none) fun _ => some default
    obtain ⟨w, hw⟩ := getValue_const fetcher item.value default
    rw [sign_compare hopposites, directed_nullsLast, clauseOrder_eq, getValue_none, hw] at hsame
    exact (placeNulls_injective hsame).symm
  · rintro ⟨hnulls, hopposites⟩ useOrderByNulls row₁ row₂
    rw [sign_compare hopposites, directed_nullsLast, clauseOrder_eq, nullsLargest_iff.mpr hnulls]

theorem transCmp_compare (h : HasOpposites C fetcher item) :
    Std.TransCmp fun row₁ row₂ => sign (item.compare C fetcher row₁ row₂) := by
  have hsame : (fun row₁ row₂ => sign (item.compare C fetcher row₁ row₂)) = fun row₁ row₂ =>
      Comparator.directed item.descending
        (Comparator.nullsLast fun x y => sign (C.compareTo x y))
          (item.value.getValue fetcher row₁) (item.value.getValue fetcher row₂) := by
    funext row₁ row₂
    exact sign_compare h row₁ row₂
  rw [hsame]
  exact Comparator.transCmp_on
    (Comparator.transCmp_directed (Comparator.transCmp_nullsLast C.lawful) item.descending)
    fun row => item.value.getValue fetcher row

end Order

/-- **Which items are right**: those of a field or of `UPPER` or `LOWER` of a field whose nulls go
where the direction puts the largest value. -/
theorem right_iff [Inhabited V] (nullsLargest : Bool) (item : OrderByItem) :
    Right C fetcher nullsLargest item ↔ ReadsBack item.value ∧ NullsLargest nullsLargest item ∧
      HasOpposites C fetcher item := by
  rw [← readsBack_iff, ← agrees_iff]
  constructor
  · intro h
    exact ⟨h.readsBack, h.agrees⟩
  · rintro ⟨hreads, hagrees⟩
    exact ⟨hreads, transCmp_compare (agrees_iff.mp hagrees).2, hagrees⟩

def numbers : Comparison Int32 where
  compareTo x y := if x < y then -1 else if y < x then 1 else 0
  lawful := by
    have hsame : (fun x y : Int32 => sign (if x < y then -1 else if y < x then 1 else 0)) =
        fun x y => Ord.compare x.toInt y.toInt := by
      funext x y
      simp only [Ord.compare, compareOfLessAndEq, Int32.lt_iff_toInt_lt]
      split_ifs
      all_goals first | decide | omega
    rw [hsame]
    exact Comparator.transCmp_on inferInstance Int32.toInt

theorem not_right_nullsLast :
    ¬Right numbers (fun _ n => n) true ⟨.field "quantity".toList, true, some false⟩ := by
  intro h
  have hsame := h.agrees true (fun _ => none) fun _ => some 1
  exact absurd hsame (by decide)

end OrderByItem

end OfficeAuto.Entity
