import OfficeAuto.Odata.StringMethod

/-!
# Values of literals

`Util.readPrimitiveValue` turns the text of a literal into a value of the type of a property or a
parameter. If the text begins and ends with a quote it takes the first and the last character off,
and gives what is left to the type.

What stands between the quotes is not changed, so a quote of the string, which a literal has twice,
is in the value twice. A string comes back exactly if it has no quote
(`readPrimitiveValue_literal_iff`). The text of one quote begins and ends with a quote, and is too
short for the cut; it is the only text that is (`readPrimitiveValue_eq_indexOutOfBounds_iff`).
-/

namespace OfficeAuto.Odata

open Text (substring)

/-! ### Types -/

structure Facets where
  isNullable : Bool
  maxLength : Option ℤ
  precision : Option ℤ
  scale : Option ℤ
  isUnicode : Bool

/-- A value: a text, a calendar or a date, each with its time, a number, a list, or an object of
another class. -/
inductive PrimitiveValue (V : Type)
  | null
  | text (s : List Char)
  | calendar (time : ℤ)
  | date (time : ℤ)
  | decimal (value : Decimal.BigDecimal)
  | list (values : List (PrimitiveValue V))
  | object (value : V)

/-- A primitive type, with the texts that it has no value for. -/
structure EdmPrimitiveType (V : Type) where
  name : List Char
  isEnum : Bool
  fromUriLiteral : List Char → Option (PrimitiveValue V)
  defaultType : String
  valueOfString : List Char → Facets → String → Option (PrimitiveValue V)

/-- A property, or a parameter, which may be a collection. -/
structure EdmElement (V : Type) where
  name : List Char
  type : EdmPrimitiveType V
  mappedJavaClass : Option String
  facets : Facets
  isCollection : Bool

inductive ReadException
  | indexOutOfBounds
  | numberFormat
  | illegalArgument
  | odata (message : List Char)
  deriving DecidableEq

variable {V : Type}

/-! ### Reading a literal -/

/-- A text without its first and last character if these are the given ones. -/
def stripEnds (first last : Char) (value : List Char) : Except ReadException (List Char) :=
  if value.head? = some first ∧ value.getLast? = some last then
    match substring value 1 (value.length - 1) with
    | some value => .ok value
    | none => .error .indexOutOfBounds
  else .ok value

def unquote (value : List Char) : Except ReadException (List Char) := stripEnds '\'' '\'' value

def getJavaClassForPrimitiveType (edmMappable : EdmElement V) : String :=
  edmMappable.mappedJavaClass.getD edmMappable.type.defaultType

def indicatorText (value : List Char) : List Char :=
  if value = "true".toList then "Y".toList
  else if value = "false".toList then "N".toList
  else value

def invalidValue (value : List Char) (element : EdmElement V) : ReadException :=
  .odata ("Invalid value: ".toList ++ value ++ " for property: ".toList ++ element.name)

def ofType (value : List Char) (element : EdmElement V) :
    Option (PrimitiveValue V) → Except ReadException (PrimitiveValue V)
  | some v => .ok v
  | none => .error (invalidValue value element)

def readPrimitiveValue (edmProperty : EdmElement V) (value : Option (List Char)) :
    Except ReadException (PrimitiveValue V) :=
  match value with
  | none => .ok .null
  | some value => do
    let value ← unquote value
    let edmPrimitiveType := edmProperty.type
    if edmPrimitiveType.isEnum then ofType value edmProperty (edmPrimitiveType.fromUriLiteral value)
    else
      let javaClass := getJavaClassForPrimitiveType edmProperty
      -- indicators are kept as letters, whatever the property's own type reads
      if javaClass = "java.lang.Boolean" then pure (.text (indicatorText value))
      else
        let resultValue ← ofType value edmProperty
          (edmPrimitiveType.valueOfString value edmProperty.facets javaClass)
        match resultValue with
        | .calendar time => pure (.date time)
        | resultValue => pure resultValue

def unbracket (str : List Char) : Except ReadException (List Char) := stripEnds '[' ']' str

def timeString (s : List Char) : List Char :=
  (s.map fun c => if c = 'T' then ' ' else c).filter (· ≠ 'Z')

def strToList (timestampValueOf : List Char → Option V) (str : List Char)
    (parameter : EdmElement V) : Except ReadException (PrimitiveValue V) := do
  let str ← unbracket str
  let list := Text.split ',' (str.filter fun c => c ≠ '"' && c ≠ ' ')
  let paramType := parameter.type.name
  if "Decimal".toList <:+: paramType then
    let decimalList ← list.mapM fun obj =>
      match Decimal.BigDecimal.parse obj with
      | some value => .ok (.decimal value)
      | none => .error .numberFormat
    pure (.list decimalList)
  else if "DateTimeOffset".toList <:+: paramType then
    let timestampList ← list.mapM fun obj =>
      match timestampValueOf (timeString obj) with
      | some value => .ok (.object value)
      | none => .error .illegalArgument
    pure (.list timestampList)
  else pure (.list (list.map .text))

def readParameterValue (timestampValueOf : List Char → Option V) (edmParameter : EdmElement V)
    (value : Option (List Char)) : Except ReadException (PrimitiveValue V) :=
  match value with
  | none => .ok .null
  | some value => do
    let value ← unquote value
    let edmPrimitiveType := edmParameter.type
    if edmPrimitiveType.isEnum then
      ofType value edmParameter (edmPrimitiveType.fromUriLiteral value)
    else
      let javaClass := getJavaClassForPrimitiveType edmParameter
      if javaClass = "java.lang.Boolean" then pure (.text (indicatorText value))
      else if edmParameter.isCollection then strToList timestampValueOf value edmParameter
      else
        ofType value edmParameter
          (edmPrimitiveType.valueOfString value { edmParameter.facets with isUnicode := true }
            javaClass)

theorem doubleQuotes_eq_self_iff {s : List Char} : doubleQuotes s = s ↔ '\'' ∉ s := by
  refine ⟨fun h => ?_, doubleQuotes_eq_self⟩
  have hcount := @count_doubleQuotes s
  rw [h] at hcount
  exact List.count_eq_zero.mp (by omega)

/-! ### Ends of a text -/

theorem stripEnds_between (first last : Char) (s : List Char) :
    stripEnds first last (first :: s ++ [last]) = .ok s := by
  have hlast : (first :: s ++ [last]).getLast? = some last := List.getLast?_concat
  have hcut : substring (first :: s ++ [last]) 1 ((first :: s ++ [last]).length - 1) = some s := by
    have hlength : (((first :: s ++ [last]).length : ℕ) : ℤ) = s.length + 2 := by
      simp [Int.add_assoc]
    have hend : ((s.length : ℤ) + 2 - 1).toNat = (first :: s).length := by
      rw [List.length_cons]
      omega
    rw [Text.substring, if_pos (by omega), hlength, hend, List.take_left]
    rfl
  rw [stripEnds, if_pos ⟨rfl, hlast⟩, hcut]

/-- **A text of one character that is both ends** is the only one that cannot be cut. -/
theorem stripEnds_eq_error_iff {first last : Char} {value : List Char} {e : ReadException} :
    stripEnds first last value = .error e ↔
      (first = last ∧ value = [first]) ∧ e = .indexOutOfBounds := by
  constructor
  · intro h
    unfold stripEnds at h
    split_ifs at h with hends
    obtain ⟨hhead, hlast⟩ := hends
    cases value with
    | nil => cases hhead
    | cons c s =>
      obtain rfl : c = first := Option.some.inj hhead
      obtain rfl | ⟨s, d, rfl⟩ := List.eq_nil_or_concat s
      · have hcut : substring [c] 1 (([c] : List Char).length - 1) = none := by
          rw [Text.substring, if_neg (by simp)]
        rw [hcut] at h
        exact ⟨⟨Option.some.inj hlast, rfl⟩, (Except.error.inj h).symm⟩
      · have hbetween := stripEnds_between c d s
        rw [List.concat_eq_append, ← List.cons_append, List.getLast?_concat] at hlast
        obtain rfl : d = last := Option.some.inj hlast
        rw [stripEnds, if_pos ⟨rfl, List.getLast?_concat⟩] at hbetween
        rw [List.concat_eq_append, ← List.cons_append, hbetween] at h
        cases h
  · rintro ⟨⟨rfl, rfl⟩, rfl⟩
    rw [stripEnds, if_pos ⟨rfl, rfl⟩, Text.substring, if_neg (by simp)]

theorem unquote_literal (s : List Char) : unquote (literalText s) = .ok (doubleQuotes s) :=
  stripEnds_between '\'' '\'' (doubleQuotes s)

theorem unquote_eq_error_iff {value : List Char} {e : ReadException} :
    unquote value = .error e ↔ value = ['\''] ∧ e = .indexOutOfBounds := by
  rw [unquote, stripEnds_eq_error_iff, eq_self_iff_true, true_and]

theorem unbracket_ne_error (str : List Char) (e : ReadException) : unbracket str ≠ .error e := by
  intro h
  exact absurd (stripEnds_eq_error_iff.mp h).1.1 (by decide)

/-! ### Reading back -/

/-- A property of strings, with those that fit its facets: the type gives a string itself. -/
structure ReadsStrings (edmProperty : EdmElement V) (fits : List Char → Prop) : Prop where
  isEnum : edmProperty.type.isEnum = false
  javaClass : getJavaClassForPrimitiveType edmProperty ≠ "java.lang.Boolean"
  valueOfString : ∀ s, fits s → edmProperty.type.valueOfString s edmProperty.facets
    (getJavaClassForPrimitiveType edmProperty) = some (.text s)
  rejects : ∀ s, ¬ fits s → edmProperty.type.valueOfString s edmProperty.facets
    (getJavaClassForPrimitiveType edmProperty) = none

variable {edmProperty : EdmElement V} {fits : List Char → Prop}

theorem readPrimitiveValue_literal (h : ReadsStrings edmProperty fits) (s : List Char) :
    readPrimitiveValue edmProperty (some (literalText s)) =
      (ofType (doubleQuotes s) edmProperty (edmProperty.type.valueOfString (doubleQuotes s)
        edmProperty.facets (getJavaClassForPrimitiveType edmProperty)) >>= fun
        | .calendar time => pure (.date time)
        | resultValue => pure resultValue) := by
  have hbind (f : List Char → Except ReadException (PrimitiveValue V)) :
      (Except.ok (doubleQuotes s) >>= f) = f (doubleQuotes s) := rfl
  rw [readPrimitiveValue, unquote_literal, hbind]
  simp only [h.isEnum, h.javaClass, Bool.false_eq_true, if_false]

/-- **A string comes back from its literal** exactly if it fits the facets and has no quote. -/
theorem readPrimitiveValue_literal_iff (h : ReadsStrings edmProperty fits) (s : List Char) :
    readPrimitiveValue edmProperty (some (literalText s)) = .ok (.text s) ↔ fits s ∧ '\'' ∉ s := by
  rw [readPrimitiveValue_literal h]
  by_cases hfits : fits (doubleQuotes s)
  · rw [h.valueOfString _ hfits]
    have hread : (.ok (.text (doubleQuotes s)) : Except ReadException (PrimitiveValue V)) =
        .ok (.text s) ↔ doubleQuotes s = s := by
      rw [Except.ok.injEq, PrimitiveValue.text.injEq]
    refine hread.trans ⟨fun heq => ⟨heq ▸ hfits, doubleQuotes_eq_self_iff.mp heq⟩, fun hs => ?_⟩
    exact doubleQuotes_eq_self_iff.mpr hs.2
  · rw [h.rejects _ hfits]
    refine iff_of_false (fun heq => by cases heq) fun hs => hfits ?_
    rw [doubleQuotes_eq_self_iff.mpr hs.2]
    exact hs.1

/-! ### Exceptions -/

theorem bind_eq_indexOutOfBounds_iff {α : Type} {x : Except ReadException α}
    {f : α → Except ReadException (PrimitiveValue V)}
    (hf : ∀ a, f a ≠ .error .indexOutOfBounds) :
    (x >>= f) = .error .indexOutOfBounds ↔ x = .error .indexOutOfBounds := by
  cases x with
  | error e => exact ⟨fun h => by cases h; rfl, fun h => by cases h; rfl⟩
  | ok a => exact iff_of_false (hf a) fun h => by cases h

theorem ofType_ne_indexOutOfBounds (value : List Char) (element : EdmElement V)
    (v : Option (PrimitiveValue V)) : ofType value element v ≠ .error .indexOutOfBounds := by
  intro h
  cases v <;> cases h

theorem unquote_bind_iff {value : List Char}
    {f : List Char → Except ReadException (PrimitiveValue V)}
    (hf : ∀ a, f a ≠ .error .indexOutOfBounds) :
    (unquote value >>= f) = .error .indexOutOfBounds ↔ value = ['\''] := by
  rw [bind_eq_indexOutOfBounds_iff hf, unquote_eq_error_iff, and_iff_left rfl]

/-- **Only the text of one quote is cut out of bounds.** -/
theorem readPrimitiveValue_eq_indexOutOfBounds_iff (edmProperty : EdmElement V)
    (value : List Char) :
    readPrimitiveValue edmProperty (some value) = .error .indexOutOfBounds ↔
      value = ['\''] := by
  refine unquote_bind_iff fun value => ?_
  dsimp only
  split_ifs
  · exact ofType_ne_indexOutOfBounds _ _ _
  · intro h
    cases h
  · rw [ne_eq, bind_eq_indexOutOfBounds_iff fun v => ?_]
    · exact ofType_ne_indexOutOfBounds _ _ _
    · intro h
      cases v <;> cases h

theorem strToList_ne_indexOutOfBounds (timestampValueOf : List Char → Option V) (str : List Char)
    (parameter : EdmElement V) :
    strToList timestampValueOf str parameter ≠ .error .indexOutOfBounds := by
  intro h
  rw [strToList, bind_eq_indexOutOfBounds_iff fun str => ?_] at h
  · exact unbracket_ne_error str _ h
  · dsimp only
    split_ifs
    · rw [ne_eq, bind_eq_indexOutOfBounds_iff fun values h => by cases h]
      intro h
      obtain ⟨obj, -, hobj⟩ := Except.exists_of_mapM_eq_error h
      cases hparse : Decimal.BigDecimal.parse obj <;> rw [hparse] at hobj <;> cases hobj
    · rw [ne_eq, bind_eq_indexOutOfBounds_iff fun values h => by cases h]
      intro h
      obtain ⟨obj, -, hobj⟩ := Except.exists_of_mapM_eq_error h
      cases hparse : timestampValueOf (timeString obj) <;> rw [hparse] at hobj <;> cases hobj
    · intro h
      cases h

theorem readParameterValue_eq_indexOutOfBounds_iff (timestampValueOf : List Char → Option V)
    (edmParameter : EdmElement V) (value : List Char) :
    readParameterValue timestampValueOf edmParameter (some value) = .error .indexOutOfBounds ↔
      value = ['\''] := by
  refine unquote_bind_iff fun value => ?_
  dsimp only
  split_ifs
  · exact ofType_ne_indexOutOfBounds _ _ _
  · intro h
    cases h
  · exact strToList_ne_indexOutOfBounds _ _ _
  · exact ofType_ne_indexOutOfBounds _ _ _

/-- **Literals and their values.** A string property reads a string back from its literal exactly if
the string fits the facets and has no quote, and reading any text throws an index out of bounds
exactly if the text is one quote. -/
theorem readPrimitiveValue_correct (h : ReadsStrings edmProperty fits) :
    (∀ s : List Char, readPrimitiveValue edmProperty (some (literalText s)) = .ok (.text s) ↔
      fits s ∧ '\'' ∉ s) ∧
    (∀ (edmProperty : EdmElement V) (value : List Char),
      readPrimitiveValue edmProperty (some value) = .error .indexOutOfBounds ↔ value = ['\'']) ∧
    ∀ (timestampValueOf : List Char → Option V) (edmParameter : EdmElement V) (value : List Char),
      readParameterValue timestampValueOf edmParameter (some value) = .error .indexOutOfBounds ↔
        value = ['\''] :=
  ⟨readPrimitiveValue_literal_iff h, readPrimitiveValue_eq_indexOutOfBounds_iff,
    readParameterValue_eq_indexOutOfBounds_iff⟩

/-! ### A property -/

def fitsLength (facets : Facets) (s : List Char) : Bool :=
  facets.maxLength.all fun maxLength => (s.length : ℤ) ≤ maxLength

def productNameProperty : EdmElement Unit where
  name := "productName".toList
  type :=
    { name := "String".toList
      isEnum := false
      fromUriLiteral := fun _ => none
      defaultType := "java.lang.String"
      valueOfString := fun s facets _ => if fitsLength facets s then some (.text s) else none }
  mappedJavaClass := none
  facets := ⟨true, some 10, none, none, true⟩
  isCollection := false

theorem readsStrings_productNameProperty :
    ReadsStrings productNameProperty fun s =>
      fitsLength productNameProperty.facets s = true where
  isEnum := rfl
  javaClass := by decide
  valueOfString _ hs := if_pos hs
  rejects _ hs := if_neg hs

theorem readPrimitiveValue_correct_productName :
    readPrimitiveValue productNameProperty (some "'chair'".toList) =
      .ok (.text "chair".toList) :=
  ((readPrimitiveValue_correct readsStrings_productNameProperty).1 "chair".toList).mpr
    ⟨by decide, by decide⟩

theorem readPrimitiveValue_quotes :
    readPrimitiveValue productNameProperty (some (literalText "it's".toList)) ≠
        .ok (.text "it's".toList) ∧
      readPrimitiveValue productNameProperty (some ['\'']) = .error .indexOutOfBounds := by
  refine ⟨fun h => ?_, rfl⟩
  have hread : readPrimitiveValue productNameProperty (some (literalText "it's".toList)) =
      .ok (.text "it''s".toList) := rfl
  rw [hread, Except.ok.injEq, PrimitiveValue.text.injEq] at h
  exact absurd h (by decide)

end OfficeAuto.Odata
