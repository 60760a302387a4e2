import OfficeAuto.Entity.Agreement
import OfficeAuto.Text.Split

/-!
# Methods on strings, and the search

A filter may ask whether a property contains a text, starts with it or ends with it.
`visitMethodCall` of the expression visitor makes a comparison by LIKE of it, and so does the
processor of every word of the search. The text of the client goes into the pattern as it is, and
the literal of a text has its quotes doubled, which `readPrimitiveValue` keeps.

**A text is taken literally** by a method if the method selects, over all values of the property,
exactly those that contain it, start with it or end with it. That is so for the texts that fit the
facets of the property and have no percent sign, no underscore and no quote, and the search is
literal where no word has a percent sign or an underscore and there is a property to search
(`literal_iff`).
-/

namespace OfficeAuto.Odata

open Entity

/-! ### Literals -/

/-- What is read of a property of strings: its name and its facets. -/
structure EdmProperty where
  name : FieldName
  maxLength : Option ℕ
  isUnicode : Option Bool

/-- What reading a literal may throw. -/
inductive LiteralException
  | indexOutOfBounds
  | invalidValue
  deriving DecidableEq, Repr

/-- `EdmString.valueOfString`: the facets are checked, and the text stays. -/
def EdmProperty.valueOfString (property : EdmProperty) (value : List Char) :
    Except LiteralException (List Char) :=
  if property.isUnicode = some false ∧ ¬ value.all (·.toNat < 128) then .error .invalidValue
  else if property.maxLength.any (· < (value.flatMap utf16).length) then .error .invalidValue
  else .ok value

def EdmProperty.readPrimitiveValue (property : EdmProperty) (value : List Char) :
    Except LiteralException (List Char) :=
  if value.head? = some '\'' ∧ value.getLast? = some '\'' then
    match Text.substring value 1 (value.length - 1) with
    | none => .error .indexOutOfBounds
    | some value => property.valueOfString value
  else property.valueOfString value

def doubleQuotes (s : List Char) : List Char :=
  s.flatMap fun c => if c = '\'' then ['\'', '\''] else [c]

def literalText (s : List Char) : List Char := '\'' :: doubleQuotes s ++ ['\'']

/-! ### Methods -/

inductive MethodKind
  | contains
  | startswith
  | endswith
  deriving DecidableEq, Repr

/-- `EntityCondition.makeCondition(fieldName, EntityOperator.LIKE, pattern)` -/
def likeCondition (fieldName : FieldName) (pattern : List Char) : EntityCondition :=
  .comparable ⟨fieldName, .like, .value (.string pattern), fun h => Bool.noConfusion h⟩

def MethodKind.pattern (methodCall : MethodKind) (valueParam2 : List Char) : List Char :=
  match methodCall with
  | .contains => '%' :: valueParam2 ++ ['%']
  | .startswith => valueParam2 ++ ['%']
  | .endswith => '%' :: valueParam2

/-- **`visitMethodCall`** of a property and a literal. -/
def visitMethodCall (methodCall : MethodKind) (edmProperty : EdmProperty) (literal : List Char) :
    Except LiteralException EntityCondition := do
  let valueParam2 ← edmProperty.readPrimitiveValue literal
  return likeCondition edmProperty.name (methodCall.pattern valueParam2)

/-! ### The search -/

/-- `SearchOption`: its text, and the text of its expression. -/
structure SearchOption where
  text : Option (List Char)
  searchExpression : List Char

def getSearchOptionWords (searchOption : SearchOption) : List (List Char) :=
  match searchOption.text with
  | some text => Text.split ' ' (text.filter (· ≠ '"'))
  | none => Text.splitSeq [' ', 'A', 'N', 'D', ' ']
      (searchOption.searchExpression.filter fun c => c ∉ ['{', '}', '"', '\''])

/-- The condition of `processSearchOption` over the properties to search. -/
def searchCondition (searchOption : SearchOption) (searchProperties : List FieldName) :
    EntityCondition :=
  .list ((getSearchOptionWords searchOption).map fun searchText =>
    .list (searchProperties.map fun field => likeCondition field ('%' :: searchText ++ ['%'])) .or)
    .and

/-! ### What is selected -/

def MethodKind.Selects (methodCall : MethodKind) (property : EdmProperty) (s : List Char)
    (row : Row) : Prop :=
  ∃ condition, visitMethodCall methodCall property (literalText s) = .ok condition ∧
    selects row condition.makeWhereString = true

def MethodKind.Holds (methodCall : MethodKind) (s v : List Char) : Prop :=
  match methodCall with
  | .contains => s <:+: v
  | .startswith => s <+: v
  | .endswith => s <:+ v

/-- **A text is taken literally** by a method on a property. -/
def MethodKind.IsLiteral (methodCall : MethodKind) (property : EdmProperty) (s : List Char) :
    Prop :=
  ∀ (row : Row) (v : List Char), row property.name = some (.string v) →
    (methodCall.Selects property s row ↔ methodCall.Holds s v)

def ContainsText (searchProperties : List FieldName) (row : Row) (searchText : List Char) : Prop :=
  ∃ field ∈ searchProperties, ∃ v, row field = some (.string v) ∧ searchText <:+: v

/-- **A search is taken literally.** -/
def SearchOption.IsLiteral (searchOption : SearchOption) (searchProperties : List FieldName) :
    Prop :=
  ∀ row : Row, selects row (searchCondition searchOption searchProperties).makeWhereString = true ↔
    ∀ searchText ∈ getSearchOptionWords searchOption, ContainsText searchProperties row searchText

def NoWildcard (s : List Char) : Prop := '%' ∉ s ∧ '_' ∉ s

def EdmProperty.Fits (property : EdmProperty) (value : List Char) : Prop :=
  property.valueOfString value = .ok value

/-! ### Literals are read -/

section Literals

variable {property : EdmProperty} {s : List Char}

theorem readPrimitiveValue_literalText :
    property.readPrimitiveValue (literalText s) = property.valueOfString (doubleQuotes s) := by
  have hsubstring : Text.substring (literalText s) 1 ((literalText s).length - 1) =
      some (doubleQuotes s) := by
    have hlength : (literalText s).length = (doubleQuotes s).length + 2 := by simp [literalText]
    have hbounds : (0 : ℤ) ≤ 1 ∧ (1 : ℤ) ≤ (literalText s).length - 1 ∧
        ((literalText s).length : ℤ) - 1 ≤ (literalText s).length := by omega
    have htake : ((literalText s).length - 1 : ℤ).toNat = (doubleQuotes s).length + 1 := by omega
    rw [Text.substring, if_pos hbounds, htake]
    simp [literalText]
  have hquotes : (literalText s).head? = some '\'' ∧ (literalText s).getLast? = some '\'' :=
    ⟨rfl, List.getLast?_concat⟩
  rw [EdmProperty.readPrimitiveValue, if_pos hquotes, hsubstring]

theorem valueOfString_eq_ok {value read : List Char} :
    property.valueOfString value = .ok read ↔ property.Fits value ∧ read = value := by
  rw [EdmProperty.Fits, EdmProperty.valueOfString]
  split_ifs
  · simp
  · simp
  · simp [eq_comm]

theorem doubleQuotes_eq_self (h : '\'' ∉ s) : doubleQuotes s = s := by
  induction s with
  | nil => rfl
  | cons c s ih =>
    obtain ⟨hc, hs⟩ := not_or.mp (mt List.mem_cons.mpr h)
    have hrest := ih hs
    rw [doubleQuotes] at hrest ⊢
    rw [List.flatMap_cons, if_neg (Ne.symm hc), hrest]
    rfl

theorem count_doubleQuotes : (doubleQuotes s).count '\'' = 2 * s.count '\'' := by
  induction s with
  | nil => rfl
  | cons c s ih =>
    rw [doubleQuotes] at ih ⊢
    rw [List.flatMap_cons, List.count_append, ih]
    by_cases hc : c = '\''
    · subst hc
      simp
      omega
    · simp [hc]

end Literals

/-! ### Patterns -/

section Patterns

variable {s v : List Char} {row : Row}

theorem likeItems_append (p q : List Char) : likeItems (p ++ q) = likeItems p ++ likeItems q :=
  List.map_append

theorem likeItems_noWildcard (h : NoWildcard s) : likeItems s = s.map .lit := by
  refine List.map_congr_left fun c hc => ?_
  have hpercent : c ≠ '%' := fun heq => h.1 (heq ▸ hc)
  have hunderscore : c ≠ '_' := fun heq => h.2 (heq ▸ hc)
  rw [likeItem, if_neg hpercent, if_neg hunderscore]

theorem likeItems_pattern (methodCall : MethodKind) (s : List Char) :
    likeItems (methodCall.pattern s) = match methodCall with
      | .contains => .many :: (likeItems s ++ [.many])
      | .startswith => likeItems s ++ [.many]
      | .endswith => .many :: likeItems s := by
  cases methodCall
  · exact congrArg (Glob.many :: ·) (likeItems_append s ['%'])
  · exact likeItems_append s ['%']
  · rfl

theorem accepts_pattern (methodCall : MethodKind) (h : NoWildcard s) :
    Glob.accepts (fun _ => true) (likeItems (methodCall.pattern s)) v = true ↔
      methodCall.Holds s v := by
  rw [likeItems_pattern, likeItems_noWildcard h]
  cases methodCall
  · exact Glob.accepts_infix_iff
  · exact Glob.accepts_prefix_iff
  · exact Glob.accepts_suffix_iff

theorem accepts_pattern_fill (methodCall : MethodKind) (s : List Char) :
    Glob.accepts (fun _ => true) (likeItems (methodCall.pattern s))
      (Glob.fill 'a' (likeItems s)) = true := by
  have hfill : ∀ q, Glob.accepts (fun _ => true) q [] = true →
      Glob.accepts (fun _ => true) (likeItems s ++ q) (Glob.fill 'a' (likeItems s)) = true := by
    intro q hq
    rw [← List.append_nil (Glob.fill 'a' (likeItems s))]
    exact Glob.accepts_fill_append rfl hq
  have hstart := hfill [.many] (by decide)
  have hend := hfill [] (by decide)
  rw [List.append_nil] at hend
  rw [likeItems_pattern]
  cases methodCall
  · exact Glob.accepts_many.mpr ⟨[], _, rfl, fun _ _ => rfl, hstart⟩
  · exact hstart
  · exact Glob.accepts_many.mpr ⟨[], _, rfl, fun _ _ => rfl, hend⟩

theorem noWildcard_fill (s : List Char) : NoWildcard (Glob.fill 'a' (likeItems s)) := by
  have hfill : ∀ c ∈ Glob.fill 'a' (likeItems s), c ≠ '%' ∧ c ≠ '_' := by
    intro c hc
    obtain ⟨i, hi, rfl⟩ := List.mem_map.mp hc
    obtain ⟨d, -, rfl⟩ := List.mem_map.mp hi
    rw [likeItem]
    split_ifs with hpercent hunderscore
    · exact ⟨by decide, by decide⟩
    · exact ⟨by decide, by decide⟩
    · exact ⟨hpercent, hunderscore⟩
  exact ⟨fun hmem => (hfill _ hmem).1 rfl, fun hmem => (hfill _ hmem).2 rfl⟩

theorem NoWildcard.of_subtext (h : NoWildcard v) (hs : s <:+: v) : NoWildcard s :=
  ⟨fun hmem => h.1 (hs.mem hmem), fun hmem => h.2 (hs.mem hmem)⟩

theorem accepts_contains_of_subtext (h : Glob.fill 'a' (likeItems s) <:+: v) :
    Glob.accepts (fun _ => true) (likeItems (MethodKind.contains.pattern s)) v = true := by
  obtain ⟨u, w, rfl⟩ := h
  rw [likeItems_pattern, List.append_assoc]
  exact Glob.accepts_many.mpr ⟨u, _, rfl, fun _ _ => rfl,
    Glob.accepts_fill_append rfl Glob.accepts_many_nil⟩

theorem subtext_of_holds {methodCall : MethodKind} (h : methodCall.Holds s v) : s <:+: v := by
  cases methodCall
  · exact h
  · exact List.IsPrefix.isInfix h
  · exact List.IsSuffix.isInfix h

theorem holds_self (methodCall : MethodKind) (s : List Char) : methodCall.Holds s s := by
  cases methodCall
  · exact List.infix_refl s
  · exact List.prefix_refl s
  · exact List.suffix_refl s

theorem count_likeItems (s : List Char) :
    (likeItems s).count (.lit '\'') = s.count '\'' := by
  induction s with
  | nil => rfl
  | cons c s ih =>
    rw [likeItems] at ih ⊢
    rw [List.map_cons, List.count_cons, List.count_cons, ih]
    have hitem : (likeItem c == .lit '\'') = (c == '\'') := by
      rw [likeItem]
      split_ifs with hpercent hunderscore
      · simp [hpercent]
      · simp [hunderscore]
      · simp
    rw [hitem]

theorem count_quotes_le (methodCall : MethodKind)
    (h : Glob.accepts (fun _ => true) (likeItems (methodCall.pattern s)) v = true) :
    s.count '\'' ≤ v.count '\'' := by
  have hle := Glob.count_lit_le (c := '\'') h
  rw [likeItems_pattern] at hle
  rw [← count_likeItems s]
  cases methodCall <;> simpa using hle

end Patterns

/-! ### Methods select -/

section Methods

variable {methodCall : MethodKind} {property : EdmProperty} {s : List Char} {row : Row}

def everywhere (v : List Char) : Row := fun _ => some (.string v)

theorem selects_likeCondition {fieldName : FieldName} {pattern : List Char} :
    selects row (likeCondition fieldName pattern).makeWhereString = true ↔
      ∃ v, row fieldName = some (.string v) ∧
        Glob.accepts (fun _ => true) (likeItems pattern) v = true := by
  rw [likeCondition, EntityCondition.selects_comparable, decide_eq_true_iff]
  show sqlLike (row fieldName) (some (.string pattern)) = .true ↔ _
  rcases row fieldName with _ | (v | n | b | t)
  · simp [sqlLike]
  · simp [sqlLike]
  · simp [sqlLike]
  · simp [sqlLike]
  · simp [sqlLike]

theorem selects_iff_accepts {v : List Char} (hrow : row property.name = some (.string v)) :
    methodCall.Selects property s row ↔ property.Fits (doubleQuotes s) ∧
      Glob.accepts (fun _ => true) (likeItems (methodCall.pattern (doubleQuotes s))) v = true := by
  rw [MethodKind.Selects, visitMethodCall, readPrimitiveValue_literalText]
  have hselects : selects row (likeCondition property.name
      (methodCall.pattern (doubleQuotes s))).makeWhereString = true ↔
      Glob.accepts (fun _ => true) (likeItems (methodCall.pattern (doubleQuotes s))) v = true := by
    rw [selects_likeCondition, hrow]
    simp
  cases hread : property.valueOfString (doubleQuotes s) with
  | error e =>
    have hnot : ¬ property.Fits (doubleQuotes s) := by
      simp [EdmProperty.Fits, hread]
    refine iff_of_false ?_ fun h => hnot h.1
    rintro ⟨condition, hcondition, -⟩
    cases hcondition
  | ok read =>
    obtain ⟨hfits, rfl⟩ := valueOfString_eq_ok.mp hread
    rw [← hselects, and_iff_right hfits]
    constructor
    · rintro ⟨condition, hcondition, h⟩
      cases hcondition
      exact h
    · exact fun h => ⟨_, rfl, h⟩

/-- **The texts that a method takes literally.** -/
theorem methodKind_isLiteral_iff :
    methodCall.IsLiteral property s ↔ property.Fits s ∧ NoWildcard s ∧ '\'' ∉ s := by
  constructor
  · intro h
    have hself := (h (everywhere s) s rfl).mpr (holds_self methodCall s)
    obtain ⟨hfits, haccepts⟩ := (selects_iff_accepts rfl).mp hself
    have hquote : '\'' ∉ s := by
      have hle := count_quotes_le methodCall haccepts
      rw [count_doubleQuotes] at hle
      exact List.count_eq_zero.mp (by omega)
    rw [doubleQuotes_eq_self hquote] at hfits
    -- the text with other symbols for its wildcards is selected
    have hfill : methodCall.Selects property s (everywhere (Glob.fill 'a' (likeItems s))) := by
      rw [selects_iff_accepts rfl, doubleQuotes_eq_self hquote]
      exact ⟨hfits, accepts_pattern_fill methodCall s⟩
    have hholds := (h (everywhere (Glob.fill 'a' (likeItems s))) _ rfl).mp hfill
    exact ⟨hfits, (noWildcard_fill s).of_subtext (subtext_of_holds hholds), hquote⟩
  · rintro ⟨hfits, hwildcard, hquote⟩ row v hv
    rw [selects_iff_accepts hv, doubleQuotes_eq_self hquote, accepts_pattern methodCall hwildcard,
      and_iff_right hfits]

end Methods

/-! ### The search selects -/

section Search

variable {searchOption : SearchOption} {searchProperties : List FieldName} {row : Row}

def wordCondition (searchProperties : List FieldName) (searchText : List Char) : EntityCondition :=
  .list (searchProperties.map fun field => likeCondition field ('%' :: searchText ++ ['%'])) .or

theorem hasText_wordCondition (searchText : List Char) :
    (wordCondition searchProperties searchText).HasText := by
  refine EntityCondition.hasText_list.mpr fun c hc => ?_
  obtain ⟨field, -, rfl⟩ := List.mem_map.mp hc
  trivial

theorem selects_wordCondition (hne : searchProperties ≠ []) (searchText : List Char) :
    selects row (wordCondition searchProperties searchText).makeWhereString = true ↔
      ∃ field ∈ searchProperties, ∃ v, row field = some (.string v) ∧
        Glob.accepts (fun _ => true) (likeItems (MethodKind.contains.pattern searchText)) v =
          true := by
  have htext : ∀ c ∈ searchProperties.map fun field =>
      likeCondition field ('%' :: searchText ++ ['%']), c.HasText := by
    intro c hc
    obtain ⟨field, -, rfl⟩ := List.mem_map.mp hc
    trivial
  obtain ⟨first, hfirst⟩ := List.exists_mem_of_ne_nil _ hne
  rw [wordCondition, EntityCondition.selects_or htext, or_iff_right]
  · simp only [List.mem_map, exists_exists_and_eq_and, selects_likeCondition]
    exact exists_congr fun field => and_congr_right fun _ => and_iff_right rfl
  · intro h
    exact Bool.false_ne_true (h _ (List.mem_map_of_mem hfirst))

theorem selects_searchCondition :
    selects row (searchCondition searchOption searchProperties).makeWhereString = true ↔
      ∀ searchText ∈ getSearchOptionWords searchOption,
        selects row (wordCondition searchProperties searchText).makeWhereString = true := by
  have htext : ∀ c ∈ (getSearchOptionWords searchOption).map (wordCondition searchProperties),
      c.HasText := by
    intro c hc
    obtain ⟨searchText, -, rfl⟩ := List.mem_map.mp hc
    exact hasText_wordCondition searchText
  refine (Bool.eq_iff_iff.mp (EntityCondition.selects_and htext)).trans ?_
  simp

theorem selects_wordCondition_nil (searchText : List Char) :
    selects row (wordCondition [] searchText).makeWhereString = true := rfl

/-- **The searches that are taken literally.** -/
theorem searchOption_isLiteral_iff :
    searchOption.IsLiteral searchProperties ↔ getSearchOptionWords searchOption = [] ∨
      (searchProperties ≠ [] ∧ ∀ searchText ∈ getSearchOptionWords searchOption,
        NoWildcard searchText) := by
  constructor
  · intro h
    by_cases hwords : getSearchOptionWords searchOption = []
    · exact .inl hwords
    refine .inr ?_
    obtain ⟨first, hfirst⟩ := List.exists_mem_of_ne_nil _ hwords
    by_cases hne : searchProperties = []
    · -- without a property, every row is selected
      subst hne
      obtain ⟨field, hfield, -⟩ := (h (everywhere [])).mp
        (selects_searchCondition.mpr fun _ _ => selects_wordCondition_nil _) first hfirst
      exact absurd hfield List.not_mem_nil
    refine ⟨hne, fun searchText hmem => ?_⟩
    -- a text of all words, with other symbols for the wildcards
    obtain ⟨v, hv⟩ : ∃ v, v = (getSearchOptionWords searchOption).flatMap fun word =>
      Glob.fill 'a' (likeItems word) := ⟨_, rfl⟩
    have hsubtext : ∀ word ∈ getSearchOptionWords searchOption,
        Glob.fill 'a' (likeItems word) <:+: v := by
      intro word hword
      rw [hv, List.flatMap]
      exact List.infix_of_mem_flatten (List.mem_map_of_mem hword)
    have hnone : NoWildcard v := by
      rw [hv]
      constructor
      · intro hin
        obtain ⟨word, -, hin⟩ := List.mem_flatMap.mp hin
        exact (noWildcard_fill word).1 hin
      · intro hin
        obtain ⟨word, -, hin⟩ := List.mem_flatMap.mp hin
        exact (noWildcard_fill word).2 hin
    obtain ⟨field, hfield⟩ := List.exists_mem_of_ne_nil _ hne
    have hselects : selects (everywhere v)
        (searchCondition searchOption searchProperties).makeWhereString = true := by
      refine selects_searchCondition.mpr fun word hword => ?_
      exact (selects_wordCondition hne word).mpr
        ⟨field, hfield, v, rfl, accepts_contains_of_subtext (hsubtext word hword)⟩
    obtain ⟨_, -, w, hw, hcontains⟩ := (h (everywhere v)).mp hselects searchText hmem
    obtain rfl : v = w := Value.string.inj (Option.some.inj hw)
    exact hnone.of_subtext hcontains
  · rintro (hwords | ⟨hne, hwildcard⟩) row
    · rw [selects_searchCondition, hwords]
      exact iff_of_true (fun _ h => absurd h List.not_mem_nil)
        fun _ h => absurd h List.not_mem_nil
    · rw [selects_searchCondition]
      refine forall₂_congr fun searchText hmem => ?_
      rw [selects_wordCondition hne]
      simp only [accepts_pattern .contains (hwildcard searchText hmem)]
      exact Iff.rfl

end Search

/-- **What is taken literally**: a text by a method, if it fits the facets and has neither a
wildcard nor a quote; a search, if it has no word or a property and no wildcard. -/
theorem literal_iff (methodCall : MethodKind) (property : EdmProperty) (s : List Char)
    (searchOption : SearchOption) (searchProperties : List FieldName) :
    (methodCall.IsLiteral property s ↔ property.Fits s ∧ NoWildcard s ∧ '\'' ∉ s) ∧
    (searchOption.IsLiteral searchProperties ↔ getSearchOptionWords searchOption = [] ∨
      (searchProperties ≠ [] ∧ ∀ searchText ∈ getSearchOptionWords searchOption,
        NoWildcard searchText)) :=
  ⟨methodKind_isLiteral_iff, searchOption_isLiteral_iff⟩

def productName : EdmProperty where
  name := ['n']
  maxLength := none
  isUnicode := none

theorem not_isLiteral_wildcards :
    ¬ MethodKind.contains.IsLiteral productName ['a', '_', 'b'] ∧
      ¬ SearchOption.IsLiteral ⟨some ['5', '%'], []⟩ [['n']] := by
  rw [methodKind_isLiteral_iff, searchOption_isLiteral_iff]
  refine ⟨fun h => h.2.1.2 (by decide), ?_⟩
  rintro (hnone | ⟨-, hwildcard⟩)
  · exact absurd hnone (by decide)
  · exact (hwildcard ['5', '%'] (by decide)).1 (by decide)

end OfficeAuto.Odata
