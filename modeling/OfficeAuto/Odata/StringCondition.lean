import OfficeAuto.Logic.Matching
import OfficeAuto.Odata.SetCondition

/-!
# The text of a condition

The condition of an entity set is a text of clauses with `and` and `or` between them. As it is
read usually (`Reads`), the text is cut at ` or `, each piece at ` and `, and each clause at its
operator; a row has to be selected by every clause of one of the pieces (`IsTrue`).

`parseEntityCondition` cuts the text at one of the two only: where both occur, a clause of a piece
becomes a part of a value. `getStringCondition` of the processor takes a slash anywhere for one of
a path.

**The text is read as usual** if it has only one of the two separators and its values do not have
operators, and it is read alike by the processor if it has no slash (`parseEntityCondition_iff`).
-/

namespace OfficeAuto.Odata

open Entity Text

/-! ### Conditions of clauses -/

theorem equals_isEquality :
    ComparableOperator.equals = .equals ∨ ComparableOperator.equals = .notEqual :=
  Or.inl rfl

theorem notEqual_isEquality :
    ComparableOperator.notEqual = .equals ∨ ComparableOperator.notEqual = .notEqual :=
  Or.inr rfl

theorem isIn_ne_between : CollectionOperator.isIn ≠ .between := by decide

theorem notIn_ne_between : CollectionOperator.notIn ≠ .between := by decide

def membership (key : FieldName) (operator : CollectionOperator) (hop : operator ≠ .between)
    (values : List (Option Value)) : EntityCondition :=
  .collection ⟨key, operator, values, fun h => absurd h hop⟩

/-! ### The condition of the processor -/

/-- The dynamic view of the processor: the alias of a path, and the property of a field of it. -/
structure DynamicViewHolder where
  addRelAlias : List Char → Except ConditionException (List Char)
  addFilterProperty : List Char → FieldName → Except ConditionException FieldName

def condition : List (List Char) → Except ConditionException (List Char × List Char)
  | key :: valueStr :: _ => .ok (key, valueStr)
  | _ => .error .indexOutOfBounds

def conValue (request : RequestAttributes) (valueStr : List Char) :
    Except ConditionException (Option (List Char)) := do
  let conValue ← stringVariable request (trim valueStr)
  return if conValue = some "null".toList then none else conValue

def relCondition (dynamicViewHolder : DynamicViewHolder) (request : RequestAttributes)
    (relString : List Char) : Except ConditionException (Option EntityCondition) :=
  if '/' ∈ relString then do
    let r := relString.take (lastIndexOf '/' relString).toNat
    let lastRelEntityName ← dynamicViewHolder.addRelAlias r
    let fieldCondition := relString.drop ((lastIndexOf '/' relString).toNat + 1)
    if "!=".toList <:+: fieldCondition then do
      let (key, valueStr) ← condition (splitSeq "!=".toList fieldCondition)
      let v ← conValue request valueStr
      let filterProperty ← dynamicViewHolder.addFilterProperty lastRelEntityName (trim key)
      pure (some (comparison filterProperty .notEqual notEqual_isEquality v))
    else if '=' ∈ fieldCondition then do
      let (key, valueStr) ← condition (split '=' fieldCondition)
      let v ← conValue request valueStr
      let filterProperty ← dynamicViewHolder.addFilterProperty lastRelEntityName (trim key)
      pure (some (comparison filterProperty .equals equals_isEquality v))
    else if " in ".toList <:+: fieldCondition then
      if " not in ".toList <:+: fieldCondition then do
        let (key, valueStr) ← condition (splitSeq " not in ".toList fieldCondition)
        let values ← collectionValues (trim valueStr)
        let filterProperty ← dynamicViewHolder.addFilterProperty lastRelEntityName key
        pure (some (membership filterProperty .notIn notIn_ne_between values))
      else do
        let (key, valueStr) ← condition (splitSeq " in ".toList fieldCondition)
        let values ← collectionValues (trim valueStr)
        let filterProperty ← dynamicViewHolder.addFilterProperty lastRelEntityName key
        pure (some (membership filterProperty .isIn isIn_ne_between values))
    else pure none
  else (parseEntityCondition request relString).map some

def separator (conditionStr : List Char) : List Char :=
  if " or ".toList <:+: conditionStr then " or ".toList else " and ".toList

def conditionsOperator (conditionStr : List Char) : EntityJoinOperator :=
  if " or ".toList <:+: conditionStr then .or else .and

/-- **`getStringCondition`**, without the case of null. -/
def getStringCondition (dynamicViewHolder : DynamicViewHolder) (request : RequestAttributes)
    (conditionStr : List Char) : Except ConditionException (Option EntityCondition) :=
  if conditionStr ≠ [] ∧ '/' ∈ conditionStr then do
    let conditions ← (splitSeq (separator conditionStr) conditionStr).mapM
      (relCondition dynamicViewHolder request)
    match conditions.reduceOption with
    | [] => pure none
    | entitySetConditionList =>
      pure (some (.list entitySetConditionList (conditionsOperator conditionStr)))
  else (parseEntityCondition request conditionStr).map some

/-! ### Clauses -/

inductive ClauseOperator
  | equals
  | notEqual
  | isIn
  | notIn
  deriving DecidableEq, Repr

def ClauseOperator.text : ClauseOperator → List Char
  | .equals => ['=']
  | .notEqual => ['!', '=']
  | .isIn => [' ', 'i', 'n', ' ']
  | .notIn => [' ', 'n', 'o', 't', ' ', 'i', 'n', ' ']

/-- A clause: a field, its operator, and the text after it. -/
structure Clause where
  field : FieldName
  operator : ClauseOperator
  valueStr : List Char
  deriving DecidableEq, Repr

def IsFieldName (name : FieldName) : Prop :=
  name ≠ [] ∧ ∀ c ∈ name, ' ' < c ∧ c ≠ '=' ∧ c ≠ '!' ∧ c ≠ '/'

namespace Clause

variable (clause : Clause)

def items : List (List Char) :=
  tokens ',' ((trim clause.valueStr).tail.dropLast)

def HasValue : Prop :=
  match clause.operator with
  | .equals | .notEqual => trim clause.valueStr ≠ []
  | .isIn | .notIn =>
    ∃ inner, trim clause.valueStr = '(' :: inner ++ [')'] ∧ tokens ',' inner ≠ []

/-- **A text is a clause.** Blanks may stand before the operator, and around the value. -/
def IsRead (text : List Char) : Prop :=
  IsFieldName clause.field ∧ clause.HasValue ∧ ∃ blanks, (∀ c ∈ blanks, c ≤ ' ') ∧
    text = clause.field ++ blanks ++ (clause.operator.text ++ clause.valueStr)

/-- The condition of a clause: `null` is null, and a variable is what the request has for it. -/
def toCondition (request : RequestAttributes) : Except ConditionException EntityCondition :=
  match clause.operator with
  | .equals => (realValue request (trim clause.valueStr)).map
      (comparison clause.field .equals equals_isEquality)
  | .notEqual => (realValue request (trim clause.valueStr)).map
      (comparison clause.field .notEqual notEqual_isEquality)
  | .isIn => .ok (membership clause.field .isIn isIn_ne_between
      (clause.items.map fun v => some (.string v)))
  | .notIn => .ok (membership clause.field .notIn notIn_ne_between
      (clause.items.map fun v => some (.string v)))

/-- What a clause says of a row. Null is neither unequal to a value nor outside of a list. -/
def IsTrue (request : RequestAttributes) (row : Row) : Prop :=
  match clause.operator with
  | .equals => ∃ v, realValue request (trim clause.valueStr) = .ok v ∧
      row clause.field = v.map .string
  | .notEqual => ∃ v, realValue request (trim clause.valueStr) = .ok v ∧
      match v with
      | none => row clause.field ≠ none
      | some s => ∃ s', row clause.field = some (.string s') ∧ s' ≠ s
  | .isIn => ∃ s ∈ clause.items, row clause.field = some (.string s)
  | .notIn => ∃ s, row clause.field = some (.string s) ∧ s ∉ clause.items

def IsPlain : Prop :=
  match clause.operator with
  | .equals => '=' ∉ clause.valueStr
  | .notEqual => ¬ "!=".toList <:+: clause.valueStr
  | .isIn => '=' ∉ clause.valueStr ∧ ¬ " in ".toList <:+: clause.valueStr
  | .notIn => '=' ∉ clause.valueStr ∧ ¬ " not in ".toList <:+: clause.valueStr

end Clause

/-! ### Texts of clauses -/

def pieces (separator s : List Char) : List (List Char) := splitOnSeq separator 0 s

/-- **The usual reading of a text**: clauses that are joined by `and`, in groups that are joined by
`or`. -/
def Reads (conditionStr : List Char) (groups : List (List Clause)) : Prop :=
  List.Forall₂ (fun group clauses =>
    List.Forall₂ (fun piece (clause : Clause) => clause.IsRead (trim piece))
      (pieces " and ".toList group) clauses)
    (pieces " or ".toList conditionStr) groups

def IsTrue (request : RequestAttributes) (row : Row) (groups : List (List Clause)) : Prop :=
  ∃ clauses ∈ groups, ∀ clause ∈ clauses, clause.IsTrue request row

def groupCondition (request : RequestAttributes) :
    List Clause → Except ConditionException EntityCondition
  | [clause] => clause.toCondition request
  | clauses => (clauses.mapM (Clause.toCondition · request)).map (.list · .and)

def groupsCondition (request : RequestAttributes) :
    List (List Clause) → Except ConditionException EntityCondition
  | [clauses] => (clauses.mapM (Clause.toCondition · request)).map (.list · .and)
  | groups => (groups.mapM (groupCondition request)).map (.list · .or)

def IsUniform (groups : List (List Clause)) : Prop :=
  groups.length = 1 ∨ ∀ clauses ∈ groups, clauses.length = 1

/-! ### Operators in a text -/

section Texts

variable {sep s u v : List Char}

theorem subtext_of_append_left {c : Char} (hu : c ∉ u) (h : c :: sep <:+: u ++ s) :
    c :: sep <:+: s := by
  induction u with
  | nil => exact h
  | cons x u ih =>
    obtain ⟨hx, hu⟩ := not_or.mp (mt List.mem_cons.mpr hu)
    refine ih hu ((List.infix_cons_iff.mp h).resolve_left fun hpre => hx ?_)
    exact (List.cons_prefix_cons.mp hpre).1

theorem subtext_of_append_right {c : Char} (hu : c ∉ u) (h : sep ++ [c] <:+: s ++ u) :
    sep ++ [c] <:+: s := by
  have hreverse := List.reverse_infix.mpr h
  rw [List.reverse_append, List.reverse_append, List.reverse_singleton,
    List.singleton_append] at hreverse
  have hleft := subtext_of_append_left (by simpa using hu) hreverse
  rw [← List.reverse_infix, List.reverse_append, List.reverse_singleton, List.singleton_append]
  exact hleft

theorem keyValue_splitSeq (hsep : sep ≠ []) (hu : ¬ sep <:+: u ++ sep.dropLast)
    (hv : ¬ sep <:+: v) (hne : v ≠ []) :
    keyValue (splitSeq sep (u ++ (sep ++ v))) = .ok (trim u, trim v) := by
  have hin : sep <:+: u ++ (sep ++ v) := ⟨u, v, by rw [List.append_assoc]⟩
  rw [splitSeq, if_pos hin, splitOnSeq_append hsep hu, splitOnSeq_of_not_subtext hv,
    List.rdropWhile_eq_self_iff.mpr]
  · rfl
  · simpa using hne

theorem trim_name {name blanks : List Char} (hname : IsFieldName name)
    (hblanks : ∀ c ∈ blanks, c ≤ ' ') : trim (name ++ blanks) = name := by
  have hnot : ∀ c ∈ name, ¬ c ≤ ' ' := fun c hc => Char.not_le.mpr (hname.2 c hc).1
  obtain ⟨c, name, rfl⟩ := List.exists_cons_of_ne_nil hname.1
  have hdrop : List.dropWhile (fun c => decide (c ≤ ' ')) (c :: name ++ blanks) =
      c :: name ++ blanks := by
    rw [List.cons_append, List.dropWhile_cons_of_neg]
    simpa using hnot c List.mem_cons_self
  have hreverse : List.dropWhile (fun c => decide (c ≤ ' ')) blanks.reverse = [] :=
    List.dropWhile_eq_nil_iff.mpr fun x hx => by simpa using hblanks x (List.mem_reverse.mp hx)
  rw [trim, hdrop, List.rdropWhile, List.reverse_append, List.dropWhile_append, hreverse,
    List.isEmpty_nil, if_pos rfl]
  have hself : List.dropWhile (fun c => decide (c ≤ ' ')) (c :: name).reverse =
      (c :: name).reverse := by
    rw [List.dropWhile_eq_self_iff]
    intro hlen
    simpa using hnot _ (List.mem_reverse.mp (List.getElem_mem hlen))
  rw [hself, List.reverse_reverse]

theorem not_subtext_notEqual {name blanks : List Char} (hname : IsFieldName name)
    (hblanks : ∀ c ∈ blanks, c ≤ ' ') :
    ¬ ['!', '='] <:+: name ++ blanks ++ ['!'] := by
  intro h
  have hmem : '=' ∈ name ++ blanks ++ ['!'] := h.subset (by simp)
  rcases List.mem_append.mp hmem with hmem | hmem
  · rcases List.mem_append.mp hmem with hmem | hmem
    · exact (hname.2 _ hmem).2.1 rfl
    · exact absurd (hblanks _ hmem) (by decide)
  · exact absurd hmem (by decide)

theorem not_subtext_notIn {name blanks : List Char} (hname : IsFieldName name)
    (hblanks : ∀ c ∈ blanks, c ≤ ' ') :
    ¬ [' ', 'n', 'o', 't', ' ', 'i', 'n', ' '] <:+:
      name ++ blanks ++ [' ', 'n', 'o', 't', ' ', 'i', 'n'] := by
  intro h
  have hblank : ' ' ∉ name := fun hmem => absurd (hname.2 _ hmem).1 (by decide)
  rw [List.append_assoc] at h
  have htail := subtext_of_append_left hblank h
  have hsplit : blanks ++ [' ', 'n', 'o', 't', ' ', 'i', 'n'] =
      (blanks ++ [' ', 'n', 'o', 't', ' ']) ++ ['i', 'n'] := by
    rw [List.append_assoc]
    rfl
  rw [hsplit] at htail
  have hshort : [' ', 'n', 'o', 't', ' ', 'i', 'n'] ++ [' '] <:+:
      blanks ++ [' ', 'n', 'o', 't', ' '] := subtext_of_append_right (by decide) htail
  have hmem : 'i' ∈ blanks ++ [' ', 'n', 'o', 't', ' '] := hshort.subset (by simp)
  rcases List.mem_append.mp hmem with hmem | hmem
  · exact absurd (hblanks _ hmem) (by decide)
  · exact absurd hmem (by decide)

theorem not_subtext_in {name blanks : List Char} (hname : IsFieldName name)
    (hblanks : ∀ c ∈ blanks, c ≤ ' ') :
    ¬ [' ', 'i', 'n', ' '] <:+: name ++ blanks ++ [' ', 'i', 'n'] := by
  intro h
  have hblank : ' ' ∉ name := fun hmem => absurd (hname.2 _ hmem).1 (by decide)
  rw [List.append_assoc] at h
  have htail := subtext_of_append_left hblank h
  have hsplit : blanks ++ [' ', 'i', 'n'] = (blanks ++ [' ']) ++ ['i', 'n'] := by
    rw [List.append_assoc]
    rfl
  rw [hsplit] at htail
  have hshort : [' ', 'i', 'n'] ++ [' '] <:+: blanks ++ [' '] :=
    subtext_of_append_right (by decide) htail
  have hmem : 'i' ∈ blanks ++ [' '] := hshort.subset (by simp)
  rcases List.mem_append.mp hmem with hmem | hmem
  · exact absurd (hblanks _ hmem) (by decide)
  · exact absurd hmem (by decide)

end Texts

/-! ### Clauses are read -/

section Clauses

variable {request : RequestAttributes} {clause : Clause} {text : List Char}

theorem not_mem_text {name blanks operator valueStr : List Char} (hname : IsFieldName name)
    (hblanks : ∀ c ∈ blanks, c ≤ ' ') (hoperator : '=' ∉ operator) (hvalue : '=' ∉ valueStr) :
    '=' ∉ name ++ blanks ++ (operator ++ valueStr) := by
  simp only [List.mem_append, not_or]
  exact ⟨⟨fun hmem => (hname.2 _ hmem).2.1 rfl, fun hmem => absurd (hblanks _ hmem) (by decide)⟩,
    hoperator, hvalue⟩

theorem parseExpression_equals (hoperator : clause.operator = .equals) (hread : clause.IsRead text)
    (hplain : clause.IsPlain) :
    parseExpression request text = (clause.toCondition request).map some := by
  obtain ⟨hname, hvalue, blanks, hblanks, rfl⟩ := hread
  obtain ⟨name, _, valueStr⟩ := clause
  subst hoperator
  have heq : '=' ∉ valueStr := hplain
  have hbefore : '=' ∉ name ++ blanks := by
    simp only [List.mem_append, not_or]
    exact ⟨fun hmem => (hname.2 _ hmem).2.1 rfl, fun hmem => absurd (hblanks _ hmem) (by decide)⟩
  have hne : valueStr ≠ [] := by
    rintro rfl
    exact hvalue rfl
  -- the sign before the only equals sign is no exclamation mark
  have hnot : ¬ "!=".toList <:+: name ++ blanks ++ (['='] ++ valueStr) := by
    rintro ⟨a, b, hab⟩
    have hsplit : (a ++ ['!']) ++ '=' :: b = (name ++ blanks) ++ '=' :: valueStr := by
      rw [List.append_assoc, List.singleton_append]
      exact (List.append_assoc _ _ _).symm.trans hab
    have hlast := ((List.append_cons_inj_of_notMem hbefore heq).mp hsplit.symm).1
    have hmem : '!' ∈ name ++ blanks := hlast ▸ (by simp)
    rcases List.mem_append.mp hmem with hmem | hmem
    · exact (hname.2 _ hmem).2.2.1 rfl
    · exact absurd (hblanks _ hmem) (by decide)
  have hkey : keyValue (split '=' (name ++ blanks ++ (['='] ++ valueStr))) =
      .ok (name, trim valueStr) := by
    rw [List.singleton_append, split_pair hbefore heq hne, keyValue, trim_name hname hblanks]
  show parseExpression request (name ++ blanks ++ (['='] ++ valueStr)) = _
  rw [parseExpression, if_neg hnot, if_pos (by simp), hkey]
  show (realValue request (trim valueStr) >>= _) = _
  rw [Clause.toCondition]
  cases realValue request (trim valueStr) <;> rfl

theorem parseExpression_notEqual (hoperator : clause.operator = .notEqual)
    (hread : clause.IsRead text) (hplain : clause.IsPlain) :
    parseExpression request text = (clause.toCondition request).map some := by
  obtain ⟨hname, hvalue, blanks, hblanks, rfl⟩ := hread
  obtain ⟨name, _, valueStr⟩ := clause
  subst hoperator
  have hne : valueStr ≠ [] := by
    rintro rfl
    exact hvalue rfl
  have hkey : keyValue (splitSeq ['!', '='] (name ++ blanks ++ (['!', '='] ++ valueStr))) =
      .ok (trim (name ++ blanks), trim valueStr) :=
    keyValue_splitSeq (by simp) (not_subtext_notEqual hname hblanks) hplain hne
  show parseExpression request (name ++ blanks ++ (['!', '='] ++ valueStr)) = _
  rw [parseExpression, if_pos ⟨name ++ blanks, valueStr, List.append_assoc _ _ _⟩]
  show (keyValue (splitSeq ['!', '='] _) >>= _) = _
  rw [hkey, trim_name hname hblanks]
  show (realValue request (trim valueStr) >>= _) = _
  rw [Clause.toCondition]
  cases realValue request (trim valueStr) <;> rfl

theorem collectionValues_items (h : ∃ inner, trim clause.valueStr = '(' :: inner ++ [')'] ∧
    tokens ',' inner ≠ []) :
    collectionValues (trim clause.valueStr) =
      .ok (clause.items.map fun v => some (.string v)) := by
  obtain ⟨inner, htrim, htokens⟩ := h
  have hitems : clause.items = tokens ',' inner := by
    rw [Clause.items, htrim]
    simp
  have hsubstring : substring ('(' :: inner ++ [')']) 1 (('(' :: inner ++ [')']).length - 1) =
      some inner := by
    have hlength : ('(' :: inner ++ [')']).length = inner.length + 2 := by simp
    have hbounds : (0 : ℤ) ≤ 1 ∧ (1 : ℤ) ≤ ('(' :: inner ++ [')']).length - 1 ∧
        (('(' :: inner ++ [')']).length : ℤ) - 1 ≤ ('(' :: inner ++ [')']).length := by omega
    have htake : ((('(' :: inner ++ [')']).length : ℤ) - 1).toNat = inner.length + 1 := by omega
    rw [substring, if_pos hbounds, htake]
    simp
  rw [collectionValues, htrim, hsubstring, hitems]
  cases htok : tokens ',' inner with
  | nil => exact absurd htok htokens
  | cons v vs => simp only [htok]

theorem valueStr_ne_nil {valueStr inner : List Char} (h : trim valueStr = '(' :: inner ++ [')']) :
    valueStr ≠ [] := by
  rintro rfl
  cases h

theorem parseExpression_notIn (hoperator : clause.operator = .notIn) (hread : clause.IsRead text)
    (hplain : clause.IsPlain) :
    parseExpression request text = (clause.toCondition request).map some := by
  obtain ⟨hname, hvalue, blanks, hblanks, rfl⟩ := hread
  have hvalues : collectionValues (trim clause.valueStr) =
      .ok (clause.items.map fun v => some (.string v)) := by
    rw [Clause.HasValue, hoperator] at hvalue
    exact collectionValues_items hvalue
  obtain ⟨name, _, valueStr⟩ := clause
  subst hoperator
  obtain ⟨heq, hnotIn⟩ := hplain
  obtain ⟨inner, htrim, -⟩ := hvalue
  have hno := not_mem_text hname hblanks
    (show '=' ∉ [' ', 'n', 'o', 't', ' ', 'i', 'n', ' '] by decide) heq
  have hkey : keyValue (splitSeq [' ', 'n', 'o', 't', ' ', 'i', 'n', ' ']
      (name ++ blanks ++ ([' ', 'n', 'o', 't', ' ', 'i', 'n', ' '] ++ valueStr))) =
      .ok (trim (name ++ blanks), trim valueStr) :=
    keyValue_splitSeq (by simp) (not_subtext_notIn hname hblanks) hnotIn (valueStr_ne_nil htrim)
  show parseExpression request
    (name ++ blanks ++ ([' ', 'n', 'o', 't', ' ', 'i', 'n', ' '] ++ valueStr)) = _
  rw [parseExpression, if_neg (fun h => hno (h.subset (by simp))), if_neg hno,
    if_pos ⟨name ++ blanks, valueStr, List.append_assoc _ _ _⟩]
  show (keyValue (splitSeq [' ', 'n', 'o', 't', ' ', 'i', 'n', ' '] _) >>= _) = _
  rw [hkey, trim_name hname hblanks]
  show (collectionValues (trim valueStr) >>= _) = _
  rw [hvalues]
  rfl

theorem not_subtext_notIn_of_in {name blanks valueStr inner : List Char} (hname : IsFieldName name)
    (hblanks : ∀ c ∈ blanks, c ≤ ' ') (hin : ¬ [' ', 'i', 'n', ' '] <:+: valueStr)
    (htrim : trim valueStr = '(' :: inner ++ [')']) :
    ¬ [' ', 'n', 'o', 't', ' ', 'i', 'n', ' '] <:+:
      name ++ blanks ++ ([' ', 'i', 'n', ' '] ++ valueStr) := by
  intro h
  have hblank : ' ' ∉ name := fun hmem => absurd (hname.2 _ hmem).1 (by decide)
  rw [List.append_assoc] at h
  have htail := subtext_of_append_left hblank h
  -- no blank is followed by the first letter
  have hpeel : ∀ w : List Char, (∀ c ∈ w, c ≤ ' ') → [' ', 'n', 'o', 't', ' ', 'i', 'n', ' '] <:+:
      w ++ 'i' :: 'n' :: ' ' :: valueStr → [' ', 'n', 'o', 't', ' ', 'i', 'n', ' '] <:+:
      'i' :: 'n' :: ' ' :: valueStr := by
    intro w hw hsub
    induction w with
    | nil => exact hsub
    | cons c w ih =>
      refine ih (fun d hd => hw d (List.mem_cons_of_mem _ hd))
        ((List.infix_cons_iff.mp hsub).resolve_left fun hpre => ?_)
      have hnext := (List.cons_prefix_cons.mp hpre).2
      cases w with
      | nil => exact absurd (List.cons_prefix_cons.mp hnext).1 (by decide)
      | cons d w =>
        have hd := (List.cons_prefix_cons.mp hnext).1
        have hle := hw d (by simp)
        rw [← hd] at hle
        exact absurd hle (by decide)
  have hassoc : blanks ++ ([' ', 'i', 'n', ' '] ++ valueStr) =
      (blanks ++ [' ']) ++ 'i' :: 'n' :: ' ' :: valueStr := by simp
  rw [hassoc] at htail
  have hafter := hpeel _ (by
    intro c hc
    rcases List.mem_append.mp hc with hc | hc
    · exact hblanks c hc
    · exact List.mem_singleton.mp hc ▸ Char.le_refl ' ') htail
  have hvalue : [' ', 'n', 'o', 't', ' ', 'i', 'n', ' '] <:+: ' ' :: valueStr :=
    subtext_of_append_left (show ' ' ∉ ['i', 'n'] by decide) hafter
  rcases List.infix_cons_iff.mp hvalue with hpre | hsub
  · obtain ⟨rest, rfl⟩ := (List.cons_prefix_cons.mp hpre).2
    have hleft : trim (['n', 'o', 't', ' ', 'i', 'n', ' '] ++ rest) <+:
        ['n', 'o', 't', ' ', 'i', 'n', ' '] ++ rest := by
      rw [trim, List.cons_append, List.dropWhile_cons_of_neg (by decide)]
      exact List.rdropWhile_prefix _ _
    rw [htrim] at hleft
    exact absurd (List.cons_prefix_cons.mp hleft).1 (by decide)
  · exact hin ((show [' ', 'i', 'n', ' '] <:+: [' ', 'n', 'o', 't', ' ', 'i', 'n', ' '] by
      decide).trans hsub)

theorem parseExpression_isIn (hoperator : clause.operator = .isIn) (hread : clause.IsRead text)
    (hplain : clause.IsPlain) :
    parseExpression request text = (clause.toCondition request).map some := by
  obtain ⟨hname, hvalue, blanks, hblanks, rfl⟩ := hread
  have hvalues : collectionValues (trim clause.valueStr) =
      .ok (clause.items.map fun v => some (.string v)) := by
    rw [Clause.HasValue, hoperator] at hvalue
    exact collectionValues_items hvalue
  obtain ⟨name, _, valueStr⟩ := clause
  subst hoperator
  obtain ⟨heq, hin⟩ := hplain
  obtain ⟨inner, htrim, -⟩ := hvalue
  have hno := not_mem_text hname hblanks (show '=' ∉ [' ', 'i', 'n', ' '] by decide) heq
  have hnotIn : ¬ " not in ".toList <:+: name ++ blanks ++ ([' ', 'i', 'n', ' '] ++ valueStr) :=
    not_subtext_notIn_of_in hname hblanks hin htrim
  have hkey : keyValue (splitSeq [' ', 'i', 'n', ' ']
      (name ++ blanks ++ ([' ', 'i', 'n', ' '] ++ valueStr))) =
      .ok (trim (name ++ blanks), trim valueStr) :=
    keyValue_splitSeq (by simp) (not_subtext_in hname hblanks) hin (valueStr_ne_nil htrim)
  show parseExpression request (name ++ blanks ++ ([' ', 'i', 'n', ' '] ++ valueStr)) = _
  rw [parseExpression, if_neg (fun h => hno (h.subset (by simp))), if_neg hno,
    if_neg hnotIn,
    if_pos ⟨name ++ blanks, valueStr, List.append_assoc _ _ _⟩]
  show (keyValue (splitSeq [' ', 'i', 'n', ' '] _) >>= _) = _
  rw [hkey, trim_name hname hblanks]
  show (collectionValues (trim valueStr) >>= _) = _
  rw [hvalues]
  rfl

/-- **A plain clause is read as it is.** -/
theorem parseExpression_clause (hread : clause.IsRead text) (hplain : clause.IsPlain) :
    parseExpression request text = (clause.toCondition request).map some := by
  cases hoperator : clause.operator with
  | equals => exact parseExpression_equals hoperator hread hplain
  | notEqual => exact parseExpression_notEqual hoperator hread hplain
  | isIn => exact parseExpression_isIn hoperator hread hplain
  | notIn => exact parseExpression_notIn hoperator hread hplain

theorem piece_ne_nil {piece : List Char} (hread : clause.IsRead (trim piece)) : piece ≠ [] := by
  rintro rfl
  obtain ⟨hname, -, blanks, -, htext⟩ := hread
  have hnil : clause.field ++ blanks ++ (clause.operator.text ++ clause.valueStr) = [] :=
    htext.symm.trans rfl
  exact hname.1 (List.append_eq_nil_iff.mp (List.append_eq_nil_iff.mp hnil).1).1

end Clauses

/-! ### Texts are read -/

section Groups

variable {request : RequestAttributes} {conditionStr group : List Char} {clauses : List Clause}
  {groups : List (List Clause)}

theorem pieces_eq_of_length {separator s : List Char} (hne : separator ≠ [])
    (h : (pieces separator s).length = 1) :
    ¬ separator <:+: s ∧ pieces separator s = [s] := by
  have hnot : ¬ separator <:+: s := by
    intro hin
    have htwo := two_le_length_splitOnSeq hin hne
    rw [pieces] at h
    omega
  exact ⟨hnot, splitOnSeq_of_not_subtext hnot⟩

theorem pieces_ne_nil (h : List.Forall₂ (fun piece (clause : Clause) => clause.IsRead (trim piece))
    (pieces " and ".toList group) clauses) : ∀ p ∈ pieces " and ".toList group, p ≠ [] := by
  intro p hp
  obtain ⟨clause, -, hread⟩ := h.exists_left hp
  exact piece_ne_nil hread

theorem group_ne_nil (h : List.Forall₂ (fun piece (clause : Clause) => clause.IsRead (trim piece))
    (pieces " and ".toList group) clauses) : group ≠ [] := by
  rintro rfl
  exact pieces_ne_nil h [] List.mem_cons_self rfl

theorem isRead_of_length
    (h : List.Forall₂ (fun piece (clause : Clause) => clause.IsRead (trim piece))
      (pieces " and ".toList group) clauses) (hlength : clauses.length = 1) :
    ∃ clause, clauses = [clause] ∧ clause.IsRead (trim group) := by
  obtain ⟨-, hpieces⟩ := pieces_eq_of_length (by decide) (h.length_eq.trans hlength)
  rw [hpieces] at h
  obtain ⟨clause, rest, hread, hrest, rfl⟩ := List.forall₂_cons_left_iff.mp h
  rw [List.forall₂_nil_left_iff.mp hrest]
  exact ⟨clause, rfl, hread⟩

theorem or_of_length (hreads : Reads conditionStr groups) (hone : groups.length ≠ 1) :
    " or ".toList <:+: conditionStr := by
  by_contra hnot
  refine hone (hreads.length_eq.symm.trans ?_)
  rw [pieces, splitOnSeq_of_not_subtext hnot]
  rfl

theorem parseEntityCondition_eq (request : RequestAttributes) (conditionStr : List Char) :
    parseEntityCondition request conditionStr =
      ((expressions (separator conditionStr) conditionStr).mapM (parseExpression request)).map
        fun conditions => .list conditions.reduceOption (conditionsOperator conditionStr) := by
  rw [parseEntityCondition, separator, conditionsOperator]
  split_ifs
  · cases (expressions " or ".toList conditionStr).mapM (parseExpression request) <;> rfl
  · cases (expressions " and ".toList conditionStr).mapM (parseExpression request) <;> rfl

theorem forall₂_flatten {R : List Char → Clause → Prop} {texts : List (List Char)}
    (h : List.Forall₂ (fun text clauses => ∃ clause, clauses = [clause] ∧ R text clause) texts
      groups) : List.Forall₂ R texts groups.flatten := by
  induction h with
  | nil => exact .nil
  | cons hclause _ ih =>
    obtain ⟨clause, rfl, hR⟩ := hclause
    rw [List.flatten_cons, List.singleton_append]
    exact .cons hR ih

/-- **A uniform text is cut into its clauses.** -/
theorem reads_flatten (hreads : Reads conditionStr groups) (huniform : IsUniform groups) :
    List.Forall₂ (fun piece (clause : Clause) => clause.IsRead (trim piece))
      (splitSeq (separator conditionStr) conditionStr) groups.flatten := by
  by_cases hone : groups.length = 1
  · obtain ⟨clauses, rfl⟩ := List.length_eq_one_iff.mp hone
    obtain ⟨hnot, hpieces⟩ := pieces_eq_of_length (by decide) hreads.length_eq
    rw [Reads, hpieces, List.forall₂_cons] at hreads
    rw [separator, if_neg hnot, splitSeq_eq (pieces_ne_nil hreads.1), List.flatten_singleton]
    exact hreads.1
  · have hlength := huniform.resolve_left hone
    have hne : ∀ p ∈ splitOnSeq " or ".toList 0 conditionStr, p ≠ [] := by
      intro p hp
      obtain ⟨clauses, -, hread⟩ := List.Forall₂.exists_left hreads hp
      exact group_ne_nil hread
    rw [separator, if_pos (or_of_length hreads hone), splitSeq_eq hne]
    refine forall₂_flatten (List.Forall₂.flip (List.Forall₂.imp_mem
      (fun clauses hmem group hread => ?_) (List.Forall₂.flip hreads)))
    exact isRead_of_length hread (hlength clauses hmem)

theorem groupCondition_of_length (h : clauses.length ≠ 1) : groupCondition request clauses =
    (clauses.mapM (Clause.toCondition · request)).map (.list · .and) := by
  match clauses with
  | [] => rfl
  | [_] => exact absurd rfl h
  | _ :: _ :: _ => rfl

theorem groupsCondition_of_length (h : groups.length ≠ 1) : groupsCondition request groups =
    (groups.mapM (groupCondition request)).map (.list · .or) := by
  match groups with
  | [] => rfl
  | [_] => exact absurd rfl h
  | _ :: _ :: _ => rfl

theorem mapM_groupCondition (h : ∀ clauses ∈ groups, clauses.length = 1) :
    groups.mapM (groupCondition request) =
      groups.flatten.mapM (Clause.toCondition · request) := by
  induction groups with
  | nil => rfl
  | cons clauses groups ih =>
    obtain ⟨hlength, hrest⟩ := List.forall_mem_cons.mp h
    obtain ⟨clause, rfl⟩ := List.length_eq_one_iff.mp hlength
    rw [List.flatten_cons, List.singleton_append, List.mapM_cons, List.mapM_cons, ih hrest]
    rfl

theorem groupsCondition_flatten (hreads : Reads conditionStr groups)
    (huniform : IsUniform groups) :
    groupsCondition request groups =
      (groups.flatten.mapM (Clause.toCondition · request)).map
        (.list · (conditionsOperator conditionStr)) := by
  by_cases hone : groups.length = 1
  · obtain ⟨clauses, rfl⟩ := List.length_eq_one_iff.mp hone
    obtain ⟨hnot, -⟩ := pieces_eq_of_length (by decide) hreads.length_eq
    rw [conditionsOperator, if_neg hnot, List.flatten_singleton]
    rfl
  · rw [groupsCondition_of_length hone, mapM_groupCondition (huniform.resolve_left hone),
      conditionsOperator, if_pos (or_of_length hreads hone)]

theorem mapM_parseExpression {texts : List (List Char)}
    (h : List.Forall₂ (fun text (clause : Clause) => clause.IsRead text) texts clauses)
    (hplain : ∀ clause ∈ clauses, clause.IsPlain) :
    texts.mapM (parseExpression request) =
      (clauses.mapM (Clause.toCondition · request)).map (List.map some) := by
  rw [← Except.mapM_map]
  refine Except.mapM_congr ?_
  refine List.Forall₂.flip (List.Forall₂.imp_mem (fun clause hmem text hread => ?_) h.flip)
  exact parseExpression_clause hread (hplain clause hmem)

theorem reduceOption_map_some (cs : List EntityCondition) : (cs.map some).reduceOption = cs := by
  rw [List.reduceOption, List.filterMap_map]
  exact List.filterMap_some

/-- **Plain clauses with one separator are read.** -/
theorem parse_of_isUniform (hreads : Reads conditionStr groups) (huniform : IsUniform groups)
    (hplain : ∀ clause ∈ groups.flatten, clause.IsPlain) :
    parseEntityCondition request conditionStr = groupsCondition request groups := by
  rw [parseEntityCondition_eq, groupsCondition_flatten hreads huniform, expressions,
    mapM_parseExpression (List.forall₂_map_left_iff.mpr (reads_flatten hreads huniform)) hplain]
  cases groups.flatten.mapM (Clause.toCondition · request) with
  | error e => rfl
  | ok cs =>
    show Except.ok (EntityCondition.list (cs.map some).reduceOption _) = _
    rw [reduceOption_map_some]
    rfl

end Groups

/-! ### What is selected -/

section Selected

variable {request : RequestAttributes} {row : Row} {clause : Clause} {c : EntityCondition}

theorem compareTo_string_ne {u : Value} {s : List Char} :
    (∃ r, u.compareTo (.string s) = some r ∧ r ≠ .eq) ↔ ∃ s', u = .string s' ∧ s' ≠ s := by
  constructor
  · rintro ⟨r, hr, hne⟩
    cases u with
    | string s' =>
      refine ⟨s', rfl, ?_⟩
      rintro rfl
      rw [Value.compareTo_self] at hr
      exact hne (Option.some.inj hr).symm
    | long n => cases hr
    | bigDecimal b => cases hr
    | timestamp t => cases hr
  · rintro ⟨s', rfl, hne⟩
    cases h : (Value.string s').compareTo (.string s) with
    | none => cases h
    | some r =>
      refine ⟨r, rfl, ?_⟩
      rintro rfl
      exact hne (Value.string.inj (compareTo_string.mp h))

theorem selects_comparison_notEqual {key : FieldName} {v : Option (List Char)}
    {hop : ComparableOperator.notEqual = .equals ∨ ComparableOperator.notEqual = .notEqual} :
    selects row (comparison key .notEqual hop v).makeWhereString = true ↔
      match v with
      | none => row key ≠ none
      | some s => ∃ s', row key = some (.string s') ∧ s' ≠ s := by
  rw [comparison, EntityCondition.selects_comparable, decide_eq_true_iff]
  cases v with
  | none => cases hrow : row key <;> simp [operand, ComparableExpr.toSql, Sql.eval, hrow]
  | some s =>
    change (sqlCompare Ordering.isEq (row key) (some (.string s))).not = .true ↔ _
    cases row key with
    | none => simp [sqlCompare]
    | some u =>
      rw [sqlCompare_not_isEq, compareTo_string_ne]
      simp only [Option.some.injEq]

theorem mem_items {items : List (List Char)} {v : Value} :
    some v ∈ items.map (fun s => some (Value.string s)) ↔ ∃ s ∈ items, v = .string s := by
  rw [List.mem_map]
  refine exists_congr fun s => and_congr_right fun _ => ?_
  rw [Option.some.injEq, eq_comm]

theorem selects_isIn {key : FieldName} {items : List (List Char)} (hne : items ≠ [])
    {hvalid : CollectionOperator.isIn = .between →
      (items.map fun s => some (Value.string s)).length = 2} :
    selects row (EntityCondition.collection ⟨key, .isIn, items.map fun s => some (.string s),
      hvalid⟩).makeWhereString = true ↔ ∃ s ∈ items, row key = some (.string s) := by
  rw [EntityCondition.selects_collection (fun h => CollectionOperator.noConfusion h.1),
    decide_eq_true_iff]
  obtain ⟨s, items, rfl⟩ := List.exists_cons_of_ne_nil hne
  change sqlIn (row key) ((s :: items).map fun s => some (.string s)) = .true ↔ _
  cases row key with
  | none => simp [sqlIn_none]
  | some u =>
    rw [sqlIn_eq_true]
    constructor
    · rintro ⟨v, hv, heq⟩
      obtain ⟨t, ht, rfl⟩ := mem_items.mp hv
      exact ⟨t, ht, congrArg some (compareTo_string.mp heq)⟩
    · rintro ⟨t, ht, hu⟩
      exact ⟨.string t, mem_items.mpr ⟨t, ht, rfl⟩, compareTo_string.mpr (Option.some.inj hu)⟩

theorem selects_notIn {key : FieldName} {items : List (List Char)} (hne : items ≠ [])
    {hvalid : CollectionOperator.notIn = .between →
      (items.map fun s => some (Value.string s)).length = 2} :
    selects row (EntityCondition.collection ⟨key, .notIn, items.map fun s => some (.string s),
      hvalid⟩).makeWhereString = true ↔ ∃ s, row key = some (.string s) ∧ s ∉ items := by
  rw [EntityCondition.selects_collection (fun h => hne (List.map_eq_nil_iff.mp h.2)),
    decide_eq_true_iff]
  change (sqlIn (row key) (items.map fun s => some (.string s))).not = .true ↔ _
  rw [Kleene.not_eq_true]
  cases row key with
  | none => simp [sqlIn_none, hne]
  | some u =>
    rw [sqlIn_eq_false]
    constructor
    · intro h
      obtain ⟨t, ht⟩ := List.exists_mem_of_ne_nil _ hne
      obtain ⟨v, r, hv, hr, hr'⟩ := h _ (List.mem_map_of_mem ht)
      obtain rfl := Option.some.inj hv
      obtain ⟨s, rfl, -⟩ := compareTo_string_ne.mp ⟨r, hr, hr'⟩
      refine ⟨s, rfl, fun hs => ?_⟩
      obtain ⟨w, r', hw, hr₁, hr₂⟩ := h _ (List.mem_map_of_mem hs)
      obtain rfl := Option.some.inj hw
      rw [Value.compareTo_self] at hr₁
      exact hr₂ (Option.some.inj hr₁).symm
    · rintro ⟨s, hs, hnot⟩ o ho
      obtain rfl := Option.some.inj hs
      obtain ⟨t, ht, rfl⟩ := List.mem_map.mp ho
      obtain ⟨r, hr, hne'⟩ := compareTo_string_ne.mpr
        (show ∃ s', Value.string s = .string s' ∧ s' ≠ t from ⟨s, rfl, fun h => hnot (h ▸ ht)⟩)
      exact ⟨.string t, r, rfl, hr, hne'⟩

variable (row) in
/-- **The condition of a clause** selects the rows of which the clause is true. -/
theorem selects_toCondition (hvalue : clause.HasValue) (h : clause.toCondition request = .ok c) :
    c.HasText ∧ c.isEmpty = false ∧
      (selects row c.makeWhereString = true ↔ clause.IsTrue request row) := by
  have hitems : ∀ inner, trim clause.valueStr = '(' :: inner ++ [')'] → tokens ',' inner ≠ [] →
      clause.items ≠ [] := by
    intro inner htrim htokens
    rw [Clause.items, htrim]
    simpa using htokens
  obtain ⟨field, operator, valueStr⟩ := clause
  cases operator with
  | equals =>
    obtain ⟨v, hv, rfl⟩ := Except.map_eq_ok.mp h
    refine ⟨trivial, rfl, selects_comparison_equals.trans ?_⟩
    constructor
    · exact fun hrow => ⟨v, hv, hrow⟩
    · rintro ⟨w, hw, hrow⟩
      obtain rfl := Except.ok.inj (hv.symm.trans hw)
      exact hrow
  | notEqual =>
    obtain ⟨v, hv, rfl⟩ := Except.map_eq_ok.mp h
    refine ⟨trivial, rfl, selects_comparison_notEqual.trans ?_⟩
    constructor
    · exact fun hrow => ⟨v, hv, hrow⟩
    · rintro ⟨w, hw, hrow⟩
      obtain rfl := Except.ok.inj (hv.symm.trans hw)
      exact hrow
  | isIn =>
    obtain rfl := Except.ok.inj h
    obtain ⟨inner, htrim, htokens⟩ := hvalue
    exact ⟨fun h => CollectionOperator.noConfusion h.1, rfl,
      selects_isIn (hitems inner htrim htokens)⟩
  | notIn =>
    obtain rfl := Except.ok.inj h
    obtain ⟨inner, htrim, htokens⟩ := hvalue
    exact ⟨fun h => hitems inner htrim htokens (List.map_eq_nil_iff.mp h.2), rfl,
      selects_notIn (hitems inner htrim htokens)⟩

/-- A condition that is not empty selects the rows of a property. -/
structure Meets (row : Row) (c : EntityCondition) (P : Prop) : Prop where
  hasText : c.HasText
  notEmpty : c.isEmpty = false
  selects : selects row c.makeWhereString = true ↔ P

theorem meets_and {clauses : List Clause} {cs : List EntityCondition} (hne : clauses ≠ [])
    (hvalue : ∀ clause ∈ clauses, clause.HasValue)
    (h : clauses.mapM (Clause.toCondition · request) = .ok cs) :
    Meets row (.list cs .and) (∀ clause ∈ clauses, clause.IsTrue request row) := by
  have hall := Except.mapM_eq_ok.mp h
  have hclause : ∀ clause ∈ clauses, ∃ c ∈ cs, clause.toCondition request = .ok c :=
    fun clause hmem => hall.exists_left hmem
  have hcondition : ∀ c ∈ cs, ∃ clause ∈ clauses, clause.toCondition request = .ok c := by
    intro c hc
    obtain ⟨clause, hmem, hok⟩ := hall.flip.exists_left hc
    exact ⟨clause, hmem, hok⟩
  have htext : ∀ c ∈ cs, c.HasText := by
    intro c hc
    obtain ⟨clause, hmem, hok⟩ := hcondition c hc
    exact (selects_toCondition row (hvalue clause hmem) hok).1
  refine ⟨EntityCondition.hasText_list.mpr htext, ?_, ?_⟩
  · obtain ⟨clause, hmem⟩ := List.exists_mem_of_ne_nil _ hne
    obtain ⟨c, hc, hok⟩ := hclause clause hmem
    have hempty := (selects_toCondition row (hvalue clause hmem) hok).2.1
    rw [EntityCondition.isEmpty, ← Bool.not_eq_true, EntityCondition.allEmpty_eq_true]
    intro hallEmpty
    rw [hallEmpty c hc] at hempty
    cases hempty
  · rw [EntityCondition.selects_and htext, List.all_eq_true]
    constructor
    · intro hsel clause hmem
      obtain ⟨c, hc, hok⟩ := hclause clause hmem
      exact (selects_toCondition row (hvalue clause hmem) hok).2.2.mp (hsel c hc)
    · intro htrue c hc
      obtain ⟨clause, hmem, hok⟩ := hcondition c hc
      exact (selects_toCondition row (hvalue clause hmem) hok).2.2.mpr (htrue clause hmem)

theorem meets_groupCondition {clauses : List Clause} (hne : clauses ≠ [])
    (hvalue : ∀ clause ∈ clauses, clause.HasValue)
    (h : groupCondition request clauses = .ok c) :
    Meets row c (∀ clause ∈ clauses, clause.IsTrue request row) := by
  match clauses with
  | [] => exact absurd rfl hne
  | [clause] =>
    obtain ⟨htext, hempty, hselects⟩ :=
      selects_toCondition row (hvalue clause List.mem_cons_self) h
    exact ⟨htext, hempty, hselects.trans (by simp)⟩
  | clause :: clause' :: clauses =>
    obtain ⟨cs, hcs, rfl⟩ := Except.map_eq_ok.mp h
    exact meets_and hne hvalue hcs

/-- **The condition of the groups** selects the rows that a group selects. -/
theorem selects_groupsCondition {groups : List (List Clause)} (hne : groups ≠ [])
    (hgroup : ∀ clauses ∈ groups, clauses ≠ [])
    (hvalue : ∀ clauses ∈ groups, ∀ clause ∈ clauses, clause.HasValue)
    (h : groupsCondition request groups = .ok c) :
    selects row c.makeWhereString = true ↔ IsTrue request row groups := by
  by_cases hone : ∃ clauses, groups = [clauses]
  · obtain ⟨clauses, rfl⟩ := hone
    obtain ⟨cs, hcs, rfl⟩ := Except.map_eq_ok.mp h
    have hmem : clauses ∈ [clauses] := List.mem_cons_self
    rw [(meets_and (hgroup clauses hmem) (hvalue clauses hmem) hcs).selects, IsTrue]
    simp
  · rw [groupsCondition_of_length (mt List.length_eq_one_iff.mp hone)] at h
    obtain ⟨cs, hcs, rfl⟩ := Except.map_eq_ok.mp h
    have hall := Except.mapM_eq_ok.mp hcs
    have hmeets : ∀ clauses ∈ groups, ∀ c, groupCondition request clauses = .ok c →
        Meets row c (∀ clause ∈ clauses, clause.IsTrue request row) :=
      fun clauses hmem c hok => meets_groupCondition (hgroup clauses hmem) (hvalue clauses hmem) hok
    have htext : ∀ c ∈ cs, c.HasText := by
      intro c hc
      obtain ⟨clauses, hmem, hok⟩ := hall.flip.exists_left hc
      exact (hmeets clauses hmem c hok).hasText
    rw [EntityCondition.selects_or htext, or_iff_right]
    · constructor
      · rintro ⟨c, hc, -, hsel⟩
        obtain ⟨clauses, hmem, hok⟩ := hall.flip.exists_left hc
        exact ⟨clauses, hmem, (hmeets clauses hmem c hok).selects.mp hsel⟩
      · rintro ⟨clauses, hmem, htrue⟩
        obtain ⟨c, hc, hok⟩ := hall.exists_left hmem
        have hm := hmeets clauses hmem c hok
        exact ⟨c, hc, hm.notEmpty, hm.selects.mpr htrue⟩
    · intro hempty
      obtain ⟨clauses, hmem⟩ := List.exists_mem_of_ne_nil _ hne
      obtain ⟨c, hc, hok⟩ := hall.exists_left hmem
      have hnot := (hmeets clauses hmem c hok).notEmpty
      rw [hempty c hc] at hnot
      cases hnot

end Selected

/-! ### Values that are not plain -/

section NotPlain

variable {request : RequestAttributes} {clause : Clause} {text : List Char} {d : EntityCondition}

theorem realValue_inj {v w : List Char} {u : Option (List Char)} (hv : '$' ∉ v) (hw : '$' ∉ w)
    (h : realValue request v = .ok u) (h' : realValue request w = .ok u) : v = w := by
  have hplain : ∀ x : List Char, '$' ∉ x → realValue request x =
      .ok (if x = "null".toList then none else some x) := by
    intro x hx
    have hnot : ¬ "$\x7b".toList <:+: x := fun hin => hx (hin.subset (by simp))
    rw [realValue]
    split_ifs with hnull
    · rfl
    · rw [stringVariable, parseVariable, if_neg hnot]
      rfl
  rw [hplain v hv] at h
  rw [hplain w hw, ← h, Except.ok.injEq] at h'
  split_ifs at h' with hwnull hvnull hvnull
  · rw [hwnull, hvnull]
  · exact (Option.some.inj h').symm

theorem comparison_inj {key key' : FieldName} {op op' : ComparableOperator}
    {hop : op = .equals ∨ op = .notEqual} {hop' : op' = .equals ∨ op' = .notEqual}
    {v v' : Option (List Char)} (h : comparison key op hop v = comparison key' op' hop' v') :
    op = op' ∧ v = v' := by
  injection h with h
  injection h with _ hop hoperand
  refine ⟨hop, ?_⟩
  cases v <;> cases v' <;> simp_all [operand]

theorem parseExpression_cases (h : parseExpression request text = .ok (some d)) :
    ("!=".toList <:+: text ∧ ∃ key valueStr v,
        keyValue (splitSeq "!=".toList text) = .ok (key, valueStr) ∧
        realValue request valueStr = .ok v ∧ d = comparison key .notEqual (Or.inr rfl) v) ∨
    ('=' ∈ text ∧ ∃ key valueStr v, keyValue (split '=' text) = .ok (key, valueStr) ∧
        realValue request valueStr = .ok v ∧ d = comparison key .equals (Or.inl rfl) v) ∨
    ('=' ∉ text ∧ ∃ key valueStr values hvalid,
      keyValue (splitSeq " not in ".toList text) = .ok (key, valueStr) ∧
        collectionValues valueStr = .ok values ∧ d = .collection ⟨key, .notIn, values, hvalid⟩) ∨
    ('=' ∉ text ∧ ¬ " not in ".toList <:+: text ∧ ∃ key valueStr values hvalid,
      keyValue (splitSeq " in ".toList text) = .ok (key, valueStr) ∧
        collectionValues valueStr = .ok values ∧ d = .collection ⟨key, .isIn, values, hvalid⟩) := by
  rw [parseExpression] at h
  split_ifs at h with hnotEqual hequals hnotIn hin
  · obtain ⟨⟨key, valueStr⟩, hkey, h⟩ := Except.bind_eq_ok.mp h
    obtain ⟨v, hv, h⟩ := Except.bind_eq_ok.mp h
    exact .inl ⟨hnotEqual, key, valueStr, v, hkey, hv,
      (Option.some.inj (Except.pure_eq_ok.mp h)).symm⟩
  · obtain ⟨⟨key, valueStr⟩, hkey, h⟩ := Except.bind_eq_ok.mp h
    obtain ⟨v, hv, h⟩ := Except.bind_eq_ok.mp h
    exact .inr (.inl ⟨hequals, key, valueStr, v, hkey, hv,
      (Option.some.inj (Except.pure_eq_ok.mp h)).symm⟩)
  · obtain ⟨⟨key, valueStr⟩, hkey, h⟩ := Except.bind_eq_ok.mp h
    obtain ⟨values, hvalues, h⟩ := Except.bind_eq_ok.mp h
    exact .inr (.inr (.inl ⟨hequals, key, valueStr, values, _, hkey, hvalues,
      (Option.some.inj (Except.pure_eq_ok.mp h)).symm⟩))
  · obtain ⟨⟨key, valueStr⟩, hkey, h⟩ := Except.bind_eq_ok.mp h
    obtain ⟨values, hvalues, h⟩ := Except.bind_eq_ok.mp h
    exact .inr (.inr (.inr ⟨hequals, hnotIn, key, valueStr, values, _, hkey, hvalues,
      (Option.some.inj (Except.pure_eq_ok.mp h)).symm⟩))
  · exact absurd (Except.pure_eq_ok.mp h).symm (Option.some_ne_none d)

theorem keyValue_splitSeq_cut {sep u v key valueStr : List Char} (hsep : sep ≠ [])
    (hu : ¬ sep <:+: u ++ sep.dropLast)
    (h : keyValue (splitSeq sep (u ++ (sep ++ v))) = .ok (key, valueStr)) :
    ∃ p, valueStr = trim p ∧ ¬ sep <:+: p ∧ p <+: v := by
  have hin : sep <:+: u ++ (sep ++ v) := ⟨u, v, by rw [List.append_assoc]⟩
  obtain ⟨p, ps, hp, hnot, hleft⟩ := exists_head_splitOnSeq hsep 0 v
  rw [splitSeq, if_pos hin, splitOnSeq_append hsep hu, hp] at h
  obtain ⟨rest, hrest⟩ := List.rdropWhile_prefix List.isEmpty (u :: p :: ps)
  refine ⟨p, ?_, hnot, hleft⟩
  cases hcut : (u :: p :: ps).rdropWhile List.isEmpty with
  | nil =>
    rw [hcut] at h
    cases h
  | cons k vs =>
    cases vs with
    | nil =>
      rw [hcut] at h
      cases h
    | cons w vs =>
      rw [hcut] at h hrest
      have hw : w = p := by
        have htail := (List.cons_eq_cons.mp hrest).2
        exact (List.cons_eq_cons.mp htail).1
      have hvalue := Except.ok.inj h
      exact (congrArg Prod.snd hvalue).symm.trans (congrArg trim hw)

theorem dollar_not_mem_of_key {pieces : List (List Char)} {key valueStr : List Char}
    (hpieces : ∀ p ∈ pieces, '$' ∉ p) (h : keyValue pieces = .ok (key, valueStr)) :
    '$' ∉ valueStr := by
  match pieces, h with
  | _ :: p :: _, h =>
    obtain rfl := congrArg Prod.snd (Except.ok.inj h)
    exact fun hmem => hpieces p (by simp) (mem_of_mem_trim hmem)

theorem isPlain_equals (hoperator : clause.operator = .equals) (hread : clause.IsRead text)
    (hdollar : '$' ∉ text) (hd : clause.toCondition request = .ok d)
    (hparse : parseExpression request text = .ok (some d)) : clause.IsPlain := by
  have hequals : ∃ u, realValue request (trim clause.valueStr) = .ok u ∧
      comparison clause.field .equals (Or.inl rfl) u = d := by
    rw [Clause.toCondition, hoperator] at hd
    exact Except.map_eq_ok.mp hd
  obtain ⟨u, hu, rfl⟩ := hequals
  rw [Clause.IsPlain, hoperator]
  intro hmem
  rcases parseExpression_cases hparse with ⟨-, _, _, v, -, -, hcond⟩ |
    ⟨-, key, valueStr, v, hkey, hv, hcond⟩ | ⟨-, _, _, _, _, -, -, hcond⟩ |
    ⟨-, -, _, _, _, _, -, -, hcond⟩
  · exact absurd (comparison_inj hcond).1 (by decide)
  · obtain rfl := (comparison_inj hcond).2
    -- a piece between equals signs is the whole value
    have hpieces : ∀ p ∈ split '=' text, '$' ∉ p := fun p hp hin =>
      hdollar (mem_of_mem_split hp hin)
    have hvalue : '$' ∉ trim clause.valueStr := by
      obtain ⟨-, -, blanks, -, rfl⟩ := hread
      intro hin
      exact hdollar (by simp [mem_of_mem_trim hin])
    have hsame := realValue_inj (dollar_not_mem_of_key hpieces hkey) hvalue hv hu
    have hno : '=' ∉ valueStr := by
      match hsplit : split '=' text, hkey with
      | _ :: p :: _, hkey =>
        obtain rfl := congrArg Prod.snd (Except.ok.inj hkey)
        exact fun hin => not_mem_of_mem_split (show p ∈ split '=' text by simp [hsplit])
          (mem_of_mem_trim hin)
    exact hno (hsame ▸ mem_trim (by decide) hmem)
  · cases hcond
  · cases hcond

theorem subtext_trim {sep s : List Char} (hfirst : ∀ c ∈ sep, ' ' < c) (h : sep <:+: s) :
    sep <:+: trim s := by
  rcases List.eq_nil_or_concat sep with rfl | ⟨init, last, rfl⟩
  · exact List.nil_infix
  · rw [List.concat_eq_append] at hfirst h ⊢
    obtain ⟨l, r, hs, hl, hr⟩ := exists_trim s
    have hlast : last ∉ r := fun hmem =>
      absurd (hr last hmem) (Char.not_le.mpr (hfirst last (by simp)))
    rw [hs, ← List.append_assoc] at h
    have hleft := subtext_of_append_right hlast h
    cases init with
    | nil =>
      refine subtext_of_append_left (fun hmem => ?_) hleft
      exact absurd (hl last hmem) (Char.not_le.mpr (hfirst last (by simp)))
    | cons first init =>
      refine subtext_of_append_left (fun hmem => ?_) hleft
      exact absurd (hl first hmem) (Char.not_le.mpr (hfirst first (by simp)))

theorem isPlain_notEqual (hoperator : clause.operator = .notEqual) (hread : clause.IsRead text)
    (hdollar : '$' ∉ text) (hd : clause.toCondition request = .ok d)
    (hparse : parseExpression request text = .ok (some d)) : clause.IsPlain := by
  have hnotEqual : ∃ u, realValue request (trim clause.valueStr) = .ok u ∧
      comparison clause.field .notEqual (Or.inr rfl) u = d := by
    rw [Clause.toCondition, hoperator] at hd
    exact Except.map_eq_ok.mp hd
  obtain ⟨u, hu, rfl⟩ := hnotEqual
  rw [Clause.IsPlain, hoperator]
  intro hin
  rcases parseExpression_cases hparse with ⟨-, key, valueStr, v, hkey, hv, hcond⟩ |
    ⟨-, _, _, v, -, -, hcond⟩ | ⟨-, _, _, _, _, -, -, hcond⟩ | ⟨-, -, _, _, _, _, -, -, hcond⟩
  · obtain rfl := (comparison_inj hcond).2
    obtain ⟨hname, -, blanks, hblanks, rfl⟩ := hread
    rw [hoperator] at hkey hdollar
    obtain ⟨p, rfl, hnot, hleft⟩ := keyValue_splitSeq_cut (by decide)
      (not_subtext_notEqual hname hblanks) hkey
    have hvalue : '$' ∉ clause.valueStr := fun hmem => hdollar (by simp [hmem])
    have hsame := realValue_inj (fun hmem => hvalue (hleft.subset (mem_of_mem_trim hmem)))
      (fun hmem => hvalue (mem_of_mem_trim hmem)) hv hu
    have htrim : "!=".toList <:+: trim p := by
      rw [hsame]
      exact subtext_trim (List.forall_mem_cons.mpr
        ⟨by decide, List.forall_mem_singleton.mpr (by decide)⟩) hin
    obtain ⟨l, r, hp, -, -⟩ := exists_trim p
    exact hnot (htrim.trans ⟨l, r, by rw [List.append_assoc, ← hp]⟩)
  · exact absurd (comparison_inj hcond).1 (by decide)
  · cases hcond
  · cases hcond

theorem exists_item {sep v inner : List Char} {x : Char} (hx : x ∈ sep) (hletter : ' ' < x)
    (hopen : '(' ∉ sep) (hclose : ')' ∉ sep) (hcomma : ',' ∉ sep)
    (htrim : trim v = '(' :: inner ++ [')']) (h : sep <:+: v) :
    sep <:+: inner ∧ ∃ q ∈ tokens ',' inner, sep <:+: q := by
  obtain ⟨l, r, hv, hl, hr⟩ := exists_trim v
  have hblank : ∀ w : List Char, (∀ c ∈ w, c ≤ ' ') → ¬ sep <:+: w := fun w hw hin =>
    absurd (hw x (hin.subset hx)) (Char.not_le.mpr hletter)
  have hsplit : v = l ++ '(' :: (inner ++ ')' :: r) := by
    rw [hv, htrim]
    simp
  rw [hsplit] at h
  have hafter := (subtext_append_cons hopen h).resolve_left (hblank l hl)
  have hinner := (subtext_append_cons hclose hafter).resolve_right (hblank r hr)
  obtain ⟨q, hq, hsub⟩ := exists_subtext_splitOn hcomma hinner
  refine ⟨hinner, q, List.mem_filter.mpr ⟨hq, ?_⟩, hsub⟩
  cases q with
  | nil =>
    rw [List.infix_nil.mp hsub] at hx
    exact absurd hx List.not_mem_nil
  | cons c q => rfl

theorem subtext_of_substring {s t : List Char} {b e : ℤ} (h : substring s b e = some t) :
    t <:+: s := by
  rw [substring] at h
  split_ifs at h
  rw [← Option.some.inj h]
  exact (List.drop_suffix _ _).isInfix.trans (List.take_prefix _ _).isInfix

theorem collectionValues_eq_ok {w : List Char} {values : List (Option Value)}
    (h : collectionValues w = .ok values) :
    ∃ inner, inner <:+: w ∧ values = (tokens ',' inner).map fun v => some (.string v) := by
  rw [collectionValues] at h
  cases hsub : substring w 1 (w.length - 1) with
  | none =>
    rw [hsub] at h
    cases h
  | some inner =>
    rw [hsub] at h
    refine ⟨inner, subtext_of_substring hsub, ?_⟩
    cases htokens : tokens ',' inner with
    | nil =>
      simp only [htokens] at h
      cases h
    | cons v vs =>
      simp only [htokens] at h
      exact (Except.ok.inj h).symm

theorem subtext_of_mem_tokens {sep q inner : List Char} (hq : q ∈ tokens ',' inner)
    (h : sep <:+: q) : sep <:+: inner := by
  have hpiece : q ∈ inner.splitOn ',' := (List.mem_filter.mp hq).1
  refine h.trans ?_
  have hall : ∀ ps : List (List Char), q ∈ ps → q <:+: [','].intercalate ps := by
    intro ps hmem
    induction ps with
    | nil => exact absurd hmem List.not_mem_nil
    | cons p ps ih =>
      cases ps with
      | nil =>
        rw [List.mem_singleton.mp hmem, List.intercalate_singleton]
      | cons p' ps =>
        rw [List.intercalate_cons_cons]
        rcases List.mem_cons.mp hmem with rfl | hmem
        · exact ⟨[], [','] ++ [','].intercalate (p' :: ps), by simp⟩
        · exact (ih hmem).trans (List.suffix_append _ _).isInfix
  have hjoin : [','].intercalate (inner.splitOn ',') = inner := List.intercalate_splitOn ','
  exact hjoin ▸ hall _ hpiece

theorem not_subtext_of_cut {sep u v valueStr inner : List Char} {key : FieldName}
    {values : List (Option Value)} {x : Char} (hx : x ∈ sep) (hletter : ' ' < x)
    (hopen : '(' ∉ sep) (hclose : ')' ∉ sep) (hcomma : ',' ∉ sep)
    (hu : ¬ sep <:+: u ++ sep.dropLast)
    (hkey : keyValue (splitSeq sep (u ++ (sep ++ v))) = .ok (key, valueStr))
    (hvalues : collectionValues valueStr = .ok values)
    (htrim : trim v = '(' :: inner ++ [')'])
    (hitems : values = (tokens ',' inner).map fun v => some (.string v)) : ¬ sep <:+: v := by
  intro hin
  have hsep : sep ≠ [] := List.ne_nil_of_mem hx
  obtain ⟨p, rfl, hnot, -⟩ := keyValue_splitSeq_cut hsep hu hkey
  obtain ⟨-, q, hq, hsub⟩ := exists_item hx hletter hopen hclose hcomma htrim hin
  obtain ⟨cut, hcut, rfl⟩ := collectionValues_eq_ok hvalues
  have hmem : some (Value.string q) ∈ (tokens ',' cut).map fun v => some (Value.string v) := by
    rw [hitems]
    exact List.mem_map_of_mem hq
  obtain ⟨q', hq', hsame⟩ := List.mem_map.mp hmem
  obtain rfl : q' = q := Value.string.inj (Option.some.inj hsame)
  obtain ⟨l, r, hp, -, -⟩ := exists_trim p
  exact hnot (((subtext_of_mem_tokens hq' hsub).trans hcut).trans
    ⟨l, r, by rw [List.append_assoc, ← hp]⟩)

theorem items_eq {inner : List Char} (htrim : trim clause.valueStr = '(' :: inner ++ [')']) :
    clause.items = tokens ',' inner := by
  rw [Clause.items, htrim]
  simp

theorem isPlain_isIn (hoperator : clause.operator = .isIn) (hread : clause.IsRead text)
    (hd : clause.toCondition request = .ok d)
    (hparse : parseExpression request text = .ok (some d)) : clause.IsPlain := by
  rw [Clause.toCondition, hoperator] at hd
  obtain rfl := Except.ok.inj hd
  obtain ⟨hname, hvalue, blanks, hblanks, rfl⟩ := hread
  rw [Clause.HasValue, hoperator] at hvalue
  obtain ⟨inner, htrim, -⟩ := hvalue
  rw [hoperator] at hparse
  rw [Clause.IsPlain, hoperator]
  rcases parseExpression_cases hparse with ⟨-, _, _, v, -, -, hcond⟩ |
    ⟨-, _, _, v, -, -, hcond⟩ | ⟨-, _, _, _, _, -, -, hcond⟩ |
    ⟨hequals, -, key, valueStr, values, _, hkey, hvalues, hcond⟩
  · cases hcond
  · cases hcond
  · cases hcond
  · refine ⟨fun hmem => hequals (by simp [hmem]), ?_⟩
    have hitems : values = (tokens ',' inner).map fun v => some (.string v) := by
      injection hcond with hcond
      injection hcond with _ _ hrhs
      rw [← hrhs, items_eq htrim]
    exact not_subtext_of_cut (show 'i' ∈ " in ".toList by decide) (by decide) (by decide)
      (by decide) (by decide) (not_subtext_in hname hblanks) hkey hvalues htrim hitems

theorem isPlain_notIn (hoperator : clause.operator = .notIn) (hread : clause.IsRead text)
    (hd : clause.toCondition request = .ok d)
    (hparse : parseExpression request text = .ok (some d)) : clause.IsPlain := by
  rw [Clause.toCondition, hoperator] at hd
  obtain rfl := Except.ok.inj hd
  obtain ⟨hname, hvalue, blanks, hblanks, rfl⟩ := hread
  rw [Clause.HasValue, hoperator] at hvalue
  obtain ⟨inner, htrim, -⟩ := hvalue
  rw [hoperator] at hparse
  rw [Clause.IsPlain, hoperator]
  rcases parseExpression_cases hparse with ⟨-, _, _, v, -, -, hcond⟩ |
    ⟨-, _, _, v, -, -, hcond⟩ | ⟨hequals, key, valueStr, values, _, hkey, hvalues, hcond⟩ |
    ⟨-, -, _, _, _, _, -, -, hcond⟩
  · cases hcond
  · cases hcond
  · refine ⟨fun hmem => hequals (by simp [hmem]), ?_⟩
    have hitems : values = (tokens ',' inner).map fun v => some (.string v) := by
      injection hcond with hcond
      injection hcond with _ _ hrhs
      rw [← hrhs, items_eq htrim]
    exact not_subtext_of_cut (show 'i' ∈ " not in ".toList by decide) (by decide) (by decide)
      (by decide) (by decide) (not_subtext_notIn hname hblanks) hkey hvalues htrim hitems
  · cases hcond

/-- **A clause that is read as it is, is plain.** -/
theorem isPlain_of_parse (hread : clause.IsRead text) (hdollar : '$' ∉ text)
    (hd : clause.toCondition request = .ok d)
    (hparse : parseExpression request text = .ok (some d)) : clause.IsPlain := by
  cases hoperator : clause.operator with
  | equals => exact isPlain_equals hoperator hread hdollar hd hparse
  | notEqual => exact isPlain_notEqual hoperator hread hdollar hd hparse
  | isIn => exact isPlain_isIn hoperator hread hd hparse
  | notIn => exact isPlain_notIn hoperator hread hd hparse

end NotPlain

/-! ### Slashes -/

section Slash

variable {request : RequestAttributes} {clause : Clause} {d : EntityCondition}
  {dynamicViewHolder : DynamicViewHolder}

theorem drop_lastIndexOf_suffix {u w : List Char} (h : '/' ∈ w) :
    (u ++ w).drop ((lastIndexOf '/' (u ++ w)).toNat + 1) <:+ w := by
  have hmem : '/' ∈ u ++ w := List.mem_append_right u h
  have hindex : (u ++ w).reverse.idxOf '/' < w.length := by
    rw [List.reverse_append, List.idxOf_append_of_mem (List.mem_reverse.mpr h)]
    exact (List.idxOf_lt_length_of_mem (List.mem_reverse.mpr h)).trans_eq List.length_reverse
  refine List.suffix_of_suffix_length_le (List.drop_suffix _ _) (List.suffix_append u w) ?_
  rw [List.length_drop, lastIndexOf, if_pos hmem, List.length_append]
  omega

theorem subtext_of_append_blanks {sep v r inner : List Char} {x : Char} (hx : x ∈ sep)
    (hletter : ' ' < x) (hopen : '(' ∉ sep) (hclose : ')' ∉ sep)
    (htrim : trim v = '(' :: inner ++ [')']) (hr : ∀ c ∈ r, c ≤ ' ') (h : sep <:+: v ++ r) :
    sep <:+: v := by
  obtain ⟨l, r', hv, hl, hr'⟩ := exists_trim v
  have hblank : ∀ w : List Char, (∀ c ∈ w, c ≤ ' ') → ¬ sep <:+: w := fun w hw hin =>
    absurd (hw x (hin.subset hx)) (Char.not_le.mpr hletter)
  have hsplit : v ++ r = l ++ '(' :: (inner ++ ')' :: (r' ++ r)) := by
    rw [hv, htrim]
    simp
  rw [hsplit] at h
  have hafter := (subtext_append_cons hopen h).resolve_left (hblank l hl)
  have hinner : sep <:+: inner := by
    refine (subtext_append_cons hclose hafter).resolve_right (hblank _ fun c hc => ?_)
    rcases List.mem_append.mp hc with hc | hc
    · exact hr' c hc
    · exact hr c hc
  refine hinner.trans ⟨l ++ ['('], ')' :: r', ?_⟩
  rw [hv, htrim]
  simp

theorem not_mem_of_isPlain (hplain : clause.IsPlain) (h : clause.operator ≠ .notEqual) :
    '=' ∉ clause.valueStr := by
  obtain ⟨field, operator, valueStr⟩ := clause
  cases operator with
  | equals => exact hplain
  | notEqual => exact absurd rfl h
  | isIn => exact hplain.1
  | notIn => exact hplain.1

theorem not_list_of_toCondition (h : clause.toCondition request = .ok d)
    (cs : List EntityCondition) (op : EntityJoinOperator) : d ≠ .list cs op := by
  rintro rfl
  obtain ⟨field, operator, valueStr⟩ := clause
  cases operator with
  | equals =>
    obtain ⟨_, -, h⟩ := Except.map_eq_ok.mp h
    cases h
  | notEqual =>
    obtain ⟨_, -, h⟩ := Except.map_eq_ok.mp h
    cases h
  | isIn => cases h
  | notIn => cases h

theorem operator_of_toCondition (h : clause.toCondition request = .ok d) :
    (∀ key hop v, d = comparison key .equals hop v → clause.operator = .equals) ∧
      (∀ key values hvalid, d = .collection ⟨key, .isIn, values, hvalid⟩ →
        clause.operator = .isIn) ∧
      (∀ key values hvalid, d = .collection ⟨key, .notIn, values, hvalid⟩ →
        clause.operator = .notIn) := by
  obtain ⟨field, operator, valueStr⟩ := clause
  cases operator with
  | equals =>
    obtain ⟨v, -, rfl⟩ := Except.map_eq_ok.mp h
    refine ⟨fun _ _ _ _ => rfl, fun key values hvalid heq => ?_, fun key values hvalid heq => ?_⟩
    · cases heq
    · cases heq
  | notEqual =>
    obtain ⟨v, -, rfl⟩ := Except.map_eq_ok.mp h
    refine ⟨fun key hop w heq => ?_, fun key values hvalid heq => ?_,
      fun key values hvalid heq => ?_⟩
    · exact absurd (comparison_inj heq).1 (by decide)
    · cases heq
    · cases heq
  | isIn =>
    obtain rfl := Except.ok.inj h
    refine ⟨fun key hop w heq => ?_, fun _ _ _ _ => rfl, fun key values hvalid heq => ?_⟩
    · cases heq
    · cases heq
  | notIn =>
    obtain rfl := Except.ok.inj h
    refine ⟨fun key hop w heq => ?_, fun key values hvalid heq => ?_, fun _ _ _ _ => rfl⟩
    · cases heq
    · cases heq

/-- **The processor does not find the condition of a plain clause** in a text with a slash. -/
theorem relCondition_ne {piece : List Char} (hread : clause.IsRead (trim piece))
    (hplain : clause.IsPlain) (hd : clause.toCondition request = .ok d) :
    relCondition dynamicViewHolder request piece ≠ .ok (some d) := by
  intro h
  rw [relCondition] at h
  by_cases hslash : '/' ∈ piece
  · obtain ⟨hname, hvalue, blanks, hblanks, htext⟩ := hread
    obtain ⟨l, r, hpiece, hl, hr⟩ := exists_trim piece
    have hsplit : piece = (l ++ clause.field ++ blanks ++ clause.operator.text) ++
        (clause.valueStr ++ r) := by
      rw [hpiece, htext]
      simp
    -- the slash is in the value
    have hbefore : '/' ∉ l ++ clause.field ++ blanks ++ clause.operator.text := by
      simp only [List.mem_append, not_or]
      refine ⟨⟨⟨fun hmem => absurd (hl _ hmem) (by decide), fun hmem =>
        (hname.2 _ hmem).2.2.2 rfl⟩, fun hmem => absurd (hblanks _ hmem) (by decide)⟩, ?_⟩
      cases clause.operator <;> decide
    have hafter : '/' ∈ clause.valueStr ++ r := by
      rw [hsplit] at hslash
      exact (List.mem_append.mp hslash).resolve_left hbefore
    have hsuffix := drop_lastIndexOf_suffix
      (u := l ++ clause.field ++ blanks ++ clause.operator.text) hafter
    rw [← hsplit] at hsuffix
    rw [if_pos hslash] at h
    obtain ⟨lastRelEntityName, -, h⟩ := Except.bind_eq_ok.mp h
    obtain ⟨hequals, hisIn, hnotIn⟩ := operator_of_toCondition hd
    have hinValue : '=' ∈ piece.drop ((lastIndexOf '/' piece).toNat + 1) →
        '=' ∈ clause.valueStr := fun hmem =>
      (List.mem_append.mp (hsuffix.subset hmem)).resolve_right fun hmem =>
        absurd (hr _ hmem) (by decide)
    dsimp only at h
    split_ifs at h with hne heq hin hnot
    · -- the sign is in the value
      have hsub : ['!'] ++ ['='] <:+: clause.valueStr := subtext_of_append_right
        (fun hmem => absurd (hr _ hmem) (by decide)) (hne.trans hsuffix.isInfix)
      by_cases hoperator : clause.operator = .notEqual
      · rw [Clause.IsPlain, hoperator] at hplain
        exact hplain hsub
      · exact not_mem_of_isPlain hplain hoperator (hsub.subset (by simp))
    · obtain ⟨⟨key, valueStr⟩, -, h⟩ := Except.bind_eq_ok.mp h
      obtain ⟨v, -, h⟩ := Except.bind_eq_ok.mp h
      obtain ⟨filterProperty, -, h⟩ := Except.bind_eq_ok.mp h
      have hoperator := hequals _ _ _ (Option.some.inj (Except.pure_eq_ok.mp h)).symm
      exact not_mem_of_isPlain hplain (by simp [hoperator]) (hinValue heq)
    · obtain ⟨⟨key, valueStr⟩, -, h⟩ := Except.bind_eq_ok.mp h
      obtain ⟨v, -, h⟩ := Except.bind_eq_ok.mp h
      obtain ⟨filterProperty, -, h⟩ := Except.bind_eq_ok.mp h
      have hoperator := hnotIn _ _ _ (Option.some.inj (Except.pure_eq_ok.mp h)).symm
      rw [Clause.IsPlain, hoperator] at hplain
      rw [Clause.HasValue, hoperator] at hvalue
      obtain ⟨inner, htrim, -⟩ := hvalue
      exact hplain.2 (subtext_of_append_blanks (show 'i' ∈ " not in ".toList by decide) (by decide)
        (by decide) (by decide) htrim hr (hnot.trans hsuffix.isInfix))
    · obtain ⟨⟨key, valueStr⟩, -, h⟩ := Except.bind_eq_ok.mp h
      obtain ⟨v, -, h⟩ := Except.bind_eq_ok.mp h
      obtain ⟨filterProperty, -, h⟩ := Except.bind_eq_ok.mp h
      have hoperator := hisIn _ _ _ (Option.some.inj (Except.pure_eq_ok.mp h)).symm
      rw [Clause.IsPlain, hoperator] at hplain
      rw [Clause.HasValue, hoperator] at hvalue
      obtain ⟨inner, htrim, -⟩ := hvalue
      exact hplain.2 (subtext_of_append_blanks (show 'i' ∈ " in ".toList by decide) (by decide)
        (by decide) (by decide) htrim hr (hin.trans hsuffix.isInfix))
    · exact absurd (Except.pure_eq_ok.mp h).symm (Option.some_ne_none d)
  · rw [if_neg hslash, parseEntityCondition_eq] at h
    obtain ⟨c, hc, hsome⟩ := Except.map_eq_ok.mp h
    obtain ⟨conditions, -, rfl⟩ := Except.map_eq_ok.mp hc
    exact not_list_of_toCondition hd _ _ (Option.some.inj hsome).symm

end Slash

/-! ### Where the text is read as usual -/

section Main

variable {request : RequestAttributes} {conditionStr : List Char} {groups : List (List Clause)}
  {c : EntityCondition}

theorem not_list_of_parseExpression {expression : List Char} {d : EntityCondition}
    (h : parseExpression request expression = .ok (some d)) (cs : List EntityCondition)
    (op : EntityJoinOperator) : d ≠ .list cs op := by
  rintro rfl
  rw [parseExpression] at h
  split_ifs at h
  · obtain ⟨_, -, h⟩ := Except.bind_eq_ok.mp h
    obtain ⟨_, -, h⟩ := Except.bind_eq_ok.mp h
    cases Except.pure_eq_ok.mp h
  · obtain ⟨_, -, h⟩ := Except.bind_eq_ok.mp h
    obtain ⟨_, -, h⟩ := Except.bind_eq_ok.mp h
    cases Except.pure_eq_ok.mp h
  · obtain ⟨_, -, h⟩ := Except.bind_eq_ok.mp h
    obtain ⟨_, -, h⟩ := Except.bind_eq_ok.mp h
    cases Except.pure_eq_ok.mp h
  · obtain ⟨_, -, h⟩ := Except.bind_eq_ok.mp h
    obtain ⟨_, -, h⟩ := Except.bind_eq_ok.mp h
    cases Except.pure_eq_ok.mp h
  · cases Except.pure_eq_ok.mp h

theorem isUniform_of_parse (hc : groupsCondition request groups = .ok c)
    (hparse : parseEntityCondition request conditionStr = .ok c) : IsUniform groups := by
  by_contra hnot
  obtain ⟨hone, hgroup⟩ := not_or.mp hnot
  obtain ⟨clauses, hmem, hlength⟩ : ∃ clauses ∈ groups, clauses.length ≠ 1 := by
    by_contra hall
    exact hgroup fun clauses hmem => by_contra fun hne => hall ⟨clauses, hmem, hne⟩
  rw [parseEntityCondition_eq] at hparse
  obtain ⟨conditions, hconditions, rfl⟩ := Except.map_eq_ok.mp hparse
  rw [groupsCondition_of_length hone] at hc
  obtain ⟨cs, hcs, hlist⟩ := Except.map_eq_ok.mp hc
  obtain rfl : cs = conditions.reduceOption := by
    injection hlist
  -- the condition of the group is a list
  obtain ⟨d, hd, hok⟩ := (Except.mapM_eq_ok.mp hcs).exists_left hmem
  rw [groupCondition_of_length hlength] at hok
  obtain ⟨ds, -, rfl⟩ := Except.map_eq_ok.mp hok
  obtain ⟨expression, -, hexpression⟩ :=
    (Except.mem_of_mapM_eq_ok hconditions).mp (List.reduceOption_mem_iff.mp hd)
  exact not_list_of_parseExpression hexpression ds .and rfl

theorem eq_map_some {conditions : List (Option EntityCondition)} {cs : List EntityCondition}
    (hreduce : conditions.reduceOption = cs) (hlength : conditions.length = cs.length) :
    conditions = cs.map some := by
  induction conditions generalizing cs with
  | nil =>
    obtain rfl := hreduce
    rfl
  | cons o conditions ih =>
    cases o with
    | none =>
      rw [List.reduceOption_cons_of_none] at hreduce
      have hle := List.reduceOption_length_le conditions
      rw [hreduce, ← hlength, List.length_cons] at hle
      omega
    | some d =>
      rw [List.reduceOption_cons_of_some] at hreduce
      subst hreduce
      rw [List.map_cons, ← ih rfl (by simpa using hlength)]

theorem forall₂_of_reduceOption {f : List Char → Except ConditionException (Option EntityCondition)}
    {texts : List (List Char)} {clauses : List Clause} {conditions : List (Option EntityCondition)}
    {cs : List EntityCondition} {R : List Char → Clause → Prop}
    (hread : List.Forall₂ R texts clauses) (hconditions : texts.mapM f = .ok conditions)
    (hcs : clauses.mapM (Clause.toCondition · request) = .ok cs)
    (hreduce : conditions.reduceOption = cs) :
    List.Forall₂ (fun text clause => R text clause ∧ ∃ d, f text = .ok (some d) ∧
      clause.toCondition request = .ok d) texts clauses := by
  have htexts := Except.mapM_eq_ok.mp hconditions
  have hclauses := Except.mapM_eq_ok.mp hcs
  have hmap : conditions = cs.map some := eq_map_some hreduce
    (htexts.length_eq.symm.trans (hread.length_eq.trans hclauses.length_eq))
  rw [hmap, List.forall₂_map_right_iff] at htexts
  clear hmap hreduce hconditions hcs
  induction hread generalizing cs with
  | nil => exact .nil
  | cons hR _ ih =>
    obtain ⟨d, cs, hd, hrest, rfl⟩ := List.forall₂_cons_left_iff.mp hclauses
    obtain ⟨hf, htexts⟩ := List.forall₂_cons.mp htexts
    exact .cons ⟨hR, d, hf, hd⟩ (ih htexts hrest)

theorem isPlain_of_parseEntityCondition (hreads : Reads conditionStr groups)
    (hdollar : '$' ∉ conditionStr) (hc : groupsCondition request groups = .ok c)
    (hparse : parseEntityCondition request conditionStr = .ok c) :
    ∀ clause ∈ groups.flatten, clause.IsPlain := by
  have huniform := isUniform_of_parse hc hparse
  have hflatten := reads_flatten hreads huniform
  rw [groupsCondition_flatten hreads huniform] at hc
  obtain ⟨cs, hcs, rfl⟩ := Except.map_eq_ok.mp hc
  rw [parseEntityCondition_eq] at hparse
  obtain ⟨conditions, hconditions, hlist⟩ := Except.map_eq_ok.mp hparse
  have hreduce : conditions.reduceOption = cs := by
    injection hlist
  have hexpressions : List.Forall₂ (fun text (clause : Clause) => clause.IsRead text)
      (expressions (separator conditionStr) conditionStr) groups.flatten :=
    List.forall₂_map_left_iff.mpr hflatten
  have hall := forall₂_of_reduceOption hexpressions hconditions hcs hreduce
  intro clause hmem
  obtain ⟨text, htext, hread, d, hparsed, hd⟩ := hall.flip.exists_left hmem
  obtain ⟨piece, hpiece, rfl⟩ := List.mem_map.mp htext
  refine isPlain_of_parse hread (fun hin => hdollar ?_) hd hparsed
  exact mem_of_mem_splitSeq hpiece (mem_of_mem_trim hin)

theorem not_mem_of_getStringCondition {dynamicViewHolder : DynamicViewHolder}
    (hreads : Reads conditionStr groups) (huniform : IsUniform groups)
    (hplain : ∀ clause ∈ groups.flatten, clause.IsPlain)
    (hc : groupsCondition request groups = .ok c)
    (hget : getStringCondition dynamicViewHolder request conditionStr = .ok (some c)) :
    '/' ∉ conditionStr := by
  intro hslash
  rw [getStringCondition, if_pos ⟨List.ne_nil_of_mem hslash, hslash⟩] at hget
  obtain ⟨conditions, hconditions, hget⟩ := Except.bind_eq_ok.mp hget
  rw [groupsCondition_flatten hreads huniform] at hc
  obtain ⟨cs, hcs, rfl⟩ := Except.map_eq_ok.mp hc
  cases hreduce : conditions.reduceOption with
  | nil =>
    simp only [hreduce] at hget
    exact absurd (Except.pure_eq_ok.mp hget).symm (Option.some_ne_none _)
  | cons d ds =>
    simp only [hreduce] at hget
    have hlist := Option.some.inj (Except.pure_eq_ok.mp hget)
    have hcs' : d :: ds = cs := by
      injection hlist
    have hall := forall₂_of_reduceOption (reads_flatten hreads huniform) hconditions hcs
      (hreduce.trans hcs')
    have hmem : d ∈ cs := hcs' ▸ List.mem_cons_self
    obtain ⟨clause, hclause, -⟩ := (Except.mapM_eq_ok.mp hcs).flip.exists_left hmem
    obtain ⟨piece, -, hread, d', hrel, hd⟩ := hall.flip.exists_left hclause
    exact relCondition_ne hread (hplain clause hclause) hd hrel

/-- **Where a text is read as usual**, alike by both readers: where only one of the two separators
occurs, no value holds an operator, and no value a slash. The condition of the clauses is what the
text says. -/
theorem parseEntityCondition_iff (dynamicViewHolder : DynamicViewHolder)
    (hreads : Reads conditionStr groups) (hc : groupsCondition request groups = .ok c) :
    (∀ row, selects row c.makeWhereString = true ↔ IsTrue request row groups) ∧
      (IsUniform groups ∧ (∀ clause ∈ groups.flatten, clause.IsPlain) ∧ '/' ∉ conditionStr →
        parseEntityCondition request conditionStr = .ok c ∧
          getStringCondition dynamicViewHolder request conditionStr = .ok (some c)) ∧
      ('$' ∉ conditionStr → parseEntityCondition request conditionStr = .ok c ∧
          getStringCondition dynamicViewHolder request conditionStr = .ok (some c) →
        IsUniform groups ∧ (∀ clause ∈ groups.flatten, clause.IsPlain) ∧
          '/' ∉ conditionStr) := by
  refine ⟨fun row => ?_, ?_, ?_⟩
  · refine selects_groupsCondition ?_ ?_ ?_ hc
    · rintro rfl
      exact splitOnSeq_ne_nil 0 (List.forall₂_nil_right_iff.mp hreads)
    · rintro clauses hmem rfl
      obtain ⟨group, -, hread⟩ := (List.Forall₂.flip hreads).exists_left hmem
      exact splitOnSeq_ne_nil 0 (List.forall₂_nil_right_iff.mp hread)
    · intro clauses hmem clause hclause
      obtain ⟨group, -, hread⟩ := (List.Forall₂.flip hreads).exists_left hmem
      obtain ⟨piece, -, hisRead⟩ := hread.flip.exists_left hclause
      exact hisRead.2.1
  · rintro ⟨huniform, hplain, hslash⟩
    have hparse := (parse_of_isUniform hreads huniform hplain).trans hc
    refine ⟨hparse, ?_⟩
    rw [getStringCondition, if_neg (fun h => hslash h.2), hparse]
    rfl
  · rintro hdollar ⟨hparse, hget⟩
    have huniform := isUniform_of_parse hc hparse
    have hplain := isPlain_of_parseEntityCondition hreads hdollar hc hparse
    exact ⟨huniform, hplain, not_mem_of_getStringCondition hreads huniform hplain hc hget⟩

end Main

/-! ### A text of two clauses -/

theorem isRead_equals {field valueStr : List Char} (hfield : IsFieldName field)
    (hvalue : trim valueStr ≠ []) :
    (Clause.mk field .equals valueStr).IsRead (field ++ '=' :: valueStr) :=
  ⟨hfield, hvalue, [], fun _ hc => absurd hc List.not_mem_nil, by simp [ClauseOperator.text]⟩

theorem isFieldName_singleton {c : Char} (h : ' ' < c ∧ c ≠ '=' ∧ c ≠ '!' ∧ c ≠ '/') :
    IsFieldName [c] :=
  ⟨List.cons_ne_nil c [], fun _ hx => List.mem_singleton.mp hx ▸ h⟩

def pathAlias : DynamicViewHolder where
  addRelAlias r := .ok r
  addFilterProperty relEntityName property := .ok (relEntityName ++ property)

def twoClauses : List (List Clause) :=
  [[⟨"a".toList, .equals, "1".toList⟩, ⟨"b".toList, .equals, "2".toList⟩]]

def twoConditions : EntityCondition :=
  .list [comparison "a".toList .equals equals_isEquality (some "1".toList),
    comparison "b".toList .equals equals_isEquality (some "2".toList)] .and

theorem reads_twoClauses : Reads "a=1 and b=2".toList twoClauses := by
  have ha := isRead_equals (isFieldName_singleton (show ' ' < 'a' ∧ _ by decide))
    (show trim "1".toList ≠ [] by decide)
  have hb := isRead_equals (isFieldName_singleton (show ' ' < 'b' ∧ _ by decide))
    (show trim "2".toList ≠ [] by decide)
  exact .cons (.cons ha (.cons hb .nil)) .nil

theorem parseEntityCondition_iff_twoClauses :
    parseEntityCondition noAttributes "a=1 and b=2".toList = .ok twoConditions ∧
      getStringCondition pathAlias noAttributes "a=1 and b=2".toList = .ok (some twoConditions) ∧
      ∀ row, selects row twoConditions.makeWhereString = true ↔
        IsTrue noAttributes row twoClauses := by
  have hplain : ∀ clause ∈ twoClauses.flatten, clause.IsPlain := by
    intro clause hmem
    rcases List.mem_cons.mp hmem with rfl | hmem
    · exact show '=' ∉ "1".toList by decide
    · obtain rfl := List.mem_singleton.mp hmem
      exact show '=' ∉ "2".toList by decide
  obtain ⟨hselects, hread, -⟩ := parseEntityCondition_iff pathAlias reads_twoClauses
    (show groupsCondition noAttributes twoClauses = .ok twoConditions from rfl)
  obtain ⟨hparse, hget⟩ := hread ⟨Or.inl rfl, hplain, by decide⟩
  exact ⟨hparse, hget, hselects⟩

/-! ### A text with both separators -/

def mixedGroups : List (List Clause) :=
  [[⟨"a".toList, .equals, "1".toList⟩],
    [⟨"b".toList, .equals, "2".toList⟩, ⟨"c".toList, .equals, "3".toList⟩]]

def mixedRow : Row :=
  Function.update (Function.update (fun _ => none) "b".toList (some (.string "2".toList)))
    "c".toList (some (.string "3".toList))

def mixedCondition : EntityCondition :=
  .list [comparison "a".toList .equals equals_isEquality (some "1".toList),
    comparison "b".toList .equals equals_isEquality (some "2 and c".toList)] .or

theorem reads_mixed : Reads "a=1 or b=2 and c=3".toList mixedGroups := by
  have ha := isRead_equals (isFieldName_singleton (show ' ' < 'a' ∧ _ by decide))
    (show trim "1".toList ≠ [] by decide)
  have hb := isRead_equals (isFieldName_singleton (show ' ' < 'b' ∧ _ by decide))
    (show trim "2".toList ≠ [] by decide)
  have hc := isRead_equals (isFieldName_singleton (show ' ' < 'c' ∧ _ by decide))
    (show trim "3".toList ≠ [] by decide)
  exact .cons (.cons ha .nil) (.cons (.cons hb (.cons hc .nil)) .nil)

theorem mixed_not_selected :
    Reads "a=1 or b=2 and c=3".toList mixedGroups ∧
      parseEntityCondition noAttributes "a=1 or b=2 and c=3".toList = .ok mixedCondition ∧
      IsTrue noAttributes mixedRow mixedGroups ∧
      selects mixedRow mixedCondition.makeWhereString = false := by
  refine ⟨reads_mixed, rfl, ?_, rfl⟩
  refine ⟨_, List.mem_cons_of_mem _ List.mem_cons_self, fun clause hmem => ?_⟩
  rcases List.mem_cons.mp hmem with rfl | hmem
  · exact ⟨some "2".toList, rfl, rfl⟩
  · obtain rfl := List.mem_singleton.mp hmem
    exact ⟨some "3".toList, rfl, rfl⟩

end OfficeAuto.Odata
