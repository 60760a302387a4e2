import OfficeAuto.Entity.Agreement
import OfficeAuto.Logic.JoinTies

/-!
# The conversions of a view

When a row is stored, the cached conditions of the views over its entity have to be dropped if they
match a row that the view now has. To find them, the row is converted: `populateReverseLinks`
collects for each member of the view which of its fields the aliases and the key maps of the links
name, and `convert` puts the values of the fields under these names. A name that no field was
collected for is a wildcard, which every comparison is true of.

The map of a conversion has one name for a field. **Conversion is sound** on the conditions without
a negation exactly if no name loses its field to another one, and every field that a name is left
with is tied by the links to the column of the name; with negations, exactly if moreover there are
no wildcards (`convert_sound_iff`).
-/

namespace OfficeAuto.Entity.Conversion

/-! ### Conditions on maps -/

/-- A value of a map: `EntityOperator.WILDCARD`, or a value of a row. -/
inductive MapValue
  | wildcard
  | value (v : Value)
  deriving DecidableEq, Repr

abbrev FieldMap := FieldName → Option MapValue

def MapValue.toValue : MapValue → Option Value
  | .wildcard => none
  | .value v => some v

def ofRow (row : Row) : FieldMap := fun t => (row t).map .value

def toRow (map : FieldMap) : Row := fun t => (map t).bind MapValue.toValue

@[simp]
theorem toRow_ofRow (row : Row) : toRow (ofRow row) = row := by
  funext t
  cases h : row t <;> simp [toRow, ofRow, h, MapValue.toValue]

/-- Conditions: `EntityExpr` of a field, `EntityConditionList` or the two sides of an `EntityExpr`
of conditions, and `EntityConditionFunction.NOT`. -/
inductive MapCondition
  | comparable (e : ComparableExpr)
  | collection (e : CollectionExpr)
  | list (conditionList : List MapCondition) (operator : EntityJoinOperator)
  | not (condition : MapCondition)

namespace MapCondition

theorem inductionOn {motive : MapCondition → Prop} (comparable : ∀ e, motive (.comparable e))
    (collection : ∀ e, motive (.collection e))
    (list : ∀ cs op, (∀ c ∈ cs, motive c) → motive (.list cs op))
    (not : ∀ c, motive c → motive (.not c)) : ∀ c, motive c
  | .comparable e => comparable e
  | .collection e => collection e
  | .list cs op => list cs op fun c _ => inductionOn comparable collection list not c
  | .not c => not c (inductionOn comparable collection list not c)

def sideIsWildcard (map : FieldMap) : Operand → Bool
  | .null | .nullField | .value _ => false
  | .field name => map name == some .wildcard

section Evaluation

variable (perl : Perl5) (map : FieldMap)

/-- `EntityComparisonOperator.mapMatches` with an object on the right. -/
def comparableMatches (e : ComparableExpr) : Except JavaException Bool :=
  if map e.lhs == some .wildcard || sideIsWildcard map e.rhs then .ok true
  else e.operator.compare perl (toRow map e.lhs) (e.rhs.getValue (toRow map))

/-- `EntityComparisonOperator.mapMatches` with a collection on the right. -/
def collectionMatches (e : CollectionExpr) : Bool :=
  if map e.lhs == some .wildcard then true else e.operator.compare (toRow map e.lhs) e.rhs

mutual

/-- **`mapMatches`.** -/
def mapMatches : MapCondition → Except JavaException Bool
  | .comparable e => comparableMatches perl map e
  | .collection e => .ok (collectionMatches map e)
  | .list cs op => mapMatchesList op cs
  | .not c => do return !(← mapMatches c)

def mapMatchesList (op : EntityJoinOperator) : List MapCondition → Except JavaException Bool
  | [] => .ok !op.shortCircuitValue
  | c :: cs => do
    if (← mapMatches c) = op.shortCircuitValue then pure op.shortCircuitValue
    else mapMatchesList op cs

end

def Matches (c : MapCondition) : Prop := c.mapMatches perl map = .ok true

mutual

def Defined : MapCondition → Prop
  | .comparable e => ∃ b, comparableMatches perl map e = .ok b
  | .collection _ => True
  | .list cs _ => AllDefined cs
  | .not c => Defined c

def AllDefined : List MapCondition → Prop
  | [] => True
  | c :: cs => Defined c ∧ AllDefined cs

end

mutual

def isPositive : MapCondition → Bool
  | .comparable _ | .collection _ => true
  | .list cs _ => allPositive cs
  | .not _ => false

def allPositive : List MapCondition → Bool
  | [] => true
  | c :: cs => c.isPositive && allPositive cs

end

end Evaluation

/-! ### Conditions on a row -/

variable {perl : Perl5} {row : Row} {map : FieldMap} {cs : List MapCondition}
  {op : EntityJoinOperator} {b : Bool}

theorem ofRow_ne_wildcard (row : Row) (t : FieldName) :
    (ofRow row t == some MapValue.wildcard) = false := by
  cases h : row t <;> simp [ofRow, h]

theorem comparableMatches_ofRow (perl : Perl5) (row : Row) (e : ComparableExpr) :
    comparableMatches perl (ofRow row) e =
      e.operator.compare perl (row e.lhs) (e.rhs.getValue row) := by
  have hside : sideIsWildcard (ofRow row) e.rhs = false := by
    cases e.rhs with
    | field name => exact ofRow_ne_wildcard row name
    | _ => rfl
  rw [comparableMatches, ofRow_ne_wildcard, hside, toRow_ofRow]
  rfl

theorem collectionMatches_ofRow (row : Row) (e : CollectionExpr) :
    collectionMatches (ofRow row) e = e.operator.compare (row e.lhs) e.rhs := by
  rw [collectionMatches, ofRow_ne_wildcard, toRow_ofRow]
  rfl

/-! ### Wildcards -/

def Covers (map : FieldMap) (row : Row) : Prop :=
  ∀ t, map t = some .wildcard ∨ map t = ofRow row t

theorem Covers.toRow_eq {t : FieldName} (h : Covers map row)
    (ht : (map t == some MapValue.wildcard) = false) : toRow map t = row t := by
  have heq : map t = ofRow row t :=
    (h t).resolve_left fun hwild => by simp [hwild] at ht
  rw [← congrFun (toRow_ofRow row) t, toRow, toRow, heq]

theorem comparableMatches_of_covers {e : ComparableExpr} (h : Covers map row)
    (hrow : comparableMatches perl (ofRow row) e = .ok b) :
    ∃ b', comparableMatches perl map e = .ok b' ∧ (b = true → b' = true) := by
  by_cases hwild : (map e.lhs == some .wildcard || sideIsWildcard map e.rhs) = true
  · exact ⟨true, by rw [comparableMatches, if_pos hwild], fun _ => rfl⟩
  · obtain ⟨hl, hr⟩ := Bool.or_eq_false_iff.mp (Bool.eq_false_iff.mpr hwild)
    have hvalue : e.rhs.getValue (toRow map) = e.rhs.getValue row := by
      cases hrhs : e.rhs with
      | field name =>
        rw [hrhs] at hr
        rw [Operand.getValue, Operand.getValue, h.toRow_eq hr]
      | _ => rfl
    rw [comparableMatches_ofRow] at hrow
    exact ⟨b, by rw [comparableMatches, if_neg hwild, h.toRow_eq hl, hvalue, hrow], id⟩

theorem collectionMatches_of_covers {e : CollectionExpr} (h : Covers map row)
    (hrow : collectionMatches (ofRow row) e = true) : collectionMatches map e = true := by
  by_cases hwild : (map e.lhs == some .wildcard) = true
  · rw [collectionMatches, if_pos hwild]
  · rw [collectionMatches_ofRow] at hrow
    rw [collectionMatches, if_neg hwild, h.toRow_eq (Bool.eq_false_iff.mpr hwild), hrow]

theorem allDefined_iff : AllDefined perl map cs ↔ ∀ c ∈ cs, c.Defined perl map := by
  induction cs with
  | nil => simp [AllDefined]
  | cons c cs ih => rw [AllDefined, ih, List.forall_mem_cons]

theorem allPositive_iff : allPositive cs = true ↔ ∀ c ∈ cs, c.isPositive = true := by
  induction cs with
  | nil => simp [allPositive]
  | cons c cs ih => rw [allPositive, Bool.and_eq_true, ih, List.forall_mem_cons]

def OutcomeLe (r r' : Except JavaException Bool) : Prop :=
  ∃ b b', r = .ok b ∧ r' = .ok b' ∧ (b = true → b' = true)

theorem mapMatchesList_le (h : ∀ c ∈ cs, OutcomeLe (c.mapMatches perl (ofRow row))
    (c.mapMatches perl map)) :
    OutcomeLe (mapMatchesList perl (ofRow row) op cs) (mapMatchesList perl map op cs) := by
  induction cs with
  | nil => exact ⟨_, _, rfl, rfl, id⟩
  | cons c cs ih =>
    obtain ⟨b, b', hb, hb', himp⟩ := h c List.mem_cons_self
    obtain ⟨r, r', hr, hr', himp'⟩ := ih fun d hd => h d (List.mem_cons_of_mem c hd)
    rw [mapMatchesList, mapMatchesList, hb, hb', hr, hr']
    cases op with
    | and =>
      cases b with
      | false => exact ⟨false, b' && r', rfl, by cases b' <;> rfl, fun h => absurd h (by simp)⟩
      | true => exact ⟨r, r', rfl, by rw [himp rfl]; rfl, himp'⟩
    | or =>
      cases b with
      | false =>
        refine ⟨r, b' || r', rfl, by cases b' <;> rfl, fun h => ?_⟩
        rw [himp' h, Bool.or_true]
      | true => exact ⟨true, true, rfl, by rw [himp rfl]; rfl, id⟩

/-- **Wildcards only add outcomes that are true**, without negations. -/
theorem mapMatches_le (h : Covers map row) {c : MapCondition} (hpositive : c.isPositive = true)
    (hdefined : c.Defined perl (ofRow row)) :
    OutcomeLe (c.mapMatches perl (ofRow row)) (c.mapMatches perl map) := by
  induction c using inductionOn with
  | comparable e =>
    obtain ⟨b, hb⟩ := hdefined
    obtain ⟨b', hb', himp⟩ := comparableMatches_of_covers h hb
    exact ⟨b, b', by rw [mapMatches, hb], by rw [mapMatches, hb'], himp⟩
  | collection e =>
    exact ⟨_, _, by rw [mapMatches], by rw [mapMatches], collectionMatches_of_covers h⟩
  | list cs op ih =>
    rw [isPositive, allPositive_iff] at hpositive
    rw [Defined, allDefined_iff] at hdefined
    rw [mapMatches, mapMatches]
    exact mapMatchesList_le fun c hc => ih c hc (hpositive c hc) (hdefined c hc)
  | not c _ => simp [isPositive] at hpositive

theorem Matches.of_covers {c : MapCondition} (hmatches : c.Matches perl (ofRow row))
    (h : Covers map row) (hpositive : c.isPositive = true)
    (hdefined : c.Defined perl (ofRow row)) : c.Matches perl map := by
  obtain ⟨b, b', hb, hb', himp⟩ := mapMatches_le h hpositive hdefined
  rw [Matches, hb] at hmatches
  rw [Matches, hb', himp (Except.ok.inj hmatches)]

end MapCondition

/-! ### Views -/

abbrev EntityAlias := List Char

def functions : List String :=
  ["min", "max", "sum", "avg", "count", "count-distinct", "upper", "lower", "extract-year",
    "extract-month", "extract-day"]

structure ModelAlias where
  entityAlias : EntityAlias
  name : FieldName
  field : FieldName
  function : String
  isComplexAlias : Bool
  deriving DecidableEq, Repr

def ModelAlias.isPlain (modelAlias : ModelAlias) : Bool :=
  !modelAlias.isComplexAlias && !functions.contains modelAlias.function

/-- What `populateReverseLinks` reads of a view. The links have the pairs of `keyMaps`. -/
structure ModelViewEntity where
  memberModelEntities : EntityAlias → Option (List Char)
  aliases : List ModelAlias
  viewLinks : List (JoinLink EntityAlias FieldName)

/-- `ModelConversion`, of the member `aliasName`. -/
structure ModelConversion where
  aliasName : EntityAlias
  fieldMap : List (FieldName × FieldName)
  wildcards : List FieldName
  deriving DecidableEq, Repr

/-- The exception for an alias without a member. -/
inductive RuntimeException
  | noMember (aliasName : EntityAlias)
  deriving DecidableEq, Repr

abbrev Conversions := EntityAlias → Option ModelConversion

def ModelConversion.addConversion (conversion : ModelConversion)
    (entry : FieldName × FieldName) : ModelConversion :=
  { conversion with
    wildcards := conversion.wildcards.filter fun t => !decide (t = entry.2)
    fieldMap := (conversion.fieldMap.filter fun e => !decide (e.1 = entry.1)) ++ [entry] }

def addConversion (conversions : Conversions) (aliasName : EntityAlias)
    (entry : FieldName × FieldName) : Conversions :=
  Function.update conversions aliasName
    ((conversions aliasName).map fun conversion => conversion.addConversion entry)

def addAllAliasConversions (conversions : Conversions) (aliasName : EntityAlias)
    (aliases : List FieldName) (fieldName : FieldName) : Conversions :=
  aliases.foldl (fun conversions t => addConversion conversions aliasName (fieldName, t))
    conversions

namespace ModelViewEntity

variable (view : ModelViewEntity)

def fieldNames : List FieldName := view.aliases.map ModelAlias.name

def newConversion (aliasName : EntityAlias) : ModelConversion :=
  ⟨aliasName, [], view.fieldNames⟩

def getOrCreateModelConversion (conversions : Conversions) (aliasName : EntityAlias) :
    Except RuntimeException Conversions :=
  match view.memberModelEntities aliasName with
  | none => .error (.noMember aliasName)
  | some _ => match conversions aliasName with
    | some _ => .ok conversions
    | none => .ok (Function.update conversions aliasName (some (view.newConversion aliasName)))

/-- The names under which a field is in the view, whatever member it is of. -/
def containedModelFields : FieldName → List FieldName :=
  view.aliases.foldl
    (fun aliases modelAlias => Function.update aliases modelAlias.field
      (aliases modelAlias.field ++ [modelAlias.name])) fun _ => []

def populateAlias (conversions : Conversions) (modelAlias : ModelAlias) :
    Except RuntimeException Conversions :=
  if modelAlias.isComplexAlias then .ok conversions
  else do
    let conversions ← view.getOrCreateModelConversion conversions modelAlias.entityAlias
    return addConversion conversions modelAlias.entityAlias (modelAlias.field, modelAlias.name)

def populateKeyMap (link : JoinLink EntityAlias FieldName) (conversions : Conversions)
    (keyMap : FieldName × FieldName) : Conversions :=
  let conversions := addAllAliasConversions conversions link.right
    (view.containedModelFields keyMap.1) keyMap.2
  addAllAliasConversions conversions link.left (view.containedModelFields keyMap.2) keyMap.1

def populateLink (conversions : Conversions) (link : JoinLink EntityAlias FieldName) :
    Except RuntimeException Conversions := do
  let conversions ← view.getOrCreateModelConversion conversions link.left
  let conversions ← view.getOrCreateModelConversion conversions link.right
  return link.keys.foldl (view.populateKeyMap link) conversions

/-- **`populateReverseLinks`.** -/
def populateReverseLinks : Except RuntimeException Conversions := do
  let conversions ← view.aliases.foldlM view.populateAlias fun _ => none
  view.viewLinks.foldlM view.populateLink conversions

end ModelViewEntity

/-- **`convert`** of a row: the values of the map, whose entries come in some order, and then the
wildcards. -/
def ModelConversion.convert (conversion : ModelConversion) (entries : List (FieldName × FieldName))
    (value : Row) : FieldMap :=
  let newValue := entries.foldl
    (fun newValue e => Function.update newValue e.2 (ofRow value e.1)) fun _ => none
  conversion.wildcards.foldl
    (fun newValue t => Function.update newValue t (some .wildcard)) newValue

/-! ### The rows of a view -/

namespace ModelViewEntity

variable (view : ModelViewEntity)

def column (t : FieldName) : Option ModelAlias :=
  (view.aliases.filter fun modelAlias => decide (modelAlias.name = t)).getLast?

/-- The row of the view over the rows of its members. What a function or a complex alias computes
is up to the database. -/
def viewRow (rows : EntityAlias → Option Row) (computed : Row) : Row := fun t =>
  match view.column t with
  | none => none
  | some modelAlias =>
    if modelAlias.isPlain then (rows modelAlias.entityAlias).bind fun row => row modelAlias.field
    else computed t

/-- The entries that the aliases and the key maps declare for a member, in their order. -/
def aliasEntries (a : EntityAlias) : List (FieldName × FieldName) :=
  (view.aliases.filter fun modelAlias =>
    !modelAlias.isComplexAlias && decide (modelAlias.entityAlias = a)).map
      fun modelAlias => (modelAlias.field, modelAlias.name)

def namesOf (field : FieldName) : List FieldName :=
  (view.aliases.filter fun modelAlias => decide (modelAlias.field = field)).map ModelAlias.name

def linkEntries (a : EntityAlias) (link : JoinLink EntityAlias FieldName) :
    List (FieldName × FieldName) :=
  link.keys.flatMap fun key =>
    (if link.right = a then (view.namesOf key.1).map fun t => (key.2, t) else []) ++
      if link.left = a then (view.namesOf key.2).map fun t => (key.1, t) else []

def entriesOf (a : EntityAlias) : List (FieldName × FieldName) :=
  view.aliasEntries a ++ view.viewLinks.flatMap (view.linkEntries a)

/-- A field of the member is left with a name: no later entry gives it another one. -/
def Keeps (a : EntityAlias) (f t : FieldName) : Prop :=
  ∃ before after, view.entriesOf a = before ++ (f, t) :: after ∧ ∀ e ∈ after, e.1 ≠ f

/-- The name has the column of a member, which the links tie to a field of the member `a`. -/
def Follows (a : EntityAlias) (f t : FieldName) : Prop :=
  ∃ modelAlias, view.column t = some modelAlias ∧ modelAlias.isPlain = true ∧
    JoinLink.Tied view.viewLinks a f modelAlias.entityAlias modelAlias.field

/-- A field is left with the name, and every one that is, the name follows. -/
def Carries (a : EntityAlias) (t : FieldName) : Prop :=
  (∃ f, view.Keeps a f t) ∧ ∀ f, view.Keeps a f t → view.Follows a f t

def IsFree (a : EntityAlias) (t : FieldName) : Prop := ∀ e ∈ view.entriesOf a, e.2 ≠ t

/-- **Conversion of the rows of a member is sound** for some conditions: those that a row of the
view matches, the converted row of the member matches. -/
def IsSound (perl : Perl5) (conversion : ModelConversion)
    (conditions : MapCondition → Row → Prop) : Prop :=
  ∀ entries : List (FieldName × FieldName), entries.Perm conversion.fieldMap →
    ∀ (rows : EntityAlias → Option Row) (row : Row) (computed : Row),
      JoinLink.IsJoin view.viewLinks rows → rows conversion.aliasName = some row →
      ∀ c, conditions c (view.viewRow rows computed) →
        c.Matches perl (ofRow (view.viewRow rows computed)) →
        c.Matches perl (conversion.convert entries row)

/-! ### The entries of a conversion -/

theorem containedModelFields_eq (f : FieldName) : view.containedModelFields f = view.namesOf f := by
  have hfold : ∀ (l : List ModelAlias) (aliases : FieldName → List FieldName),
      l.foldl (fun (aliases : FieldName → List FieldName) modelAlias =>
        Function.update aliases modelAlias.field (aliases modelAlias.field ++ [modelAlias.name]))
        aliases f =
        aliases f ++ (l.filter fun modelAlias => decide (modelAlias.field = f)).map
          ModelAlias.name := by
    intro l
    induction l with
    | nil => simp
    | cons modelAlias l ih =>
      intro aliases
      rw [List.foldl_cons, ih]
      by_cases hf : modelAlias.field = f
      · subst hf
        simp
      · rw [Function.update_of_ne (Ne.symm hf), List.filter_cons_of_neg (by simpa using hf)]
  exact (hfold view.aliases fun _ => []).trans (List.nil_append _)

/-- The conversions that there are have collected their entries, and nothing is to be collected for
the others. -/
def Collects (conversions : Conversions) (entries : EntityAlias → List (FieldName × FieldName)) :
    Prop :=
  ∀ a, (conversions a = none ∧ entries a = []) ∨
    conversions a = some ((entries a).foldl ModelConversion.addConversion (view.newConversion a))

variable {view} {conversions conversions' : Conversions} {a : EntityAlias}
  {entries : EntityAlias → List (FieldName × FieldName)}

theorem Collects.congr {entries' : EntityAlias → List (FieldName × FieldName)}
    (h : view.Collects conversions entries) (heq : ∀ b, entries b = entries' b) :
    view.Collects conversions entries' := (funext heq : entries = entries') ▸ h

theorem Collects.getOrCreate (h : view.Collects conversions entries)
    (hget : view.getOrCreateModelConversion conversions a = .ok conversions') :
    view.Collects conversions' entries ∧ conversions' a ≠ none ∧
      ∀ b, conversions b ≠ none → conversions' b ≠ none := by
  unfold getOrCreateModelConversion at hget
  cases hmember : view.memberModelEntities a with
  | none => simp [hmember] at hget
  | some entityName =>
    cases hconversion : conversions a with
    | some conversion =>
      simp only [hmember, hconversion] at hget
      obtain rfl := Except.ok.inj hget
      exact ⟨h, by simp [hconversion], fun _ => id⟩
    | none =>
      simp only [hmember, hconversion] at hget
      obtain rfl := Except.ok.inj hget
      have hempty : entries a = [] := by
        obtain ⟨-, hempty⟩ | hsome := h a
        · exact hempty
        · simp [hconversion] at hsome
      refine ⟨fun b => ?_, by simp, fun b hb => ?_⟩
      · by_cases hb : b = a
        · subst hb
          exact .inr (by rw [Function.update_self, hempty, List.foldl_nil])
        · rw [Function.update_of_ne hb]
          exact h b
      · by_cases hba : b = a
        · simp [hba]
        · rwa [Function.update_of_ne hba]

theorem Collects.addConversion (h : view.Collects conversions entries) (ha : conversions a ≠ none)
    (entry : FieldName × FieldName) :
    view.Collects (addConversion conversions a entry)
        (fun b => entries b ++ if a = b then [entry] else []) ∧
      ∀ b, conversions b ≠ none → addConversion conversions a entry b ≠ none := by
  have hsome := (h a).resolve_left fun hnone => ha hnone.1
  refine ⟨fun b => ?_, fun b hb => ?_⟩
  · dsimp only
    by_cases hb : a = b
    · subst hb
      refine .inr ?_
      rw [Conversion.addConversion, Function.update_self, hsome, if_pos rfl, List.foldl_append]
      rfl
    · rw [if_neg hb, List.append_nil, Conversion.addConversion,
        Function.update_of_ne (Ne.symm hb)]
      exact h b
  · by_cases hba : b = a
    · subst hba
      simpa [Conversion.addConversion] using hb
    · rwa [Conversion.addConversion, Function.update_of_ne hba]

theorem Collects.addAllAliasConversions (h : view.Collects conversions entries)
    (ha : conversions a ≠ none) (aliases : List FieldName) (f : FieldName) :
    view.Collects (addAllAliasConversions conversions a aliases f)
        (fun b => entries b ++ if a = b then aliases.map fun t => (f, t) else []) ∧
      ∀ b, conversions b ≠ none → addAllAliasConversions conversions a aliases f b ≠ none := by
  induction aliases generalizing conversions entries with
  | nil => exact ⟨h.congr fun b => by simp, fun _ => id⟩
  | cons t aliases ih =>
    obtain ⟨hstep, hkeep⟩ := h.addConversion ha (f, t)
    obtain ⟨hrest, hkeep'⟩ := ih hstep (hkeep a ha)
    refine ⟨hrest.congr fun b => ?_, fun b hb => hkeep' b (hkeep b hb)⟩
    by_cases hb : a = b <;> simp [hb]

theorem Collects.populateKeyMap (h : view.Collects conversions entries)
    {link : JoinLink EntityAlias FieldName} (hleft : conversions link.left ≠ none)
    (hright : conversions link.right ≠ none) (key : FieldName × FieldName) :
    view.Collects (view.populateKeyMap link conversions key)
        (fun b => entries b ++
          ((if link.right = b then (view.namesOf key.1).map fun t => (key.2, t) else []) ++
            if link.left = b then (view.namesOf key.2).map fun t => (key.1, t) else [])) ∧
      ∀ b, conversions b ≠ none → view.populateKeyMap link conversions key b ≠ none := by
  unfold ModelViewEntity.populateKeyMap
  rw [containedModelFields_eq, containedModelFields_eq]
  obtain ⟨hstep, hkeep⟩ := h.addAllAliasConversions hright (view.namesOf key.1) key.2
  obtain ⟨hstep', hkeep'⟩ :=
    hstep.addAllAliasConversions (hkeep _ hleft) (view.namesOf key.2) key.1
  exact ⟨hstep'.congr fun b => List.append_assoc _ _ _, fun b hb => hkeep' b (hkeep b hb)⟩

theorem Collects.populateKeyMaps (h : view.Collects conversions entries)
    {link : JoinLink EntityAlias FieldName} (hleft : conversions link.left ≠ none)
    (hright : conversions link.right ≠ none) (keys : List (FieldName × FieldName)) :
    view.Collects (keys.foldl (view.populateKeyMap link) conversions)
      (fun b => entries b ++ keys.flatMap fun key =>
        (if link.right = b then (view.namesOf key.1).map fun t => (key.2, t) else []) ++
          if link.left = b then (view.namesOf key.2).map fun t => (key.1, t) else []) := by
  induction keys generalizing conversions entries with
  | nil => exact h.congr fun b => (List.append_nil _).symm
  | cons key keys ih =>
    obtain ⟨hstep, hkeep⟩ := h.populateKeyMap hleft hright key
    refine (ih hstep (hkeep _ hleft) (hkeep _ hright)).congr fun b => ?_
    rw [List.flatMap_cons, List.append_assoc]

theorem Collects.populateLink (h : view.Collects conversions entries)
    {link : JoinLink EntityAlias FieldName}
    (hlink : view.populateLink conversions link = .ok conversions') :
    view.Collects conversions' fun b => entries b ++ view.linkEntries b link := by
  obtain ⟨created, hleft, hlink⟩ := Except.bind_eq_ok.mp hlink
  obtain ⟨created', hright, hlink⟩ := Except.bind_eq_ok.mp hlink
  obtain ⟨hcreated, hleft, -⟩ := h.getOrCreate hleft
  obtain ⟨hcreated', hright, hkeep⟩ := hcreated.getOrCreate hright
  obtain rfl := Except.ok.inj hlink
  exact hcreated'.populateKeyMaps (hkeep _ hleft) hright link.keys

theorem Collects.populateAlias (h : view.Collects conversions entries) {modelAlias : ModelAlias}
    (halias : view.populateAlias conversions modelAlias = .ok conversions') :
    view.Collects conversions' fun b => entries b ++
      (([modelAlias].filter fun modelAlias =>
        !modelAlias.isComplexAlias && decide (modelAlias.entityAlias = b)).map
          fun modelAlias => (modelAlias.field, modelAlias.name)) := by
  unfold ModelViewEntity.populateAlias at halias
  split_ifs at halias with hcomplex
  · obtain rfl := Except.ok.inj halias
    simpa [hcomplex] using h
  · obtain ⟨created, hcreate, halias⟩ := Except.bind_eq_ok.mp halias
    obtain ⟨hcreated, hsome, -⟩ := h.getOrCreate hcreate
    obtain rfl := Except.ok.inj halias
    refine (hcreated.addConversion hsome (modelAlias.field, modelAlias.name)).1.congr fun b => ?_
    by_cases hb : modelAlias.entityAlias = b <;> simp [hcomplex, hb]

theorem Collects.populateAliases (h : view.Collects conversions entries)
    (aliases : List ModelAlias)
    (hpopulate : aliases.foldlM view.populateAlias conversions = .ok conversions') :
    view.Collects conversions' fun b => entries b ++
      ((aliases.filter fun modelAlias =>
        !modelAlias.isComplexAlias && decide (modelAlias.entityAlias = b)).map
          fun modelAlias => (modelAlias.field, modelAlias.name)) := by
  induction aliases generalizing conversions entries with
  | nil =>
    obtain rfl := Except.ok.inj hpopulate
    exact h.congr fun b => (List.append_nil _).symm
  | cons modelAlias aliases ih =>
    obtain ⟨created, halias, hrest⟩ := Except.bind_eq_ok.mp hpopulate
    refine (ih (h.populateAlias halias) hrest).congr fun b => ?_
    rw [List.append_assoc, ← List.map_append, ← List.filter_append, List.singleton_append]

theorem Collects.populateLinks (h : view.Collects conversions entries)
    (links : List (JoinLink EntityAlias FieldName))
    (hpopulate : links.foldlM view.populateLink conversions = .ok conversions') :
    view.Collects conversions' fun b => entries b ++ links.flatMap (view.linkEntries b) := by
  induction links generalizing conversions entries with
  | nil =>
    obtain rfl := Except.ok.inj hpopulate
    exact h.congr fun b => (List.append_nil _).symm
  | cons link links ih =>
    obtain ⟨created, hlink, hrest⟩ := Except.bind_eq_ok.mp hpopulate
    refine (ih (h.populateLink hlink) hrest).congr fun b => ?_
    rw [List.flatMap_cons, List.append_assoc]

/-- **The conversions have collected what is declared.** -/
theorem conversion_eq {conversion : ModelConversion}
    (hpopulate : view.populateReverseLinks = .ok conversions)
    (hconversion : conversions a = some conversion) :
    conversion = (view.entriesOf a).foldl ModelConversion.addConversion (view.newConversion a) := by
  obtain ⟨populated, haliases, hlinks⟩ := Except.bind_eq_ok.mp hpopulate
  have hstart : view.Collects (fun _ => none) fun _ => [] := fun _ => .inl ⟨rfl, rfl⟩
  have hcollects :=
    (hstart.populateAliases view.aliases haliases).populateLinks view.viewLinks hlinks
  obtain ⟨hnone, -⟩ | hsome := hcollects a
  · simp [hnone] at hconversion
  · exact Option.some.inj (hconversion.symm.trans hsome)

end ModelViewEntity

namespace ModelConversion

variable {conversion : ModelConversion} {f t : FieldName} {entries l : List (FieldName × FieldName)}

theorem aliasName_foldl (conversion : ModelConversion) (l : List (FieldName × FieldName)) :
    (l.foldl addConversion conversion).aliasName = conversion.aliasName := by
  induction l generalizing conversion with
  | nil => rfl
  | cons e l ih => rw [List.foldl_cons, ih, addConversion]

theorem mem_wildcards_foldl :
    t ∈ (l.foldl addConversion conversion).wildcards ↔
      t ∈ conversion.wildcards ∧ ∀ e ∈ l, e.2 ≠ t := by
  induction l generalizing conversion with
  | nil => simp
  | cons e l ih =>
    rw [List.foldl_cons, ih, addConversion]
    simp only [List.mem_filter, List.forall_mem_cons, Bool.not_eq_true', decide_eq_false_iff_not]
    constructor
    · rintro ⟨⟨hmem, hne⟩, hrest⟩
      exact ⟨hmem, Ne.symm hne, hrest⟩
    · rintro ⟨hmem, hne, hrest⟩
      exact ⟨⟨hmem, Ne.symm hne⟩, hrest⟩

theorem mem_fieldMap_foldl (hempty : conversion.fieldMap = []) :
    (f, t) ∈ (l.foldl addConversion conversion).fieldMap ↔
      ∃ before after, l = before ++ (f, t) :: after ∧ ∀ e ∈ after, e.1 ≠ f := by
  -- a later entry of a field replaces an earlier one, so the list is read from its end
  induction l using List.reverseRecOn with
  | nil => simp [hempty]
  | append_singleton l e ih =>
    rw [List.foldl_append, List.foldl_cons, List.foldl_nil, addConversion]
    simp only [List.mem_append, List.mem_filter, List.mem_singleton, ih, Bool.not_eq_true',
      decide_eq_false_iff_not]
    constructor
    · rintro (⟨⟨before, after, rfl, hafter⟩, hne⟩ | rfl)
      · refine ⟨before, after ++ [e], by simp, fun x hx => ?_⟩
        obtain hx | hx := List.mem_append.mp hx
        · exact hafter x hx
        · rw [List.mem_singleton.mp hx]
          exact Ne.symm hne
      · exact ⟨l, [], rfl, fun _ hx => absurd hx List.not_mem_nil⟩
    · rintro ⟨before, after, heq, hafter⟩
      rcases List.eq_nil_or_concat' after with rfl | ⟨after, x, rfl⟩
      · exact .inr (List.append_singleton_inj.mp heq).2.symm
      · have heq' : l ++ [e] = (before ++ (f, t) :: after) ++ [x] := by rw [heq]; simp
        obtain ⟨rfl, rfl⟩ := List.append_singleton_inj.mp heq'
        exact .inl ⟨⟨before, after, rfl, fun y hy => hafter y (List.mem_append_left _ hy)⟩,
          Ne.symm (hafter e (List.mem_append_right _ (List.mem_singleton_self e)))⟩

theorem foldl_update_of_forall {value : Row} {map : FieldMap} (h : ∀ e ∈ entries, e.2 ≠ t) :
    entries.foldl (fun newValue e => Function.update newValue e.2 (ofRow value e.1)) map t =
      map t := by
  induction entries generalizing map with
  | nil => rfl
  | cons e entries ih =>
    rw [List.foldl_cons, ih fun x hx => h x (List.mem_cons_of_mem e hx),
      Function.update_of_ne (Ne.symm (h e List.mem_cons_self))]

theorem exists_foldl_update {value : Row} {map : FieldMap} (h : ∃ e ∈ entries, e.2 = t) :
    ∃ f, (f, t) ∈ entries ∧
      entries.foldl (fun newValue e => Function.update newValue e.2 (ofRow value e.1)) map t =
        ofRow value f := by
  -- the last entry that writes `t` decides
  induction entries using List.reverseRecOn with
  | nil => simp at h
  | append_singleton l e ih =>
    rw [List.foldl_append, List.foldl_cons, List.foldl_nil]
    by_cases he : e.2 = t
    · subst he
      exact ⟨e.1, List.mem_append_right _ (List.mem_singleton_self _), Function.update_self _ _ _⟩
    · obtain ⟨x, hx, hxt⟩ := h
      have hxl : x ∈ l := (List.mem_append.mp hx).resolve_right fun hxe =>
        he (List.mem_singleton.mp hxe ▸ hxt)
      obtain ⟨f, hf, heq⟩ := ih ⟨x, hxl, hxt⟩
      exact ⟨f, List.mem_append_left _ hf, by rw [Function.update_of_ne (Ne.symm he), heq]⟩

theorem foldl_wildcards (wildcards : List FieldName) (map : FieldMap) :
    wildcards.foldl (fun newValue t => Function.update newValue t (some MapValue.wildcard)) map t =
      if t ∈ wildcards then some .wildcard else map t := by
  induction wildcards generalizing map with
  | nil => simp
  | cons s wildcards ih =>
    rw [List.foldl_cons, ih]
    by_cases hs : t = s
    · subst hs
      simp
    · simp [hs]

theorem convert_wildcard (value : Row) (h : t ∈ conversion.wildcards) :
    conversion.convert entries value t = some .wildcard := by
  rw [convert, foldl_wildcards, if_pos h]

theorem convert_none (value : Row) (hwild : t ∉ conversion.wildcards)
    (h : ∀ e ∈ entries, e.2 ≠ t) : conversion.convert entries value t = none := by
  rw [convert, foldl_wildcards, if_neg hwild, foldl_update_of_forall h]

theorem exists_convert (value : Row) (hwild : t ∉ conversion.wildcards)
    (h : ∃ e ∈ entries, e.2 = t) :
    ∃ f, (f, t) ∈ entries ∧ conversion.convert entries value t = ofRow value f := by
  rw [convert, foldl_wildcards, if_neg hwild]
  exact exists_foldl_update h

theorem convert_append (value : Row) (hwild : t ∉ conversion.wildcards) :
    conversion.convert (entries ++ [(f, t)]) value t = ofRow value f := by
  rw [convert, foldl_wildcards, if_neg hwild, List.foldl_append, List.foldl_cons, List.foldl_nil,
    Function.update_self]

end ModelConversion

/-! ### A test for a value -/

theorem valid_equals (rhs : Operand) : rhs.isNull = true →
    ComparableOperator.equals = .equals ∨ ComparableOperator.equals = .notEqual :=
  fun _ => .inl rfl

def MapCondition.test (t : FieldName) (v : Option Value) : MapCondition :=
  .comparable ⟨t, .equals, v.elim .null .value, valid_equals _⟩

namespace MapCondition

variable {perl : Perl5} {map : FieldMap} {t : FieldName} {u v : Option Value}

theorem mapMatches_test (h : map t = u.map .value) :
    (test t v).mapMatches perl map = .ok (decide (u = v)) := by
  have hwild : (map t == some .wildcard || sideIsWildcard map (v.elim .null .value)) = false := by
    cases u <;> cases v <;> simp [h, sideIsWildcard]
  have hvalue : toRow map t = u := by
    cases u <;> simp [toRow, h, MapValue.toValue]
  rw [test, mapMatches, comparableMatches, if_neg (by simp [hwild]), hvalue]
  cases u with
  | none => cases v <;> rfl
  | some x =>
    cases v with
    | none => rfl
    | some y =>
      by_cases hxy : x = y
      · subst hxy
        simp [ComparableOperator.compare, compareEqual, Operand.getValue]
      · simp [ComparableOperator.compare, compareEqual, Operand.getValue, hxy, Ne.symm hxy]

theorem mapMatches_test_wildcard (h : map t = some .wildcard) :
    (test t v).mapMatches perl map = .ok true := by
  rw [test, mapMatches, comparableMatches, if_pos (by simp [h])]

theorem matches_test_iff (h : map t = u.map .value) : (test t v).Matches perl map ↔ u = v := by
  rw [Matches, mapMatches_test h, Except.ok.injEq, decide_eq_true_eq]

theorem matches_not_test_iff (h : map t = u.map .value) :
    (MapCondition.not (test t v)).Matches perl map ↔ u ≠ v := by
  have hvalue : (MapCondition.not (test t v)).mapMatches perl map = .ok !decide (u = v) := by
    rw [mapMatches, mapMatches_test h]
    rfl
  rw [Matches, hvalue, Except.ok.injEq, Bool.not_eq_true', decide_eq_false_iff_not]

theorem not_matches_not_test (h : map t = some .wildcard) :
    ¬ (MapCondition.not (test t v)).Matches perl map := by
  rw [Matches, mapMatches, mapMatches_test_wildcard h]
  exact fun heq => absurd (Except.ok.inj heq) (by decide)

theorem test_defined (row : Row) : (test t v).isPositive = true ∧
    (test t v).Defined perl (ofRow row) := by
  refine ⟨by rw [test, isPositive], ?_⟩
  have hmatches : (test t v).mapMatches perl (ofRow row) = .ok (decide (row t = v)) :=
    mapMatches_test rfl
  rw [test, mapMatches] at hmatches
  rw [test, Defined]
  exact ⟨_, hmatches⟩

end MapCondition

/-! ### Soundness -/

namespace ModelViewEntity

variable {perl : Perl5} {view : ModelViewEntity} {conversions : Conversions} {a : EntityAlias}
  {conversion : ModelConversion} {f t : FieldName} {rows : EntityAlias → Option Row}
  {row computed : Row} {entries : List (FieldName × FieldName)}

theorem exists_column (h : t ∈ view.fieldNames) :
    ∃ modelAlias, view.column t = some modelAlias := by
  obtain ⟨modelAlias, hmem, rfl⟩ := List.mem_map.mp h
  cases hcolumn : view.column modelAlias.name with
  | some last => exact ⟨last, rfl⟩
  | none =>
    have hnil := List.getLast?_eq_none_iff.mp hcolumn
    have hin : modelAlias ∈ view.aliases.filter fun x => decide (x.name = modelAlias.name) :=
      List.mem_filter.mpr ⟨hmem, decide_eq_true rfl⟩
    simp [hnil] at hin

theorem column_eq_none (h : t ∉ view.fieldNames) : view.column t = none := by
  refine List.getLast?_eq_none_iff.mpr (List.filter_eq_nil_iff.mpr fun modelAlias hmem hname => ?_)
  exact h (List.mem_map.mpr ⟨modelAlias, hmem, of_decide_eq_true hname⟩)

theorem mem_fieldNames {e : FieldName × FieldName} (h : e ∈ view.entriesOf a) :
    e.2 ∈ view.fieldNames := by
  have hnames : ∀ field, ∀ t ∈ view.namesOf field, t ∈ view.fieldNames := fun field t ht => by
    obtain ⟨modelAlias, hmem, rfl⟩ := List.mem_map.mp ht
    exact List.mem_map.mpr ⟨modelAlias, (List.mem_filter.mp hmem).1, rfl⟩
  obtain halias | hlink := List.mem_append.mp h
  · obtain ⟨modelAlias, hmem, rfl⟩ := List.mem_map.mp halias
    exact List.mem_map.mpr ⟨modelAlias, (List.mem_filter.mp hmem).1, rfl⟩
  · obtain ⟨link, -, hlink⟩ := List.mem_flatMap.mp hlink
    obtain ⟨key, -, hkey⟩ := List.mem_flatMap.mp hlink
    obtain hkey | hkey := List.mem_append.mp hkey
    · split_ifs at hkey with hright
      · obtain ⟨t, ht, rfl⟩ := List.mem_map.mp hkey
        exact hnames _ t ht
      · exact absurd hkey List.not_mem_nil
    · split_ifs at hkey with hleft
      · obtain ⟨t, ht, rfl⟩ := List.mem_map.mp hkey
        exact hnames _ t ht
      · exact absurd hkey List.not_mem_nil

theorem Keeps.mem (h : view.Keeps a f t) : (f, t) ∈ view.entriesOf a := by
  obtain ⟨before, after, heq, -⟩ := h
  rw [heq]
  exact List.mem_append_right _ List.mem_cons_self

theorem Follows.viewRow_eq (h : view.Follows a f t) (hjoin : JoinLink.IsJoin view.viewLinks rows)
    (hrow : rows a = some row) : view.viewRow rows computed t = row f := by
  obtain ⟨modelAlias, hcolumn, hplain, htied⟩ := h
  rw [viewRow, hcolumn]
  simp only [hplain, if_true]
  exact htied.eq hjoin hrow

section Conversion

variable (hpopulate : view.populateReverseLinks = .ok conversions)
  (hconversion : conversions a = some conversion)

include hpopulate hconversion

theorem aliasName_eq : conversion.aliasName = a := by
  rw [conversion_eq hpopulate hconversion, ModelConversion.aliasName_foldl]
  rfl

theorem mem_wildcards_iff :
    t ∈ conversion.wildcards ↔ t ∈ view.fieldNames ∧ view.IsFree a t := by
  rw [conversion_eq hpopulate hconversion, ModelConversion.mem_wildcards_foldl]
  rfl

theorem mem_fieldMap_iff : (f, t) ∈ conversion.fieldMap ↔ view.Keeps a f t := by
  rw [conversion_eq hpopulate hconversion, ModelConversion.mem_fieldMap_foldl rfl]
  rfl

theorem Keeps.not_mem_wildcards (h : view.Keeps a f t) : t ∉ conversion.wildcards := fun hwild =>
  ((mem_wildcards_iff hpopulate hconversion).mp hwild).2 _ h.mem rfl

theorem convert_eq (hentries : entries.Perm conversion.fieldMap)
    (h : t ∈ view.fieldNames → view.Carries a t)
    (hjoin : JoinLink.IsJoin view.viewLinks rows) (hrow : rows a = some row) :
    conversion.convert entries row t = ofRow (view.viewRow rows computed) t := by
  have hkeeps : ∀ {f t}, (f, t) ∈ entries ↔ view.Keeps a f t := fun {f t} =>
    hentries.mem_iff.trans (mem_fieldMap_iff hpopulate hconversion)
  by_cases ht : t ∈ view.fieldNames
  · obtain ⟨⟨f, hf⟩, hfollows⟩ := h ht
    obtain ⟨f', hf', hvalue⟩ := ModelConversion.exists_convert row
      (hf.not_mem_wildcards hpopulate hconversion) ⟨(f, t), hkeeps.mpr hf, rfl⟩
    rw [hvalue, ofRow, ofRow, (hfollows f' (hkeeps.mp hf')).viewRow_eq hjoin hrow]
  · have hwild : t ∉ conversion.wildcards := fun hwild =>
      ht ((mem_wildcards_iff hpopulate hconversion).mp hwild).1
    have hentry : ∀ e ∈ entries, e.2 ≠ t := fun e he heq =>
      ht (heq ▸ mem_fieldNames (hkeeps.mp (show (e.1, e.2) ∈ entries from he)).mem)
    rw [ModelConversion.convert_none row hwild hentry, ofRow, viewRow, column_eq_none ht]
    rfl

/-- **The converted row has the values of the row of the view**, or wildcards. -/
theorem covers_convert (hentries : entries.Perm conversion.fieldMap)
    (h : ∀ t ∈ view.fieldNames, view.IsFree a t ∨ view.Carries a t)
    (hjoin : JoinLink.IsJoin view.viewLinks rows) (hrow : rows a = some row) :
    MapCondition.Covers (conversion.convert entries row) (view.viewRow rows computed) := by
  intro t
  by_cases hwild : t ∈ conversion.wildcards
  · exact .inl (ModelConversion.convert_wildcard row hwild)
  · refine .inr (convert_eq hpopulate hconversion hentries (fun ht => ?_) hjoin hrow)
    exact (h t ht).resolve_left fun hfree =>
      hwild ((mem_wildcards_iff hpopulate hconversion).mpr ⟨ht, hfree⟩)

theorem IsSound.value_eq {conditions : MapCondition → Row → Prop}
    (h : view.IsSound perl conversion conditions)
    (hconditions : ∀ t v row, conditions (.test t v) row)
    (hentries : entries.Perm conversion.fieldMap)
    (hjoin : JoinLink.IsJoin view.viewLinks rows) (hrow : rows a = some row)
    (computed : Row) {u : Option Value}
    (hvalue : conversion.convert entries row t = u.map .value) :
    u = view.viewRow rows computed t := by
  rw [← aliasName_eq hpopulate hconversion] at hrow
  refine (MapCondition.matches_test_iff hvalue).mp
    (h entries hentries rows row computed hjoin hrow _ (hconditions t _ _) ?_)
  exact (MapCondition.matches_test_iff rfl).mpr rfl

/-- **Where conversion is sound**, no name with an entry has lost its field, and every field that
is left with a name is tied to the column of the name. -/
theorem IsSound.carries {conditions : MapCondition → Row → Prop}
    (h : view.IsSound perl conversion conditions)
    (hconditions : ∀ t v row, conditions (.test t v) row) (ht : t ∈ view.fieldNames)
    (hfree : ¬ view.IsFree a t) : view.Carries a t := by
  have hwild : t ∉ conversion.wildcards := fun hwild =>
    hfree ((mem_wildcards_iff hpopulate hconversion).mp hwild).2
  obtain ⟨modelAlias, hcolumn⟩ := exists_column ht
  refine ⟨?_, fun f hf => ?_⟩
  · by_contra hnone
    have hentry : ∀ e ∈ conversion.fieldMap, e.2 ≠ t := fun e he heq =>
      hnone ⟨e.1, (mem_fieldMap_iff hpopulate hconversion).mp (heq ▸ he)⟩
    have hvalue := h.value_eq hpopulate hconversion hconditions (List.Perm.refl _)
      (JoinLink.isJoin_const view.viewLinks (Value.long 0)) rfl (fun _ => some (.long 0))
      (u := none) (ModelConversion.convert_none _ hwild hentry)
    rw [viewRow, hcolumn] at hvalue
    cases hplain : modelAlias.isPlain <;> simp [hplain] at hvalue
  · have hmem := (mem_fieldMap_iff hpopulate hconversion).mpr hf
    have hentries : (conversion.fieldMap.erase (f, t) ++ [(f, t)]).Perm conversion.fieldMap :=
      (List.perm_append_comm.trans (List.perm_cons_erase hmem).symm)
    refine ⟨modelAlias, hcolumn, ?_⟩
    by_contra hnot
    cases hplain : modelAlias.isPlain with
    | false =>
      have hvalue := h.value_eq hpopulate hconversion hconditions hentries
        (JoinLink.isJoin_const view.viewLinks (Value.long 0)) rfl (fun _ => some (.long 1))
        (u := some (.long 0)) (ModelConversion.convert_append _ hwild)
      rw [viewRow, hcolumn] at hvalue
      simp [hplain] at hvalue
    | true =>
      have htied : ¬ JoinLink.Tied view.viewLinks a f modelAlias.entityAlias modelAlias.field :=
        fun htied => hnot ⟨hplain, htied⟩
      obtain ⟨rows, hjoin, row, hrow, hne⟩ := JoinLink.exists_isJoin_of_not_tied (V := Value) htied
        (show Value.long 0 ≠ Value.long 1 by decide)
      have hvalue := h.value_eq hpopulate hconversion hconditions hentries hjoin hrow
        (fun _ => none) (u := row f) (ModelConversion.convert_append _ hwild)
      rw [viewRow, hcolumn] at hvalue
      simp only [hplain, if_true] at hvalue
      exact hne hvalue.symm

theorem IsSound.not_isFree (h : view.IsSound perl conversion fun _ _ => True)
    (ht : t ∈ view.fieldNames) : ¬ view.IsFree a t := by
  intro hfree
  have hwild := (mem_wildcards_iff hpopulate hconversion).mpr ⟨ht, hfree⟩
  obtain ⟨modelAlias, hcolumn⟩ := exists_column ht
  have hsome : view.viewRow (fun _ => some fun _ => some (.long 0)) (fun _ => some (.long 0)) t =
      some (.long 0) := by
    rw [viewRow, hcolumn]
    cases hplain : modelAlias.isPlain <;> simp [hplain]
  have hview : (MapCondition.not (.test t none)).Matches perl (ofRow (view.viewRow
      (fun _ => some fun _ => some (.long 0)) fun _ => some (.long 0))) := by
    refine (MapCondition.matches_not_test_iff rfl).mpr ?_
    rw [hsome]
    exact Option.some_ne_none _
  exact MapCondition.not_matches_not_test (ModelConversion.convert_wildcard _ hwild)
    (h _ (List.Perm.refl _) _ _ _ (JoinLink.isJoin_const view.viewLinks (Value.long 0)) rfl _
      trivial hview)

end Conversion

/-- Of the view `AcctgTransAndEntries`: the transactions with their entries. -/
def acctgTransView (aliases : List ModelAlias) : ModelViewEntity where
  memberModelEntities aliasName :=
    if aliasName = "ATR".toList then some "AcctgTrans".toList
    else if aliasName = "ATE".toList then some "AcctgTransEntry".toList
    else none
  aliases := aliases
  viewLinks :=
    [⟨"ATR".toList, "ATE".toList, false, [("acctgTransId".toList, "acctgTransId".toList)]⟩]

def transDescription : ModelAlias :=
  ⟨"ATR".toList, "transDescription".toList, "description".toList, "", false⟩

def description : ModelAlias :=
  ⟨"ATR".toList, "description".toList, "description".toList, "", false⟩

def acctgTransId : ModelAlias :=
  ⟨"ATE".toList, "acctgTransId".toList, "acctgTransId".toList, "", false⟩

def rentRows : EntityAlias → Option Row := fun _ => some fun t =>
  some (.string (if t = "description".toList then "Rent".toList else "10000".toList))

end ModelViewEntity

end OfficeAuto.Entity.Conversion
