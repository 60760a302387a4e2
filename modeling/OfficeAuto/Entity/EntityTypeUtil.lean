import Mathlib.Data.List.Pairwise
import OfficeAuto.Logic.ParentLinks
import OfficeAuto.Logic.CallTree
import OfficeAuto.Odata.RelationChain

/-!
# Hierarchies of types

A type entity, such as `EnumerationType`, links each type to its parent type. `EntityTypeUtil` walks
these links in three ways: `isType` climbs along the relation to the parent, `hasParentType` reads
row after row by the identifiers, and `getDescendantTypes` descends along the relation to the
children, which the model reader adds to an entity that has one to its parent.

In a hierarchy without cycles all three walks end, and they agree on what is above what: a type is
of another type, and has it as a parent type, **exactly if the other one is the type itself or above
it**, and the descendants of a type are those properly below it, each once (`walks_agree`).

The query of `hasParentType` takes an empty identifier for null.
-/

namespace OfficeAuto.Entity.EntityTypeUtil

open Odata.Relations Relation

variable (db : Database)

/-! ### Reading -/

def getString (value : GenericValue) (name : FieldName) : Option (List Char) :=
  match value.fields name with
  | some (.string s) => some s
  | _ => none

def equals (value value' : GenericValue) : Bool :=
  value.entityName = value'.entityName &&
    (db.modelEntity value.entityName).all fun modelEntity =>
      modelEntity.allFieldNames.all fun name => value.fields name = value'.fields name

def setPKField : Option Value → Option Value
  | some (.string []) => none
  | value => value

def queryOne (entityName : EntityName) (fieldMap : FieldMap) :
    Except EntityException (Option GenericValue) :=
  match db.modelEntity entityName with
  | none => .error .illegalArgument
  | some modelEntity =>
    let pk := modelEntity.pkFieldNames.filterMap fun name =>
      (fieldMap.find? fun field => field.1 = name).map fun field => (name, setPKField field.2)
    match db.rows.filter fun row => row.hasFields entityName pk with
    | [] => .ok none
    | [value] => .ok (some value)
    | _ => .error .illegalArgument

def orNull {α : Type} : Except EntityException (Option α) → Outcome (Option α)
  | .ok result => .done result
  | .error .genericModel => .done none
  | .error _ => .threw

/-! ### The walks -/

def getParentType (typeValue : GenericValue) : Outcome (Option GenericValue) :=
  orNull (db.getRelatedOne typeValue ("Parent".toList ++ typeValue.entityName))

/-- **`isType`**, on a budget for the depth of the recursion. -/
def isType : ℕ → Option GenericValue → GenericValue → Outcome Bool
  | 0, _, _ => .timeout
  | _ + 1, none, _ => .done false
  | n + 1, some thisType, targetType =>
    if equals db targetType thisType then .done true
    else (getParentType db thisType).bind fun parentType => isType n parentType targetType

def addDescendants (getDescendantTypes : GenericValue → Outcome (Option (List GenericValue))) :
    List GenericValue → Outcome (List GenericValue)
  | [] => .done []
  | childType :: childrenTypes =>
    (getDescendantTypes childType).bind fun childTypeDescendants =>
      (addDescendants getDescendantTypes childrenTypes).bind fun descendantTypes =>
        .done (childTypeDescendants.getD [] ++ descendantTypes)

/-- **`getDescendantTypes`**; `none` is the result null. -/
def getDescendantTypes : ℕ → GenericValue → Outcome (Option (List GenericValue))
  | 0, _ => .timeout
  | n + 1, typeValue =>
    let related := db.getRelated typeValue ("Child".toList ++ typeValue.entityName) []
    (orNull (related.map some)).bind fun childrenTypes =>
      match childrenTypes with
      | none => .done none
      | some childrenTypes => (addDescendants (getDescendantTypes n) childrenTypes).bind
          fun descendantTypes => .done (some (childrenTypes ++ descendantTypes))

/-- **`hasParentType`** -/
def hasParentType (entityName : EntityName) (primaryKey : FieldName) (parentTypeField : FieldName)
    (parentType : List Char) : ℕ → List Char → Outcome Bool
  | 0, _ => .timeout
  | n + 1, childType =>
    (orNull (queryOne db entityName [(primaryKey, some (.string childType))])).bind fun
      childTypeValue =>
        match childTypeValue with
        | none => .done false
        | some childTypeValue =>
          if getString childTypeValue primaryKey = some parentType then .done true
          else
            match getString childTypeValue parentTypeField with
            | none => .done false
            | some parentTypeId =>
              if parentType = parentTypeId then .done true
              else hasParentType entityName primaryKey parentTypeField parentType n parentTypeId

/-! ### Hierarchies -/

/-- **A type entity** and its rows: a key of one field, with the identifier of the type, the
relation to the parent, and the one to the children. -/
structure TypeEntity (entityName : EntityName) (primaryKey parentTypeField : FieldName) : Prop where
  model : ∃ modelEntity, db.modelEntity entityName = some modelEntity ∧
    modelEntity.pkFieldNames = [primaryKey] ∧ primaryKey ∈ modelEntity.allFieldNames ∧
    modelEntity.relation ("Parent".toList ++ entityName) =
      some ⟨true, entityName, [⟨parentTypeField, primaryKey⟩]⟩ ∧
    modelEntity.relation ("Child".toList ++ entityName) =
      some ⟨false, entityName, [⟨primaryKey, parentTypeField⟩]⟩
  hasKey : ∀ row ∈ db.rows, row.entityName = entityName →
    ∃ typeId, row.fields primaryKey = some (.string typeId)
  hasParent : ∀ row ∈ db.rows, row.entityName = entityName → ∀ value,
    row.fields parentTypeField = some value → ∃ parentTypeId, value = .string parentTypeId
  unique : db.rows.Pairwise fun row row' => row.entityName = entityName →
    row'.entityName = entityName → row.fields primaryKey ≠ row'.fields primaryKey

def ParentLink (entityName : EntityName) (primaryKey parentTypeField : FieldName)
    (typeId parentTypeId : List Char) : Prop :=
  ∃ row ∈ db.rows, row.entityName = entityName ∧ getString row primaryKey = some typeId ∧
    getString row parentTypeField = some parentTypeId

def Returns {α : Type} (walk : ℕ → Outcome α) (a : α) : Prop :=
  ∃ n, ∀ m, n ≤ m → walk m = .done a

section Returns

variable {α : Type} {walk walk' : ℕ → Outcome α} {a : α}

theorem Returns.of_add (n : ℕ) (h : ∀ m, walk (m + n) = .done a) : Returns walk a := by
  refine ⟨n, fun m hm => ?_⟩
  obtain ⟨m, rfl⟩ := Nat.exists_eq_add_of_le' hm
  exact h m

theorem Returns.succ (h : Returns walk a) (hstep : ∀ m, walk' (m + 1) = walk m) :
    Returns walk' a := by
  obtain ⟨n, hn⟩ := h
  refine Returns.of_add (n + 1) fun m => ?_
  rw [← Nat.add_assoc, hstep]
  exact hn _ (Nat.le_add_left n m)

end Returns

section TypeEntity

variable {db} {entityName : EntityName} {primaryKey parentTypeField : FieldName}
  {typeId parentTypeId : List Char} {row row' typeValue targetType : GenericValue}

theorem getString_eq_some {value : GenericValue} {name : FieldName} {s : List Char} :
    getString value name = some s ↔ value.fields name = some (.string s) := by
  unfold getString
  split
  · rename_i s' hfield
    rw [hfield, Option.some.injEq, Option.some.injEq, Value.string.injEq]
  · rename_i hfield
    constructor
    · intro h
      cases h
    · intro h
      exact absurd h (hfield s)

theorem hasFields_singleton {name : FieldName} {value : Option Value} :
    row.hasFields entityName [(name, value)] = true ↔
      row.entityName = entityName ∧ row.fields name = value := by
  rw [GenericValue.hasFields, Bool.and_eq_true, decide_eq_true_eq, List.all_cons, List.all_nil,
    Bool.and_true, decide_eq_true_eq]

def IsRowOf (db : Database) (entityName : EntityName) (primaryKey : FieldName) (typeId : List Char)
    (row : GenericValue) : Prop :=
  row ∈ db.rows ∧ row.entityName = entityName ∧ getString row primaryKey = some typeId

namespace TypeEntity

variable (h : TypeEntity db entityName primaryKey parentTypeField)

include h

theorem eq_of_isRowOf (hrow : IsRowOf db entityName primaryKey typeId row)
    (hrow' : IsRowOf db entityName primaryKey typeId row') : row = row' := by
  by_contra hne
  have hsymm : Std.Symm fun row row' : GenericValue => row.entityName = entityName →
      row'.entityName = entityName → row.fields primaryKey ≠ row'.fields primaryKey :=
    ⟨fun _ _ h hrow' hrow => (h hrow hrow').symm⟩
  have hkey := h.unique.forall hrow.1 hrow'.1 hne hrow.2.1 hrow'.2.1
  rw [getString_eq_some.mp hrow.2.2, getString_eq_some.mp hrow'.2.2] at hkey
  exact hkey rfl

theorem exists_isRowOf (hrow : row ∈ db.rows) (hentity : row.entityName = entityName) :
    ∃ typeId, IsRowOf db entityName primaryKey typeId row := by
  obtain ⟨typeId, hkey⟩ := h.hasKey row hrow hentity
  exact ⟨typeId, hrow, hentity, getString_eq_some.mpr hkey⟩

theorem nodup_of_sublist {values : List GenericValue} (hsublist : values.Sublist db.rows)
    (hentity : ∀ value ∈ values, value.entityName = entityName) : values.Nodup := by
  refine (h.unique.sublist hsublist).imp_of_mem fun {row row'} hrow hrow' hne heq => ?_
  exact hne (hentity row hrow) (hentity row' hrow') (heq ▸ rfl)

theorem parentLink_iff (hrow : IsRowOf db entityName primaryKey typeId row) :
    ParentLink db entityName primaryKey parentTypeField typeId parentTypeId ↔
      getString row parentTypeField = some parentTypeId := by
  constructor
  · rintro ⟨row', hmem, hentity, hkey, hparent⟩
    rwa [h.eq_of_isRowOf hrow ⟨hmem, hentity, hkey⟩]
  · intro hparent
    exact ⟨row, hrow.1, hrow.2.1, hrow.2.2, hparent⟩

theorem rightUnique_parentLink :
    Relator.RightUnique (ParentLink db entityName primaryKey parentTypeField) := by
  intro typeId parentTypeId parentTypeId' hlink hlink'
  obtain ⟨row, hmem, hentity, hkey, hparent⟩ := hlink
  rw [h.parentLink_iff ⟨hmem, hentity, hkey⟩, hparent] at hlink'
  exact Option.some.inj hlink'

omit h in
theorem finite_parentLink :
    {typeId | ∃ parentTypeId,
      ParentLink db entityName primaryKey parentTypeField typeId parentTypeId}.Finite := by
  refine (List.finite_toSet (db.rows.filterMap fun row => getString row primaryKey)).subset ?_
  rintro typeId ⟨parentTypeId, row, hmem, -, hkey, -⟩
  exact List.mem_filterMap.mpr ⟨row, hmem, hkey⟩

theorem equals_iff (hrow : IsRowOf db entityName primaryKey typeId row)
    (htarget : IsRowOf db entityName primaryKey parentTypeId targetType) :
    equals db targetType row = true ↔ typeId = parentTypeId := by
  obtain ⟨modelEntity, hmodel, -, hname, -⟩ := h.model
  constructor
  · intro heq
    rw [equals, htarget.2.1, hmodel, Bool.and_eq_true, Option.all_some, List.all_eq_true] at heq
    have hkey := of_decide_eq_true (heq.2 primaryKey hname)
    rw [getString_eq_some.mp hrow.2.2, getString_eq_some.mp htarget.2.2, Option.some.injEq,
      Value.string.injEq] at hkey
    exact hkey.symm
  · rintro rfl
    rw [h.eq_of_isRowOf htarget hrow, equals, hrow.2.1, hmodel, Bool.and_eq_true, Option.all_some,
      List.all_eq_true]
    exact ⟨decide_eq_true rfl, fun name _ => decide_eq_true rfl⟩

/-! ### What the reads return -/

theorem find?_key {key : Option Value} {value : GenericValue} :
    (db.rows.find? fun row => row.hasFields entityName [(primaryKey, key)]) = some value ↔
      ∃ typeId, key = some (.string typeId) ∧ IsRowOf db entityName primaryKey typeId value := by
  have hfound : ∀ {value}, (db.rows.find? fun row => row.hasFields entityName [(primaryKey, key)]) =
      some value → ∃ typeId, key = some (.string typeId) ∧
        IsRowOf db entityName primaryKey typeId value := by
    intro value hfind
    have hmem := List.mem_of_find?_eq_some hfind
    have hfields := List.find?_some hfind
    obtain ⟨hentity, hkey⟩ := hasFields_singleton.mp hfields
    obtain ⟨typeId, hvalue⟩ := h.exists_isRowOf hmem hentity
    exact ⟨typeId, hkey.symm.trans (getString_eq_some.mp hvalue.2.2), hvalue⟩
  refine ⟨hfound, ?_⟩
  rintro ⟨typeId, hkey, hvalue⟩
  -- some row is found, and there is no second one with the identifier
  have hsome : (db.rows.find? fun row => row.hasFields entityName [(primaryKey, key)]).isSome :=
    List.find?_isSome.mpr ⟨value, hvalue.1, hasFields_singleton.mpr
      ⟨hvalue.2.1, (getString_eq_some.mp hvalue.2.2).trans hkey.symm⟩⟩
  obtain ⟨value', hfind⟩ := Option.isSome_iff_exists.mp hsome
  obtain ⟨typeId', hkey', hvalue'⟩ := hfound hfind
  obtain rfl : typeId = typeId' := by
    rw [hkey, Option.some.injEq, Value.string.injEq] at hkey'
    exact hkey'
  rw [hfind, h.eq_of_isRowOf hvalue hvalue']

theorem exists_getParentType (hentity : row.entityName = entityName) :
    ∃ parentType, getParentType db row = .done parentType ∧ ∀ value, parentType = some value ↔
      ∃ parentTypeId, getString row parentTypeField = some parentTypeId ∧
        IsRowOf db entityName primaryKey parentTypeId value := by
  obtain ⟨modelEntity, hmodel, hpks, -, hrelation, -⟩ := h.model
  have hread : getParentType db row = .done (db.rows.find? fun row' =>
      row'.hasFields entityName [(primaryKey, row.fields parentTypeField)]) := by
    have hgetRelation : db.getRelation row ("Parent".toList ++ entityName) =
        some ⟨true, entityName, [⟨parentTypeField, primaryKey⟩]⟩ := by
      rw [Database.getRelation, hentity, hmodel, Option.bind_some, hrelation]
    have hpk : (List.all [(primaryKey, row.fields parentTypeField)] fun entry =>
        modelEntity.pkFieldNames.contains entry.1) &&
        modelEntity.pkFieldNames.all fun pk =>
          List.any [(primaryKey, row.fields parentTypeField)] fun entry => entry.1 = pk := by
      rw [hpks]
      simp only [List.all_cons, List.all_nil, List.any_cons, List.any_nil, List.contains_cons,
        List.contains_nil, beq_self_eq_true, decide_true, Bool.or_false, Bool.and_true]
    rw [getParentType, hentity, Database.getRelatedOne, hgetRelation]
    -- the relation maps the field of the parent to the primary key
    change orNull (db.findOne entityName [(primaryKey, row.fields parentTypeField)]) = _
    rw [Database.findOne, hmodel]
    change orNull (if _ then _ else _) = _
    rw [if_pos hpk]
    rfl
  refine ⟨_, hread, fun value => ?_⟩
  rw [h.find?_key]
  exact exists_congr fun parentTypeId => and_congr_left fun _ => getString_eq_some.symm

theorem exists_getRelated (hrow : IsRowOf db entityName primaryKey typeId row) :
    ∃ children, db.getRelated row ("Child".toList ++ entityName) [] = .ok children ∧
      children.Sublist db.rows ∧ ∀ child, child ∈ children ↔ child ∈ db.rows ∧
        child.entityName = entityName ∧ getString child parentTypeField = some typeId := by
  obtain ⟨modelEntity, hmodel, -, -, -, hrelation⟩ := h.model
  have hgetRelation : db.getRelation row ("Child".toList ++ entityName) =
      some ⟨false, entityName, [⟨primaryKey, parentTypeField⟩]⟩ := by
    rw [Database.getRelation, hrow.2.1, hmodel, Option.bind_some, hrelation]
  refine ⟨_, getRelated_eq hgetRelation [], List.filter_sublist, fun child => ?_⟩
  have hfields : Database.overridden [] (Database.keyFields row
      ⟨false, entityName, [⟨primaryKey, parentTypeField⟩]⟩) =
        [(parentTypeField, row.fields primaryKey)] := rfl
  rw [List.mem_filter, hfields, hasFields_singleton, getString_eq_some,
    getString_eq_some.mp hrow.2.2]

theorem exists_queryOne (typeId : List Char) :
    ∃ found, queryOne db entityName [(primaryKey, some (.string typeId))] = .ok found ∧
      ∀ value, found = some value ↔
        typeId ≠ [] ∧ IsRowOf db entityName primaryKey typeId value := by
  obtain ⟨modelEntity, hmodel, hpks, -⟩ := h.model
  have hfind : List.find? (fun field => decide (field.1 = primaryKey))
      [(primaryKey, some (Value.string typeId))] = some (primaryKey, some (Value.string typeId)) :=
    List.find?_cons_of_pos (decide_eq_true rfl)
  have hpk : (modelEntity.pkFieldNames.filterMap fun name =>
      (List.find? (fun field => field.1 = name) [(primaryKey, some (Value.string typeId))]).map
        fun field => (name, setPKField field.2)) =
          [(primaryKey, setPKField (some (.string typeId)))] := by
    rw [hpks, List.filterMap_cons, hfind]
    rfl
  have hmem : ∀ value, value ∈ (db.rows.filter fun row =>
      row.hasFields entityName [(primaryKey, setPKField (some (.string typeId)))]) ↔
        typeId ≠ [] ∧ IsRowOf db entityName primaryKey typeId value := by
    intro value
    rw [List.mem_filter, hasFields_singleton]
    cases typeId with
    | nil =>
      constructor
      · rintro ⟨hmem, hentity, hkey⟩
        obtain ⟨typeId, hvalue⟩ := h.hasKey value hmem hentity
        rw [hvalue] at hkey
        cases hkey
      · exact fun hvalue => absurd rfl hvalue.1
    | cons c cs =>
      rw [IsRowOf, getString_eq_some]
      exact (and_iff_right (List.cons_ne_nil c cs)).symm
  have hnodup := h.unique.filter fun row =>
    row.hasFields entityName [(primaryKey, setPKField (some (.string typeId)))]
  rw [queryOne, hmodel]
  dsimp only
  rw [hpk]
  generalize db.rows.filter (fun row =>
    row.hasFields entityName [(primaryKey, setPKField (some (.string typeId)))]) = found
      at hmem hnodup ⊢
  match found with
  | [] =>
    refine ⟨none, rfl, fun value => ⟨?_, fun hvalue => ?_⟩⟩
    · intro hnone
      cases hnone
    · exact absurd ((hmem value).mpr hvalue) List.not_mem_nil
  | [first] =>
    refine ⟨some first, rfl, fun value => ?_⟩
    rw [← hmem, List.mem_singleton, Option.some.injEq, eq_comm]
  | first :: second :: rest =>
    -- two rows would have the same key
    have hfirst := ((hmem first).mp List.mem_cons_self).2
    have hsecond := ((hmem second).mp (List.mem_cons_of_mem first List.mem_cons_self)).2
    have hne := (List.pairwise_cons.mp hnodup).1 second List.mem_cons_self hfirst.2.1 hsecond.2.1
    rw [getString_eq_some.mp hfirst.2.2, getString_eq_some.mp hsecond.2.2] at hne
    exact absurd rfl hne

/-! ### Climbing -/

variable (hacyclic : ∀ typeId,
  ¬TransGen (ParentLink db entityName primaryKey parentTypeField) typeId typeId)

include hacyclic

omit h hacyclic in
theorem exists_row_of_above (habove : ReflTransGen
      (ParentLink db entityName primaryKey parentTypeField) typeId parentTypeId)
    (htarget : IsRowOf db entityName primaryKey parentTypeId targetType) :
    ∃ row, IsRowOf db entityName primaryKey typeId row := by
  obtain rfl | ⟨_, ⟨row, hmem, hentity, hkey, -⟩, -⟩ := ReflTransGen.cases_head habove
  · exact ⟨targetType, htarget⟩
  · exact ⟨row, hmem, hentity, hkey⟩

omit hacyclic in
theorem above_iff (hrow : IsRowOf db entityName primaryKey typeId row)
    (hne : typeId ≠ parentTypeId) :
    ReflTransGen (ParentLink db entityName primaryKey parentTypeField) typeId parentTypeId ↔
      ∃ id, getString row parentTypeField = some id ∧
        ReflTransGen (ParentLink db entityName primaryKey parentTypeField) id parentTypeId := by
  rw [ReflTransGen.cases_head_iff, or_iff_right hne]
  exact exists_congr fun id => and_congr_left fun _ => h.parentLink_iff hrow

/-- **`isType` climbs to the type above.** -/
theorem returns_isType (hrow : IsRowOf db entityName primaryKey typeId row)
    (htarget : IsRowOf db entityName primaryKey parentTypeId targetType) :
    ∃ b, Returns (fun n => isType db n (some row) targetType) b ∧
      (b = true ↔ ReflTransGen (ParentLink db entityName primaryKey parentTypeField)
        typeId parentTypeId) := by
  -- the induction is on the types above
  induction (ParentLinks.wellFounded_flip_of_acyclic finite_parentLink hacyclic).apply typeId
    generalizing row with
  | intro typeId _ ih =>
  by_cases heq : typeId = parentTypeId
  · refine ⟨true, Returns.of_add 1 fun m => ?_, iff_of_true rfl (heq ▸ ReflTransGen.refl)⟩
    exact if_pos ((h.equals_iff hrow htarget).mpr heq)
  · have hequals := mt (h.equals_iff hrow htarget).mp heq
    obtain ⟨parentType, hparentType, hspec⟩ := h.exists_getParentType hrow.2.1
    have hstep : ∀ m, isType db (m + 1) (some row) targetType =
        isType db m parentType targetType := by
      intro m
      rw [isType, if_neg hequals, hparentType]
      rfl
    rw [h.above_iff hrow heq]
    cases parentType with
    | none =>
      refine ⟨false, (Returns.of_add 1 fun m => rfl).succ hstep, ?_⟩
      refine iff_of_false Bool.false_ne_true ?_
      rintro ⟨id, hparent, habove⟩
      obtain ⟨value, hvalue⟩ := exists_row_of_above habove htarget
      cases (hspec value).mpr ⟨id, hparent, hvalue⟩
    | some value =>
      obtain ⟨id, hparent, hvalue⟩ := (hspec value).mp rfl
      obtain ⟨b, hreturns, hiff⟩ := ih id ((h.parentLink_iff hrow).mpr hparent) hvalue
      refine ⟨b, hreturns.succ hstep, hiff.trans ⟨fun habove => ⟨id, hparent, habove⟩, ?_⟩⟩
      rintro ⟨id', hparent', habove⟩
      rw [hparent, Option.some.injEq] at hparent'
      rwa [hparent']

omit hacyclic in
theorem returns_hasParentType_of_forall_not
    (hnone : ∀ row, ¬IsRowOf db entityName primaryKey typeId row) {parentType : List Char} :
    Returns (hasParentType db entityName primaryKey parentTypeField parentType · typeId) false := by
  obtain ⟨found, hquery, hspec⟩ := h.exists_queryOne typeId
  cases found with
  | some value => exact absurd ((hspec value).mp rfl).2 (hnone value)
  | none =>
    refine Returns.of_add 1 fun m => ?_
    rw [hasParentType, hquery]
    rfl

/-- **`hasParentType` climbs to the identifier above.** -/
theorem returns_hasParentType (hnonempty : ∀ row, ¬IsRowOf db entityName primaryKey [] row)
    (hrow : IsRowOf db entityName primaryKey typeId row) (parentType : List Char) :
    ∃ b, Returns (hasParentType db entityName primaryKey parentTypeField parentType · typeId) b ∧
      (b = true ↔
        ReflTransGen (ParentLink db entityName primaryKey parentTypeField) typeId parentType) := by
  -- the induction is on the types above, of which an acyclic table has no endless chain
  induction (ParentLinks.wellFounded_flip_of_acyclic finite_parentLink hacyclic).apply typeId
    generalizing row with
  | intro typeId _ ih =>
  have hne : typeId ≠ [] := by
    rintro rfl
    exact hnonempty row hrow
  obtain ⟨found, hquery, hspec⟩ := h.exists_queryOne typeId
  obtain rfl := (hspec row).mpr ⟨hne, hrow⟩
  have hstep : ∀ m, hasParentType db entityName primaryKey parentTypeField parentType (m + 1) typeId
      = if getString row primaryKey = some parentType then .done true
        else
          match getString row parentTypeField with
          | none => .done false
          | some parentTypeId =>
            if parentType = parentTypeId then .done true
            else hasParentType db entityName primaryKey parentTypeField parentType m
              parentTypeId := by
    intro m
    rw [hasParentType, hquery]
    rfl
  by_cases heq : typeId = parentType
  · refine ⟨true, Returns.of_add 1 fun m => ?_, iff_of_true rfl (heq ▸ ReflTransGen.refl)⟩
    rw [hstep, if_pos (heq ▸ hrow.2.2)]
  · have hkey : getString row primaryKey ≠ some parentType := by
      rw [hrow.2.2]
      exact fun hsome => heq (Option.some.inj hsome)
    rw [h.above_iff hrow heq]
    cases hparent : getString row parentTypeField with
    | none =>
      refine ⟨false, Returns.of_add 1 fun m => ?_, iff_of_false Bool.false_ne_true ?_⟩
      · rw [hstep, if_neg hkey, hparent]
      · rintro ⟨id, hid, -⟩
        cases hid
    | some id =>
      -- the identifier of the parent is compared before its row is read
      by_cases hid : parentType = id
      · refine ⟨true, Returns.of_add 1 fun m => ?_, iff_of_true rfl ⟨id, rfl, ?_⟩⟩
        · rw [hstep, if_neg hkey, hparent]
          exact if_pos hid
        · rw [hid]
      · have hnext : ∀ m, hasParentType db entityName primaryKey parentTypeField parentType (m + 1)
            typeId = hasParentType db entityName primaryKey parentTypeField parentType m id := by
          intro m
          rw [hstep, if_neg hkey, hparent]
          exact if_neg hid
        by_cases hvalue : ∃ value, IsRowOf db entityName primaryKey id value
        · obtain ⟨value, hvalue⟩ := hvalue
          obtain ⟨b, hreturns, hiff⟩ := ih id ((h.parentLink_iff hrow).mpr hparent) hvalue
          refine ⟨b, hreturns.succ hnext, hiff.trans ⟨fun habove => ⟨id, rfl, habove⟩, ?_⟩⟩
          rintro ⟨id', hid', habove⟩
          rwa [Option.some.inj hid']
        · -- the parent names no row: nothing is above it
          refine ⟨false, (h.returns_hasParentType_of_forall_not fun value hv =>
            hvalue ⟨value, hv⟩).succ hnext, iff_of_false Bool.false_ne_true ?_⟩
          rintro ⟨id', hid', habove⟩
          obtain rfl := Option.some.inj hid'
          obtain hself | ⟨_, ⟨value, hmem, hentity, hvalueKey, -⟩, -⟩ := habove.cases_head
          · exact hid hself.symm
          · exact hvalue ⟨value, hmem, hentity, hvalueKey⟩

/-! ### Descending -/

omit h hacyclic in
theorem returns_addDescendants {walk : ℕ → GenericValue → Outcome (Option (List GenericValue))}
    {descendants : GenericValue → List GenericValue} {children : List GenericValue}
    (hwalk : ∀ child ∈ children, Returns (walk · child) (some (descendants child))) :
    Returns (fun n => addDescendants (walk n) children) (children.flatMap descendants) := by
  induction children with
  | nil => exact ⟨0, fun m _ => rfl⟩
  | cons child children ih =>
    rw [List.forall_mem_cons] at hwalk
    obtain ⟨n, hn⟩ := hwalk.1
    obtain ⟨k, hk⟩ := ih hwalk.2
    refine ⟨max n k, fun m hm => ?_⟩
    have hchild : walk m child = .done (some (descendants child)) :=
      hn m (Nat.le_trans (Nat.le_max_left n k) hm)
    have hrest : addDescendants (walk m) children = .done (children.flatMap descendants) :=
      hk m (Nat.le_trans (Nat.le_max_right n k) hm)
    change addDescendants (walk m) (child :: children) = _
    rw [addDescendants, hchild]
    change (addDescendants (walk m) children).bind _ = _
    rw [hrest]
    rfl

/-- **`getDescendantTypes` returns the types properly below, each once.** -/
theorem returns_getDescendantTypes (hrow : IsRowOf db entityName primaryKey typeId row) :
    ∃ types, Returns (fun n => getDescendantTypes db n row) (some types) ∧ types.Nodup ∧
      ∀ value, value ∈ types ↔ ∃ id, IsRowOf db entityName primaryKey id value ∧
        TransGen (ParentLink db entityName primaryKey parentTypeField) id typeId := by
  -- the induction is on the types below
  induction (ParentLinks.wellFounded_of_acyclic finite_parentLink hacyclic).apply typeId
    generalizing row with
  | intro typeId _ ih =>
  obtain ⟨children, hrelated, hsublist, hchild⟩ := h.exists_getRelated hrow
  have hlink : ∀ id child, IsRowOf db entityName primaryKey id child →
      (child ∈ children ↔
        ParentLink db entityName primaryKey parentTypeField id typeId) := by
    intro id child hrow'
    rw [h.parentLink_iff hrow', hchild, and_iff_right hrow'.1, and_iff_right hrow'.2.1]
  have hrows : ∀ child ∈ children, ∃ id, IsRowOf db entityName primaryKey id child ∧
      ParentLink db entityName primaryKey parentTypeField id typeId := by
    intro child hmem
    obtain ⟨hdb, hentity, -⟩ := (hchild child).mp hmem
    obtain ⟨id, hrow'⟩ := h.exists_isRowOf hdb hentity
    exact ⟨id, hrow', (hlink id child hrow').mp hmem⟩
  have hdescend : ∀ child, ∃ types, child ∈ children →
      Returns (fun n => getDescendantTypes db n child) (some types) ∧ types.Nodup ∧
        ∀ id, IsRowOf db entityName primaryKey id child → ∀ value, value ∈ types ↔
          ∃ id', IsRowOf db entityName primaryKey id' value ∧
            TransGen (ParentLink db entityName primaryKey parentTypeField) id' id := by
    intro child
    by_cases hmem : child ∈ children
    · obtain ⟨id, hrow', hlink'⟩ := hrows child hmem
      obtain ⟨types, hreturns, hnodup, htypes⟩ := ih id hlink' hrow'
      refine ⟨types, fun _ => ⟨hreturns, hnodup, fun id' hrow'' => ?_⟩⟩
      rwa [Option.some.inj (hrow''.2.2.symm.trans hrow'.2.2)]
    · exact ⟨[], fun h => absurd h hmem⟩
  choose descendants hdescendants using hdescend
  have hwalk := returns_addDescendants fun child hmem => (hdescendants child hmem).1
  refine ⟨children ++ children.flatMap descendants, ?_, ?_, fun value => ?_⟩
  · obtain ⟨n, hn⟩ := hwalk
    refine Returns.of_add (n + 1) fun m => ?_
    have hrelated' : orNull ((db.getRelated row ("Child".toList ++ row.entityName) []).map some) =
        .done (some children) := by
      rw [hrow.2.1, hrelated]
      rfl
    rw [← Nat.add_assoc, getDescendantTypes, hrelated']
    change (addDescendants (getDescendantTypes db (m + n)) children).bind _ = _
    have hloop : addDescendants (getDescendantTypes db (m + n)) children =
        .done (children.flatMap descendants) := hn (m + n) (Nat.le_add_left n m)
    rw [hloop]
    rfl
  · have hkey : ∀ child id, IsRowOf db entityName primaryKey id child →
        (getString child primaryKey).getD [] = id := by
      intro child id hrow'
      rw [hrow'.2.2, Option.getD_some]
    refine ParentLinks.nodup_descendants h.rightUnique_parentLink hacyclic
      (f := fun child => (getString child primaryKey).getD []) (p := typeId) ?_ ?_ ?_ ?_
    · intro child hmem
      obtain ⟨id, hrow', hlink'⟩ := hrows child hmem
      rwa [hkey child id hrow']
    · exact h.nodup_of_sublist hsublist fun child hmem => ((hchild child).mp hmem).2.1
    · intro child hmem child' hmem' heq
      obtain ⟨id, hrow', -⟩ := hrows child hmem
      obtain ⟨id', hrow'', -⟩ := hrows child' hmem'
      rw [hkey child id hrow', hkey child' id' hrow''] at heq
      exact h.eq_of_isRowOf hrow' (heq ▸ hrow'')
    · intro child hmem
      obtain ⟨id, hrow', -⟩ := hrows child hmem
      obtain ⟨-, hnodup, htypes⟩ := hdescendants child hmem
      refine ⟨hnodup, fun value hvalue => ?_⟩
      obtain ⟨id', hvalue', hbelow⟩ := (htypes id hrow' value).mp hvalue
      rwa [hkey child id hrow', hkey value id' hvalue']
  · rw [List.mem_append, List.mem_flatMap]
    constructor
    · rintro (hmem | ⟨child, hmem, hvalue⟩)
      · obtain ⟨id, hrow', hlink'⟩ := hrows value hmem
        exact ⟨id, hrow', TransGen.single hlink'⟩
      · obtain ⟨id, hrow', hlink'⟩ := hrows child hmem
        obtain ⟨id', hvalue', hbelow⟩ := ((hdescendants child hmem).2.2 id hrow' value).mp hvalue
        exact ⟨id', hvalue', hbelow.tail hlink'⟩
    · rintro ⟨id, hvalue, hbelow⟩
      obtain hlink' | ⟨id', hlink', hbelow'⟩ := ParentLinks.transGen_iff_child.mp hbelow
      · exact Or.inl ((hlink id value hvalue).mpr hlink')
      · have hlink'' := hlink'
        obtain ⟨child, hdb, hentity, hchildKey, -⟩ := hlink''
        have hrow' : IsRowOf db entityName primaryKey id' child := ⟨hdb, hentity, hchildKey⟩
        have hmem := (hlink id' child hrow').mpr hlink'
        exact Or.inr ⟨child, hmem,
          ((hdescendants child hmem).2.2 id' hrow' value).mpr ⟨id, hvalue, hbelow'⟩⟩

end TypeEntity

/-! ### Agreement -/

/-- **The three walks agree** in a hierarchy without cycles and without empty identifiers: all of
them end; the first two say that a type is another one or below it, and the third one returns the
types properly below, each once. -/
theorem walks_agree (h : TypeEntity db entityName primaryKey parentTypeField)
    (hacyclic : ∀ typeId,
      ¬TransGen (ParentLink db entityName primaryKey parentTypeField) typeId typeId)
    (hnonempty : ∀ row, ¬IsRowOf db entityName primaryKey [] row)
    (hrow : IsRowOf db entityName primaryKey typeId row)
    (htarget : IsRowOf db entityName primaryKey parentTypeId targetType) :
    (∃ b, Returns (fun n => isType db n (some row) targetType) b ∧
      (b = true ↔ ReflTransGen (ParentLink db entityName primaryKey parentTypeField)
        typeId parentTypeId)) ∧
    (∃ b, Returns
        (hasParentType db entityName primaryKey parentTypeField parentTypeId · typeId) b ∧
      (b = true ↔ ReflTransGen (ParentLink db entityName primaryKey parentTypeField)
        typeId parentTypeId)) ∧
    ∃ types, Returns (fun n => getDescendantTypes db n targetType) (some types) ∧ types.Nodup ∧
      ∀ value, value ∈ types ↔ ∃ id, IsRowOf db entityName primaryKey id value ∧
        TransGen (ParentLink db entityName primaryKey parentTypeField) id parentTypeId :=
  ⟨h.returns_isType hacyclic hrow htarget,
    h.returns_hasParentType hacyclic hnonempty hrow parentTypeId,
    h.returns_getDescendantTypes hacyclic htarget⟩

end TypeEntity

/-! ### Rows of `EnumerationType` -/

section EnumerationType

def enumerationTypeEntity : ModelEntity where
  allFieldNames := ["enumTypeId".toList, "parentTypeId".toList]
  pkFieldNames := ["enumTypeId".toList]
  isView := false
  relation name :=
    if name = "ParentEnumerationType".toList then
      some ⟨true, "EnumerationType".toList, [⟨"parentTypeId".toList, "enumTypeId".toList⟩]⟩
    else if name = "ChildEnumerationType".toList then
      some ⟨false, "EnumerationType".toList, [⟨"enumTypeId".toList, "parentTypeId".toList⟩]⟩
    else none

def enumerationType (enumTypeId : List Char) (parentTypeId : Option (List Char)) :
    GenericValue where
  entityName := "EnumerationType".toList
  fields name :=
    if name = "enumTypeId".toList then some (.string enumTypeId)
    else if name = "parentTypeId".toList then parentTypeId.map .string
    else none

theorem isLong_midnight : Decimal.IsLong 0 := by decide

def enumerationTypes (types : List (List Char × Option (List Char))) : Database where
  modelEntity entityName :=
    if entityName = "EnumerationType".toList then some enumerationTypeEntity else none
  rows := types.map fun type => enumerationType type.1 type.2
  nowTimestamp := .ofMillis 0 isLong_midnight

variable {types : List (List Char × Option (List Char))}

theorem getString_enumerationType (enumTypeId : List Char) (parentTypeId : Option (List Char)) :
    getString (enumerationType enumTypeId parentTypeId) "enumTypeId".toList = some enumTypeId ∧
      getString (enumerationType enumTypeId parentTypeId) "parentTypeId".toList = parentTypeId := by
  constructor
  · rfl
  · cases parentTypeId with
    | none => rfl
    | some id => rfl

theorem isRowOf_enumerationTypes {enumTypeId : List Char} {row : GenericValue} :
    IsRowOf (enumerationTypes types) "EnumerationType".toList "enumTypeId".toList enumTypeId row ↔
      ∃ parentTypeId, (enumTypeId, parentTypeId) ∈ types ∧
        row = enumerationType enumTypeId parentTypeId := by
  constructor
  · rintro ⟨hmem, -, hkey⟩
    obtain ⟨type, htype, rfl⟩ := List.mem_map.mp hmem
    rw [(getString_enumerationType type.1 type.2).1, Option.some.injEq] at hkey
    subst hkey
    exact ⟨type.2, htype, rfl⟩
  · rintro ⟨parentTypeId, hmem, rfl⟩
    exact ⟨List.mem_map.mpr ⟨_, hmem, rfl⟩, rfl, (getString_enumerationType _ _).1⟩

theorem typeEntity_enumerationTypes (htypes : types.Pairwise fun type type' => type.1 ≠ type'.1) :
    TypeEntity (enumerationTypes types) "EnumerationType".toList "enumTypeId".toList
      "parentTypeId".toList where
  model := ⟨enumerationTypeEntity, rfl, rfl, List.mem_cons_self, rfl, rfl⟩
  hasKey row hrow _ := by
    obtain ⟨type, -, rfl⟩ := List.mem_map.mp hrow
    exact ⟨type.1, rfl⟩
  hasParent row hrow _ value hvalue := by
    obtain ⟨type, -, rfl⟩ := List.mem_map.mp hrow
    obtain ⟨id, -, rfl⟩ := Option.map_eq_some_iff.mp hvalue
    exact ⟨id, rfl⟩
  unique := by
    refine List.pairwise_map.mpr (htypes.imp fun hne _ _ heq => hne ?_)
    exact Value.string.inj (Option.some.inj heq)

theorem acyclic_of_length (hlength : ∀ type ∈ types, ∀ parentTypeId, type.2 = some parentTypeId →
      type.1.length < parentTypeId.length) (typeId : List Char) :
    ¬TransGen (ParentLink (enumerationTypes types) "EnumerationType".toList "enumTypeId".toList
      "parentTypeId".toList) typeId typeId := by
  have hlt : ∀ {a b}, TransGen (ParentLink (enumerationTypes types) "EnumerationType".toList
      "enumTypeId".toList "parentTypeId".toList) a b → a.length < b.length := by
    intro a b hab
    have hlink : ∀ {a b}, ParentLink (enumerationTypes types) "EnumerationType".toList
        "enumTypeId".toList "parentTypeId".toList a b → a.length < b.length := by
      rintro a b ⟨row, hmem, -, hkey, hparent⟩
      obtain ⟨type, htype, rfl⟩ := List.mem_map.mp hmem
      rw [(getString_enumerationType type.1 type.2).1, Option.some.injEq] at hkey
      rw [(getString_enumerationType type.1 type.2).2] at hparent
      exact hkey ▸ hlength type htype b hparent
    induction hab with
    | single h => exact hlink h
    | tail _ h ih => exact Nat.lt_trans ih (hlink h)
  exact fun h => Nat.lt_irrefl _ (hlt h)

theorem walks_agree_sub :
    let types : List (List Char × Option (List Char)) :=
      [("ROOT".toList, none), ("SUB".toList, some "ROOT".toList)]
    let db := enumerationTypes types
    let row := enumerationType "SUB".toList (some "ROOT".toList)
    let targetType := enumerationType "ROOT".toList none
    let Above := ReflTransGen (ParentLink db "EnumerationType".toList "enumTypeId".toList
      "parentTypeId".toList)
    (∃ b, Returns (fun n => isType db n (some row) targetType) b ∧
      (b = true ↔ Above "SUB".toList "ROOT".toList)) ∧
    (∃ b, Returns (hasParentType db "EnumerationType".toList "enumTypeId".toList
        "parentTypeId".toList "ROOT".toList · "SUB".toList) b ∧
      (b = true ↔ Above "SUB".toList "ROOT".toList)) ∧
    ∃ types, Returns (fun n => getDescendantTypes db n targetType) (some types) ∧ types.Nodup ∧
      ∀ value, value ∈ types ↔ ∃ id,
        IsRowOf db "EnumerationType".toList "enumTypeId".toList id value ∧
        TransGen (ParentLink db "EnumerationType".toList "enumTypeId".toList
          "parentTypeId".toList) id "ROOT".toList := by
  intro types db row targetType Above
  refine walks_agree (typeEntity_enumerationTypes ?_) (acyclic_of_length ?_) ?_
    (isRowOf_enumerationTypes.mpr ⟨some "ROOT".toList, ?_, rfl⟩)
    (isRowOf_enumerationTypes.mpr ⟨none, ?_, rfl⟩)
  · decide
  · decide
  · intro row hrow
    obtain ⟨parentTypeId, hmem, -⟩ := isRowOf_enumerationTypes.mp hrow
    revert hmem
    simp [types]
  · decide
  · decide

/-- A type whose identifier is the empty string: it is of itself, but does not have itself as a
parent type, and no identifier is above another one. -/
theorem walks_differ_emptyId :
    let db := enumerationTypes [([], none)]
    let row := enumerationType [] none
    TypeEntity db "EnumerationType".toList "enumTypeId".toList "parentTypeId".toList ∧
    (∀ typeId, ¬TransGen (ParentLink db "EnumerationType".toList "enumTypeId".toList
      "parentTypeId".toList) typeId typeId) ∧
    IsRowOf db "EnumerationType".toList "enumTypeId".toList [] row ∧
    Returns (fun n => isType db n (some row) row) true ∧
    Returns (hasParentType db "EnumerationType".toList "enumTypeId".toList
      "parentTypeId".toList [] · []) false := by
  intro db row
  refine ⟨typeEntity_enumerationTypes (List.pairwise_singleton _ _), acyclic_of_length ?_,
    isRowOf_enumerationTypes.mpr ⟨none, List.mem_cons_self, rfl⟩, Returns.of_add 1 fun m => ?_,
    Returns.of_add 1 fun m => ?_⟩
  · intro type htype id hid
    rw [List.mem_singleton] at htype
    subst htype
    cases hid
  · exact if_pos rfl
  · rfl

end EnumerationType

end OfficeAuto.Entity.EntityTypeUtil
