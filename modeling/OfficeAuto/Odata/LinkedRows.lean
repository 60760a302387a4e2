import OfficeAuto.Odata.RelationLink
import Mathlib.Data.List.Pairwise

/-!
# Linked rows

A row is linked to a destination if it leads there by the relations of a chain, through rows of the
database. Where rows have unique keys, a destination is in the composition of the chain then, and
links stay as the database grows.

For a service that creates rows it is assumed that the row of its key has the values of the
parameters then, and that what was there is kept.
-/

namespace OfficeAuto.Odata.Relations

open Entity

/-! ### Linked rows -/

def Database.WellKeyed (db : Database) : Prop :=
  ∀ modelEntity row row', row ∈ db.rows → row' ∈ db.rows → row.entityName = row'.entityName →
    db.modelEntity row.entityName = some modelEntity →
    (∀ pkFieldName ∈ modelEntity.pkFieldNames, row.fields pkFieldName = row'.fields pkFieldName) →
    row = row'

def Database.sameKey (db : Database) (row row' : GenericValue) : Bool :=
  row.entityName = row'.entityName && (db.modelEntity row.entityName).any fun modelEntity =>
    modelEntity.pkFieldNames.all fun pkFieldName =>
      row.fields pkFieldName = row'.fields pkFieldName

theorem Database.sameKey_comm (db : Database) (row row' : GenericValue) :
    db.sameKey row row' = db.sameKey row' row := by
  unfold Database.sameKey
  by_cases hname : row.entityName = row'.entityName
  · rw [hname]
    simp only [eq_comm]
  · rw [decide_eq_false hname, decide_eq_false (Ne.symm hname), Bool.false_and, Bool.false_and]

theorem Database.wellKeyed_of_pairwise {db : Database}
    (h : db.rows.Pairwise fun row row' => db.sameKey row row' = false) : db.WellKeyed := by
  intro modelEntity row row' hrow hrow' hname hmodel hpks
  by_contra hne
  have hsymm : Std.Symm fun row row' => db.sameKey row row' = false :=
    ⟨fun row row' hkey => (db.sameKey_comm row' row).trans hkey⟩
  have hkey := h.forall hrow hrow' hne
  rw [Database.sameKey, decide_eq_true hname, hmodel, Option.any_some, Bool.true_and,
    List.all_eq_false] at hkey
  obtain ⟨pkFieldName, hpk, hfield⟩ := hkey
  exact hfield (decide_eq_true (hpks pkFieldName hpk))

/-- The models, the time and the rows are kept. -/
structure Database.Extends (db db' : Database) : Prop where
  modelEntity : db'.modelEntity = db.modelEntity
  nowTimestamp : db'.nowTimestamp = db.nowTimestamp
  rows : ∀ row ∈ db.rows, row ∈ db'.rows

def Database.LeadsByKey (db : Database) (modelRelation : ModelRelation) : Prop :=
  ∃ modelEntity, db.modelEntity modelRelation.relEntityName = some modelEntity ∧
    ∀ pkFieldName ∈ modelEntity.pkFieldNames,
      ∃ keyMap ∈ modelRelation.keyMaps, keyMap.relFieldName = pkFieldName

section Linked

variable (db : Database) (relAlias : EntityTypeRelAlias) (filterByDate : Bool)

/-- What the lookup asks of a row besides the key: for a relation with one row, that the key
determines it; for one with many, the conditions of the alias and the validity. -/
structure Meets (relation : RelationName) (modelRelation : ModelRelation) (row : GenericValue) :
    Prop where
  leadsByKey : modelRelation.isOne = true → db.LeadsByKey modelRelation
  conditions : modelRelation.isOne = false → ∀ field ∈ relAlias.relationsFieldMap relation,
    (∀ keyMap ∈ modelRelation.keyMaps, keyMap.relFieldName ≠ field.1) →
    row.fields field.1 = field.2
  valid : modelRelation.isOne = false → filterByDate = true → row.isActive db.nowTimestamp = true

/-- A row leads to another one by a relation. -/
structure Links (row : GenericValue) (relation : RelationName) (modelRelation : ModelRelation)
    (next : GenericValue) : Prop where
  getRelation : db.getRelation row relation = some modelRelation
  entityName : next.entityName = modelRelation.relEntityName
  keys : ∀ keyMap ∈ modelRelation.keyMaps,
    next.fields keyMap.relFieldName = row.fields keyMap.fieldName
  meets : Meets db relAlias filterByDate relation modelRelation next

def LinkedBy : List RelationName → GenericValue → GenericValue → Prop
  | [], row, dest => row = dest
  | relation :: relations, row, dest => ∃ modelRelation, ∃ next ∈ db.rows,
    Links db relAlias filterByDate row relation modelRelation next ∧
      LinkedBy relations next dest

def Finds (row dest : GenericValue) : Prop :=
  ∃ rows, getRelatedGenericValues db relAlias filterByDate row = .ok (some rows) ∧ dest ∈ rows

end Linked

section LinkedProofs

variable {db db' : Database} {relAlias : EntityTypeRelAlias} {filterByDate : Bool}
  {row next dest : GenericValue} {relation : RelationName} {relations : List RelationName}
  {modelRelation : ModelRelation}

theorem Links.hasFields (h : Links db relAlias filterByDate row relation modelRelation next) :
    next.hasFields modelRelation.relEntityName (Database.keyFields row modelRelation) = true := by
  simp only [GenericValue.hasFields, Database.keyFields, Bool.and_eq_true, decide_eq_true_eq,
    List.all_map, List.all_eq_true, Function.comp_apply]
  exact ⟨h.entityName, h.keys⟩

theorem eq_of_leadsByKey (hdb : db.WellKeyed) (hkey : db.LeadsByKey modelRelation)
    {found : GenericValue} (hfound : found ∈ db.rows) (hnext : next ∈ db.rows)
    (hfields : found.hasFields modelRelation.relEntityName
      (Database.keyFields row modelRelation) = true)
    (hfields' : next.hasFields modelRelation.relEntityName
      (Database.keyFields row modelRelation) = true) : found = next := by
  simp only [GenericValue.hasFields, Database.keyFields, Bool.and_eq_true, decide_eq_true_eq,
    List.all_map, List.all_eq_true, Function.comp_apply] at hfields hfields'
  obtain ⟨modelEntity, hmodel, hpks⟩ := hkey
  refine hdb modelEntity found next hfound hnext (hfields.1.trans hfields'.1.symm)
    (by rw [hfields.1, hmodel]) fun pkFieldName hpk => ?_
  obtain ⟨keyMap, hkeyMap, rfl⟩ := hpks pkFieldName hpk
  exact (hfields.2 keyMap hkeyMap).trans (hfields'.2 keyMap hkeyMap).symm

theorem Links.mem_related (hdb : db.WellKeyed) (hnext : next ∈ db.rows)
    (h : Links db relAlias filterByDate row relation modelRelation next) :
    next ∈ related db relAlias filterByDate row relation := by
  unfold related
  rw [h.getRelation]
  dsimp only
  have hfields := h.hasFields
  cases hone : modelRelation.isOne with
  | true =>
    rw [if_pos rfl, Option.mem_toList]
    have hsome : (db.rows.find? fun found => found.hasFields modelRelation.relEntityName
        (Database.keyFields row modelRelation)).isSome = true :=
      List.find?_isSome.mpr ⟨next, hnext, hfields⟩
    obtain ⟨found, hfound⟩ := Option.isSome_iff_exists.mp hsome
    have hmem := List.mem_of_find?_eq_some hfound
    have hkey := List.find?_some hfound
    rw [eq_of_leadsByKey hdb (h.meets.leadsByKey hone) hmem hnext hkey hfields] at hfound
    exact hfound
  | false =>
    rw [if_neg Bool.false_ne_true]
    refine List.mem_filter.mpr ⟨List.mem_filter.mpr ⟨hnext, ?_⟩, ?_⟩
    · simp only [GenericValue.hasFields, Bool.and_eq_true, decide_eq_true_eq] at hfields ⊢
      refine ⟨hfields.1, ?_⟩
      rw [Database.overridden, List.all_append, Bool.and_eq_true]
      refine ⟨List.all_eq_true.mpr fun field hfield => ?_, hfields.2⟩
      obtain ⟨hfield, hover⟩ := List.mem_filter.mp hfield
      refine decide_eq_true (h.meets.conditions hone field hfield fun keyMap hkeyMap heq => ?_)
      rw [Bool.not_eq_true', List.any_eq_false] at hover
      exact hover (keyMap.relFieldName, row.fields keyMap.fieldName)
        (List.mem_map.mpr ⟨keyMap, hkeyMap, rfl⟩) (decide_eq_true heq)
    · cases filterByDate with
      | false => rfl
      | true => exact h.meets.valid hone rfl

theorem LinkedBy.mem_composition (hdb : db.WellKeyed)
    (h : LinkedBy db relAlias filterByDate relations row dest) :
    dest ∈ composition db relAlias filterByDate relations row := by
  induction relations generalizing row with
  | nil => exact List.mem_singleton.mpr (Eq.symm h)
  | cons relation relations ih =>
    obtain ⟨modelRelation, next, hnext, hlinks, hlinked⟩ := h
    exact List.mem_flatMap.mpr ⟨next, hlinks.mem_related hdb hnext, ih hlinked⟩

/-! Links stay as the database grows. -/

theorem Database.LeadsByKey.mono (hmodels : db'.modelEntity = db.modelEntity)
    (h : db.LeadsByKey modelRelation) : db'.LeadsByKey modelRelation := by
  unfold Database.LeadsByKey
  rw [hmodels]
  exact h

theorem Meets.mono (hmodels : db'.modelEntity = db.modelEntity)
    (hnow : db'.nowTimestamp = db.nowTimestamp)
    (h : Meets db relAlias filterByDate relation modelRelation row) :
    Meets db' relAlias filterByDate relation modelRelation row where
  leadsByKey hone := (h.leadsByKey hone).mono hmodels
  conditions := h.conditions
  valid hone hfilter := hnow ▸ h.valid hone hfilter

theorem Links.mono (hext : db.Extends db')
    (h : Links db relAlias filterByDate row relation modelRelation next) :
    Links db' relAlias filterByDate row relation modelRelation next where
  getRelation := by
    rw [Database.getRelation, hext.modelEntity]
    exact h.getRelation
  entityName := h.entityName
  keys := h.keys
  meets := h.meets.mono hext.modelEntity hext.nowTimestamp

theorem LinkedBy.mono (hext : db.Extends db')
    (h : LinkedBy db relAlias filterByDate relations row dest) :
    LinkedBy db' relAlias filterByDate relations row dest := by
  induction relations generalizing row with
  | nil => exact h
  | cons relation relations ih =>
    obtain ⟨modelRelation, next, hnext, hlinks, hlinked⟩ := h
    exact ⟨modelRelation, next, hext.rows next hnext, hlinks.mono hext, ih hlinked⟩

theorem LinkedBy.finds_iff (hdb : db.WellKeyed)
    (h : LinkedBy db relAlias filterByDate relAlias.relations row dest) :
    Finds db relAlias filterByDate row dest ↔
      Branches db relAlias filterByDate relAlias.relations row := by
  have hmem := h.mem_composition hdb
  simp only [Finds, getRelatedGenericValues, getGenericValuesFromRelations_eq_ok_iff]
  constructor
  · rintro ⟨rows, ⟨hbranches, -⟩, -⟩
    exact hbranches
  · intro hbranches
    refine ⟨_, ⟨hbranches, (nullIfEmpty_of_ne_nil fun hnil => ?_).symm⟩, hmem⟩
    rw [hnil] at hmem
    cases hmem

end LinkedProofs

/-! ### What the services do -/

def Database.isField (db : Database) (entityName : EntityName) (name : FieldName) : Bool :=
  (db.modelEntity entityName).any fun modelEntity => modelEntity.allFieldNames.contains name

/-- A row has the values of the parameters, for the fields of its entity. -/
def Database.Carries (db : Database) (entityName : EntityName) (params : ParamMap)
    (row : GenericValue) : Prop :=
  ∀ name value, db.isField entityName name = true → params name = some (some value) →
    row.fields name = some value

/-- A service creates a row of an entity: the row of its key is there with the values of the
parameters, and what was there is kept. -/
structure ModelService.Creates (service : ModelService) (entityName : EntityName) : Prop where
  keeps : ∀ params db result db', service.runSync params db = .ok (result, db') → db.Extends db'
  wellKeyed : ∀ params db result db', service.runSync params db = .ok (result, db') →
    db.WellKeyed → db'.WellKeyed
  created : ∀ params db result db' pkMap, service.runSync params db = .ok (result, db') →
    retrievePkMap db' params result entityName = .ok pkMap →
    ∃ row ∈ db'.rows, row.hasFields entityName pkMap = true
  carries : ∀ params db result db' pkMap, service.runSync params db = .ok (result, db') →
    retrievePkMap db' params result entityName = .ok pkMap →
    ∀ row ∈ db'.rows, row.hasFields entityName pkMap = true → db'.Carries entityName params row

/-- A row that a round has for its parameters. -/
structure Obtained (db db' : Database) (entityName : EntityName) (params : ParamMap)
    (row : GenericValue) : Prop where
  keeps : db.Extends db'
  wellKeyed : db.WellKeyed → db'.WellKeyed
  mem : row ∈ db'.rows
  ofEntity : row.entityName = entityName
  carries : db'.Carries entityName params row

section Services

variable {db db' : Database} {service : ModelService} {entityName : EntityName}
  {params : ParamMap} {found : Option GenericValue} {reuse : Bool}

theorem Database.extends_refl (db : Database) : db.Extends db where
  modelEntity := rfl
  nowTimestamp := rfl
  rows _ h := h

theorem mem_of_findOne {fields : FieldMap} {row : GenericValue}
    (h : db.findOne entityName fields = .ok (some row)) :
    row ∈ db.rows ∧ row.hasFields entityName fields = true := by
  have hfound := (findOne_eq h).symm
  have hfields := List.find?_some hfound
  exact ⟨List.mem_of_find?_eq_some hfound, hfields⟩

theorem entityName_of_hasFields {fields : FieldMap} {row : GenericValue}
    (h : row.hasFields entityName fields = true) : row.entityName = entityName := by
  rw [GenericValue.hasFields, Bool.and_eq_true, decide_eq_true_eq] at h
  exact h.1

theorem findExisting_mem {row : GenericValue}
    (h : findExisting db entityName params = .ok (some row)) :
    row ∈ db.rows ∧ row.entityName = entityName := by
  unfold findExisting at h
  split at h
  · cases h
  · split_ifs at h
    · cases h
    obtain ⟨hmem, hfields⟩ := mem_of_findOne (Except.mapError_eq_ok.mp h)
    exact ⟨hmem, entityName_of_hasFields hfields⟩

theorem createGenericValue_obtained (hservice : service.Creates entityName)
    (h : service.createGenericValue entityName params db = .ok (found, db')) :
    ∃ row, found = some row ∧ Obtained db db' entityName params row := by
  obtain ⟨⟨result, db₁⟩, hrun, h⟩ := Except.bind_eq_ok.mp h
  obtain ⟨pkMap, hpk, h⟩ := Except.bind_eq_ok.mp h
  obtain ⟨found', hfind, hpair⟩ := Except.map_eq_ok.mp h
  cases hpair
  rw [Except.mapError_eq_ok] at hfind
  obtain ⟨row, hrow, hfields⟩ := hservice.created params db result db' pkMap hrun hpk
  cases found with
  | none => exact absurd hfields (List.find?_eq_none.mp (findOne_eq hfind).symm row hrow)
  | some row =>
    obtain ⟨hmem, hkey⟩ := mem_of_findOne hfind
    exact ⟨row, rfl, hservice.keeps _ _ _ _ hrun, hservice.wellKeyed _ _ _ _ hrun, hmem,
      entityName_of_hasFields hkey, hservice.carries _ _ _ _ _ hrun hpk row hmem hkey⟩

theorem obtainRow_obtained (hservice : service.Creates entityName)
    (hexisting : reuse = true → ∀ row, findExisting db entityName params = .ok (some row) →
      db.Carries entityName params row)
    (h : obtainRow reuse service entityName params db = .ok (found, db')) :
    ∃ row, found = some row ∧ Obtained db db' entityName params row := by
  unfold obtainRow at h
  cases reuse with
  | false => exact createGenericValue_obtained hservice h
  | true =>
    rw [if_pos rfl] at h
    obtain ⟨existGenericValue, hexist, h⟩ := Except.bind_eq_ok.mp h
    cases existGenericValue with
    | none => exact createGenericValue_obtained hservice h
    | some row =>
      cases h
      obtain ⟨hmem, hname⟩ := findExisting_mem hexist
      exact ⟨row, rfl, db.extends_refl, id, hmem, hname, hexisting rfl row hexist⟩

end Services

/-! ### What is put -/

def Agrees (fields : FieldMap) (field : FieldName × Option Value) : Prop :=
  ∀ put ∈ fields, put.1 = field.1 → put.2 = field.2

section Put

variable {map : ParamMap} {fields : FieldMap} {field : FieldName × Option Value}

theorem putAll_eq_some (hput : map field.1 = some field.2 ∨ field ∈ fields)
    (hagrees : Agrees fields field) : putAll map fields field.1 = some field.2 := by
  induction fields generalizing map with
  | nil =>
    obtain hput | hput := hput
    · exact hput
    · cases hput
  | cons put fields ih =>
    rw [putAll, List.foldl_cons]
    refine ih ?_ fun put' hput' => hagrees put' (List.mem_cons_of_mem _ hput')
    by_cases hname : put.1 = field.1
    · left
      rw [hname, Function.update_self, hagrees put List.mem_cons_self hname]
    · obtain hput | hput := hput
      · left
        rw [Function.update_of_ne (Ne.symm hname)]
        exact hput
      · right
        obtain rfl | hput := List.mem_cons.mp hput
        · exact absurd rfl hname
        · exact hput

theorem agrees_of_forall_ne (h : ∀ put ∈ fields, put.1 ≠ field.1) : Agrees fields field :=
  fun put hput hname => absurd hname (h put hput)

theorem mem_relationPossibleKeyMap {source : GenericValue}
    {names : List (FieldName × FieldName)} :
    field ∈ relationPossibleKeyMap source names ↔
      ∃ name ∈ names, ∃ value, source.fields name.1 = some value ∧
        (name.2, some value) = field := by
  simp only [relationPossibleKeyMap, List.mem_filterMap, Option.map_eq_some_iff]

theorem mem_mainKeys {genericValue : GenericValue} {modelRelation : ModelRelation}
    {keyMap : ModelKeyMap} (hkeyMap : keyMap ∈ modelRelation.keyMaps)
    (hvalue : genericValue.fields keyMap.fieldName ≠ none) :
    (keyMap.relFieldName, genericValue.fields keyMap.fieldName) ∈
      mainKeys genericValue modelRelation := by
  obtain ⟨value, hvalue⟩ := Option.ne_none_iff_exists'.mp hvalue
  rw [hvalue]
  exact mem_relationPossibleKeyMap.mpr
    ⟨_, List.mem_map.mpr ⟨keyMap, hkeyMap, rfl⟩, value, hvalue, rfl⟩

theorem exists_keyMap_of_mem_mainKeys {genericValue : GenericValue}
    {modelRelation : ModelRelation} (h : field ∈ mainKeys genericValue modelRelation) :
    ∃ keyMap ∈ modelRelation.keyMaps, keyMap.relFieldName = field.1 := by
  obtain ⟨name, hname, value, -, rfl⟩ := mem_relationPossibleKeyMap.mp h
  obtain ⟨keyMap, hkeyMap, rfl⟩ := List.mem_map.mp hname
  exact ⟨keyMap, hkeyMap, rfl⟩

theorem mem_keysToNext {state : LinkState} {created : GenericValue}
    {nextModelRelation : ModelRelation} {keyMap : ModelKeyMap}
    (hnext : state.nextModelRelation = some nextModelRelation)
    (hcreated : state.createdGenericValue = some created)
    (hkeyMap : keyMap ∈ nextModelRelation.keyMaps)
    (hvalue : created.fields keyMap.relFieldName ≠ none) :
    (keyMap.fieldName, created.fields keyMap.relFieldName) ∈ state.keysToNext := by
  obtain ⟨value, hvalue⟩ := Option.ne_none_iff_exists'.mp hvalue
  rw [LinkState.keysToNext, hnext, hcreated, hvalue]
  exact mem_relationPossibleKeyMap.mpr
    ⟨_, List.mem_map.mpr ⟨keyMap, hkeyMap, rfl⟩, value, hvalue, rfl⟩

end Put

end OfficeAuto.Odata.Relations
