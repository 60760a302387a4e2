import OfficeAuto.Odata.RelationStore

/-!
# Rows along a chain of relations

`getGenericValuesFromRelations` follows a chain of relations from a row. What it is to return is the
`composition` of the chain: for each row that the first relation leads to the rows that the rest of
the chain leads to from there, one after the other.

The code returns null where a relation leads to no row. Above a relation with one row, null is
passed on; above one with many, it is added to a list, and this throws. So the code returns the
composition exactly if no read throws, and every row that a relation with many leads to has rows at
the end of the chain (`getGenericValuesFromRelations_eq_ok_iff`).
-/

namespace OfficeAuto.Odata.Relations

/-! ### The code -/

section Code

variable (db : Database) (relAlias : EntityTypeRelAlias) (filterByDate : Bool)

def Database.isView (entityName : EntityName) : Bool :=
  (db.modelEntity entityName).any fun modelEntity => modelEntity.isView

def relatedRow (genericValue : GenericValue) (relation : RelationName)
    (modelRelation : ModelRelation) : Except EntityException (Option GenericValue) :=
  if db.isView modelRelation.relEntityName then
    (db.getRelated genericValue relation []).map List.head?
  else db.getRelatedOne genericValue relation

def relatedRows (genericValue : GenericValue) (relation : RelationName) :
    Except EntityException (List GenericValue) :=
  (db.getRelated genericValue relation (relAlias.relationsFieldMap relation)).bind fun rows =>
    if filterByDate then db.filterByDate rows else .ok rows

/-- `result.addAll`, which does not take null. -/
def addAllTo : Option (List GenericValue) → Except EntityException (List GenericValue)
  | none => .error .nullPointer
  | some rows => .ok rows

def getGenericValuesFromRelations :
    List RelationName → GenericValue → Except EntityException (Option (List GenericValue))
  | [], _ => .error .indexOutOfBounds
  | relation :: relations, genericValue =>
    match db.getRelation genericValue relation with
    | none => .error .nullPointer
    | some modelRelation =>
      if modelRelation.isOne then
        match relatedRow db genericValue relation modelRelation with
        | .error e => .error e
        | .ok none => .ok none
        | .ok (some relGenericValue) =>
          if relations.isEmpty then .ok (some [relGenericValue])
          else getGenericValuesFromRelations relations relGenericValue
      else
        match relatedRows db relAlias filterByDate genericValue relation with
        | .error e => .error e
        | .ok [] => .ok none
        | .ok (first :: rest) =>
          if relations.isEmpty then .ok (some (first :: rest))
          else
            ((first :: rest).mapM fun relGenericValue =>
              (getGenericValuesFromRelations relations relGenericValue).bind addAllTo).map
                fun results => some results.flatten

def getRelatedGenericValues (genericValue : GenericValue) :
    Except EntityException (Option (List GenericValue)) :=
  getGenericValuesFromRelations db relAlias filterByDate relAlias.relations genericValue

end Code

/-! ### The composition -/

section Composition

variable (db : Database) (relAlias : EntityTypeRelAlias) (filterByDate : Bool)

/-- The rows that a relation leads to: those with the values of the key maps; for a relation with
many, those that meet the conditions of the alias too, and are valid if this is asked for. -/
def related (genericValue : GenericValue) (relation : RelationName) : List GenericValue :=
  match db.getRelation genericValue relation with
  | none => []
  | some modelRelation =>
    if modelRelation.isOne then
      (db.rows.find? fun row => row.hasFields modelRelation.relEntityName
        (Database.keyFields genericValue modelRelation)).toList
    else
      (db.rows.filter fun row => row.hasFields modelRelation.relEntityName
        (Database.overridden (relAlias.relationsFieldMap relation)
          (Database.keyFields genericValue modelRelation))).filter fun row =>
            !filterByDate || row.isActive db.nowTimestamp

/-- **The composition of a chain** from a row. -/
def composition : List RelationName → GenericValue → List GenericValue
  | [], genericValue => [genericValue]
  | relation :: relations, genericValue =>
    (related db relAlias filterByDate genericValue relation).flatMap (composition relations)

def readRelation (genericValue : GenericValue) (relation : RelationName) :
    Except EntityException (List GenericValue) :=
  match db.getRelation genericValue relation with
  | none => .error .nullPointer
  | some modelRelation =>
    if modelRelation.isOne then
      (relatedRow db genericValue relation modelRelation).map Option.toList
    else relatedRows db relAlias filterByDate genericValue relation

def Database.leadsToOne (genericValue : GenericValue) (relation : RelationName) : Bool :=
  (db.getRelation genericValue relation).any fun modelRelation => modelRelation.isOne

/-- No read along the chain throws, and every row that a relation with many rows leads to has rows
at the end of the chain. -/
def Branches : List RelationName → GenericValue → Prop
  | [], _ => False
  | relation :: relations, genericValue =>
    (∃ rows, readRelation db relAlias filterByDate genericValue relation = .ok rows) ∧
    (relations ≠ [] →
      ∀ row ∈ related db relAlias filterByDate genericValue relation, Branches relations row ∧
        (db.leadsToOne genericValue relation = false →
          composition db relAlias filterByDate relations row ≠ []))

end Composition

section Proofs

variable {db : Database} {relAlias : EntityTypeRelAlias} {filterByDate : Bool}
  {genericValue : GenericValue} {relation : RelationName} {relations : List RelationName}
  {modelRelation : ModelRelation} {rows : List GenericValue}

/-! ### Reads -/

theorem getRelated_eq (h : db.getRelation genericValue relation = some modelRelation)
    (byAndFields : FieldMap) :
    db.getRelated genericValue relation byAndFields = .ok (db.rows.filter fun row =>
      row.hasFields modelRelation.relEntityName
        (Database.overridden byAndFields (Database.keyFields genericValue modelRelation))) := by
  rw [Database.getRelated, h]

theorem findOne_eq {entityName : EntityName} {fields : FieldMap} {found : Option GenericValue}
    (h : db.findOne entityName fields = .ok found) :
    found = db.rows.find? fun row => row.hasFields entityName fields := by
  unfold Database.findOne at h
  split at h
  · cases h
  · split_ifs at h
    exact (Except.ok.inj h).symm

theorem relatedRow_eq {found : Option GenericValue}
    (h : db.getRelation genericValue relation = some modelRelation)
    (hrow : relatedRow db genericValue relation modelRelation = .ok found) :
    found = db.rows.find? fun row => row.hasFields modelRelation.relEntityName
      (Database.keyFields genericValue modelRelation) := by
  unfold relatedRow at hrow
  split_ifs at hrow with hview
  · rw [getRelated_eq h, Except.map] at hrow
    rw [← Except.ok.inj hrow, List.head?_filter]
    rfl
  · unfold Database.getRelatedOne at hrow
    rw [h] at hrow
    dsimp only at hrow
    split_ifs at hrow
    exact findOne_eq hrow

theorem filterByDate_eq {active : List GenericValue} (h : db.filterByDate rows = .ok active) :
    active = rows.filter fun row => row.isActive db.nowTimestamp := by
  unfold Database.filterByDate at h
  split at h
  · cases h
    rfl
  · split_ifs at h
    exact (Except.ok.inj h).symm

theorem readRelation_eq
    (h : readRelation db relAlias filterByDate genericValue relation = .ok rows) :
    rows = related db relAlias filterByDate genericValue relation := by
  unfold readRelation at h
  unfold related
  cases hrelation : db.getRelation genericValue relation with
  | none =>
    rw [hrelation] at h
    cases h
  | some modelRelation =>
    rw [hrelation] at h
    dsimp only at h ⊢
    split_ifs at h ⊢ with hone
    · obtain ⟨found, hfound, rfl⟩ := Except.map_eq_ok.mp h
      rw [relatedRow_eq hrelation hfound]
    · unfold relatedRows at h
      rw [getRelated_eq hrelation] at h
      dsimp only [Except.bind] at h
      cases filterByDate with
      | true => exact filterByDate_eq h
      | false =>
        rw [← Except.ok.inj h]
        simp

/-! ### The result -/

def nullIfEmpty : List GenericValue → Option (List GenericValue)
  | [] => none
  | row :: rows => some (row :: rows)

theorem nullIfEmpty_of_ne_nil (h : rows ≠ []) : nullIfEmpty rows = some rows := by
  cases rows with
  | nil => exact absurd rfl h
  | cons row rows => rfl

theorem getD_nullIfEmpty (rows : List GenericValue) : (nullIfEmpty rows).getD [] = rows := by
  cases rows with
  | nil => rfl
  | cons row rows => rfl

theorem some_eq_nullIfEmpty {found : List GenericValue} :
    some found = nullIfEmpty rows ↔ rows ≠ [] ∧ found = rows := by
  cases rows with
  | nil => exact iff_of_false (fun h => by cases h) fun h => h.1 rfl
  | cons row rows => simp [nullIfEmpty]

theorem addAllTo_eq_ok {result : Option (List GenericValue)} :
    addAllTo result = .ok rows ↔ result = some rows := by
  cases result with
  | none => exact iff_of_false (fun h => by cases h) fun h => by cases h
  | some found => simp [addAllTo]

theorem bind_addAllTo {x : Except EntityException (Option (List GenericValue))} :
    x.bind addAllTo = .ok rows ↔ x = .ok (some rows) := by
  cases x with
  | error e => exact iff_of_false (fun h => by cases h) fun h => by cases h
  | ok result =>
    rw [Except.bind, addAllTo_eq_ok]
    simp

theorem forall₂_composition {compose : GenericValue → List GenericValue}
    {fits : GenericValue → Prop} {results : List (List GenericValue)} :
    List.Forall₂ (fun row result => fits row ∧ some result = nullIfEmpty (compose row)) rows
        results ↔
      (∀ row ∈ rows, fits row ∧ compose row ≠ []) ∧ results = rows.map compose := by
  induction rows generalizing results with
  | nil => simp
  | cons row rows ih =>
    rw [List.forall₂_cons_left_iff, List.forall_mem_cons, List.map_cons]
    constructor
    · rintro ⟨result, results, ⟨hfits, hresult⟩, hrows, rfl⟩
      obtain ⟨hne, rfl⟩ := some_eq_nullIfEmpty.mp hresult
      obtain ⟨hall, rfl⟩ := ih.mp hrows
      exact ⟨⟨⟨hfits, hne⟩, hall⟩, rfl⟩
    · rintro ⟨⟨⟨hfits, hne⟩, hrows⟩, rfl⟩
      exact ⟨_, _, ⟨hfits, some_eq_nullIfEmpty.mpr ⟨hne, rfl⟩⟩, ih.mpr ⟨hrows, rfl⟩, rfl⟩

/-- **The lookup returns the composition** of the chain, with null for no rows, and it returns
exactly if the chain branches well. -/
theorem getGenericValuesFromRelations_eq_ok_iff {result : Option (List GenericValue)} :
    getGenericValuesFromRelations db relAlias filterByDate relations genericValue = .ok result ↔
      Branches db relAlias filterByDate relations genericValue ∧
        result = nullIfEmpty (composition db relAlias filterByDate relations genericValue) := by
  -- The induction is on the chain; the hypothesis is for the rows that its first relation leads to.
  induction relations generalizing genericValue result with
  | nil => exact iff_of_false (fun h => by cases h) fun h => h.1
  | cons relation relations ih =>
    rw [getGenericValuesFromRelations, Branches, composition, Database.leadsToOne]
    have hread := @readRelation_eq db relAlias filterByDate genericValue relation
    unfold readRelation at hread ⊢
    cases hrelation : db.getRelation genericValue relation with
    | none =>
      refine iff_of_false (fun h => by cases h) ?_
      rintro ⟨⟨⟨rows, hrows⟩, -⟩, -⟩
      cases hrows
    | some modelRelation =>
      rw [hrelation] at hread
      dsimp only [Option.any_some] at hread ⊢
      cases hone : modelRelation.isOne with
      | true =>
        rw [hone, if_pos rfl] at hread
        rw [if_pos rfl, if_pos rfl]
        cases hrow : relatedRow db genericValue relation modelRelation with
        | error e =>
          refine iff_of_false (fun h => by cases h) ?_
          rintro ⟨⟨⟨rows, hrows⟩, -⟩, -⟩
          cases hrows
        | ok found =>
          rw [hrow] at hread
          rw [← hread rfl]
          cases found with
          | none =>
            constructor
            · intro h
              cases h
              exact ⟨⟨⟨[], rfl⟩, fun _ row hrow => by cases hrow⟩, rfl⟩
            · rintro ⟨-, rfl⟩
              rfl
          | some row =>
            cases relations with
            | nil =>
              constructor
              · intro h
                cases h
                exact ⟨⟨⟨[row], rfl⟩, fun hne => absurd rfl hne⟩, rfl⟩
              · rintro ⟨-, rfl⟩
                rfl
            | cons next relations =>
              have hself : [row].flatMap (composition db relAlias filterByDate
                  (next :: relations)) =
                  composition db relAlias filterByDate (next :: relations) row :=
                List.flatMap_singleton _ _
              dsimp only [Option.toList_some, List.isEmpty_cons]
              rw [if_neg Bool.false_ne_true, ih, hself]
              constructor
              · rintro ⟨hbranches, rfl⟩
                refine ⟨⟨⟨[row], rfl⟩, fun _ row' hrow' => ?_⟩, rfl⟩
                rw [List.mem_singleton.mp hrow']
                exact ⟨hbranches, fun h => by cases h⟩
              · rintro ⟨⟨-, hrows⟩, rfl⟩
                exact ⟨(hrows (List.cons_ne_nil _ _) row List.mem_cons_self).1, rfl⟩
      | false =>
        rw [hone, if_neg Bool.false_ne_true] at hread
        rw [if_neg Bool.false_ne_true, if_neg Bool.false_ne_true]
        cases hrows : relatedRows db relAlias filterByDate genericValue relation with
        | error e =>
          refine iff_of_false (fun h => by cases h) ?_
          rintro ⟨⟨⟨rows, hrows⟩, -⟩, -⟩
          cases hrows
        | ok rows =>
          rw [hrows] at hread
          rw [← hread rfl]
          cases rows with
          | nil =>
            constructor
            · intro h
              cases h
              exact ⟨⟨⟨[], rfl⟩, fun _ row hrow => by cases hrow⟩, rfl⟩
            · rintro ⟨-, rfl⟩
              rfl
          | cons first rest =>
            cases relations with
            | nil =>
              have hself : (first :: rest).flatMap (composition db relAlias filterByDate []) =
                  first :: rest := List.flatMap_singleton' _
              rw [hself]
              constructor
              · intro h
                cases h
                exact ⟨⟨⟨first :: rest, rfl⟩, fun hne => absurd rfl hne⟩, rfl⟩
              · rintro ⟨-, rfl⟩
                rfl
            | cons next relations =>
              dsimp only [List.isEmpty_cons]
              rw [if_neg Bool.false_ne_true, Except.map_eq_ok]
              simp only [Except.mapM_eq_ok, bind_addAllTo, ih, forall₂_composition]
              constructor
              · rintro ⟨results, ⟨hrows, rfl⟩, rfl⟩
                refine ⟨⟨⟨first :: rest, rfl⟩, fun _ row hrow => ?_⟩, ?_⟩
                · exact ⟨(hrows row hrow).1, fun _ => (hrows row hrow).2⟩
                · rw [List.flatMap_def, nullIfEmpty_of_ne_nil]
                  intro hempty
                  have hfirst := (hrows first List.mem_cons_self).2
                  rw [List.map_cons, List.flatten_cons, List.append_eq_nil_iff] at hempty
                  exact hfirst hempty.1
              · rintro ⟨⟨-, hrows⟩, rfl⟩
                have hrows' := hrows (List.cons_ne_nil _ _)
                refine ⟨_, ⟨fun row hrow => ?_, rfl⟩, ?_⟩
                · exact ⟨(hrows' row hrow).1, (hrows' row hrow).2 trivial⟩
                rw [List.flatMap_def, nullIfEmpty_of_ne_nil]
                intro hempty
                have hfirst := (hrows' first List.mem_cons_self).2 trivial
                rw [List.map_cons, List.flatten_cons, List.append_eq_nil_iff] at hempty
                exact hfirst hempty.1

end Proofs

end OfficeAuto.Odata.Relations
