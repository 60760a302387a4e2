import OfficeAuto.Odata.LinkedRows

/-!
# Runs that link rows

What a round needs is a condition on the state before it: every key that it puts is not null, and
each field that links, or has a condition, is taken by the service and given one value. If every
round meets its condition, a run links the main row to the destination, and the lookup finds the
destination afterwards unless it throws (`getGenericValuesFromRelations_correct`).
-/

namespace OfficeAuto.Odata.Relations

open Entity

/-! ### The conditions of a round -/

section Conditions

variable (services : Services) (relAlias : EntityTypeRelAlias) (filterByDate : Bool)

def Takes (db : Database) (service : ModelService) (entityName : EntityName) (name : FieldName) :
    Prop :=
  service.allParamNames.contains name = true ∧ db.isField entityName name = true

/-- The conditions of a round on the state before it, for a relation whose row links to the main
row or not. Every key that is put is not null, and every field that links or has a condition is
taken by the service and is given one value. -/
structure RoundFits (reuse putsMain linksMain : Bool) (genericValue : GenericValue)
    (relation : RelationName) (relations : List RelationName) (fieldMap : FieldMap)
    (state : LinkState) (modelRelation : ModelRelation) (service : ModelService) : Prop where
  leadsByKey : modelRelation.isOne = true → state.database.LeadsByKey modelRelation
  conditions : modelRelation.isOne = false → ∀ field ∈ relAlias.relationsFieldMap relation,
    (∀ keyMap ∈ modelRelation.keyMaps, keyMap.relFieldName ≠ field.1) →
    field.2 ≠ none ∧ Takes state.database service modelRelation.relEntityName field.1 ∧
      Agrees (relAlias.relationsFieldMap relation) field ∧ Agrees fieldMap field ∧
      Agrees state.keysToNext field
  valid : modelRelation.isOne = false → filterByDate = true → ∀ params row db',
    obtainRow reuse service modelRelation.relEntityName params state.database =
      .ok (some row, db') → row.isActive db'.nowTimestamp = true
  existing : reuse = true → ∀ params row, params = serviceParams relAlias service relation fieldMap
      (if putsMain then mainKeys genericValue modelRelation else []) state →
    findExisting state.database modelRelation.relEntityName params = .ok (some row) →
    state.database.Carries modelRelation.relEntityName params row
  getRelation : linksMain = true →
    state.database.getRelation genericValue relation = some modelRelation
  main : linksMain = true → ∀ keyMap ∈ modelRelation.keyMaps,
    genericValue.fields keyMap.fieldName ≠ none ∧
      Takes state.database service modelRelation.relEntityName keyMap.relFieldName ∧
      Agrees (mainKeys genericValue modelRelation)
        (keyMap.relFieldName, genericValue.fields keyMap.fieldName) ∧
      Agrees state.keysToNext (keyMap.relFieldName, genericValue.fields keyMap.fieldName)
  getNextRelation : ∀ nextRelation nextModelRelation, relations.head? = some nextRelation →
    state.nextModelRelation = some nextModelRelation →
    (state.database.modelEntity modelRelation.relEntityName).bind (fun modelEntity =>
      modelEntity.relation nextRelation) = some nextModelRelation
  next : ∀ nextModelRelation created, state.nextModelRelation = some nextModelRelation →
    state.createdGenericValue = some created → ∀ keyMap ∈ nextModelRelation.keyMaps,
    created.fields keyMap.relFieldName ≠ none ∧
      Takes state.database service modelRelation.relEntityName keyMap.fieldName ∧
      Agrees state.keysToNext (keyMap.fieldName, created.fields keyMap.relFieldName)

/-- Where the loop stands after the round of a relation: its row was obtained, and leads to the
destination. -/
structure Stands (relation : RelationName) (relations : List RelationName) (dest : GenericValue)
    (state : LinkState) (modelRelation : ModelRelation) (created : GenericValue) : Prop where
  relationsEntity : relAlias.relationsEntity relation = some modelRelation
  nextModelRelation : state.nextModelRelation = some modelRelation
  createdGenericValue : state.createdGenericValue = some created
  wellKeyed : state.database.WellKeyed
  mem : created ∈ state.database.rows
  ofEntity : created.entityName = modelRelation.relEntityName
  meets : Meets state.database relAlias filterByDate relation modelRelation created
  linked : LinkedBy state.database relAlias filterByDate relations created dest

/-- The loop stands, and the main row leads to the last row that was obtained. -/
def Arrives (linksMain : Bool) (genericValue : GenericValue) (relation : RelationName)
    (relations : List RelationName) (dest : GenericValue) (state : LinkState) : Prop :=
  ∃ modelRelation created,
    Stands relAlias filterByDate relation relations dest state modelRelation created ∧
    (linksMain = true →
      Links state.database relAlias filterByDate genericValue relation modelRelation created)

/-- The conditions of a round, for the model of its relation and the service of its entity. -/
def Fits (reuse putsMain linksMain : Bool) (genericValue : GenericValue) (relation : RelationName)
    (relations : List RelationName) (fieldMap : FieldMap) (state : LinkState) : Prop :=
  ∀ modelRelation service, relAlias.relationsEntity relation = some modelRelation →
    services.create modelRelation.relEntityName = some service →
    RoundFits relAlias filterByDate reuse putsMain linksMain genericValue relation relations
      fieldMap state modelRelation service

/-- The condition of the first round of `bindNavigationLink`, on the row that exists. -/
def NestedFits (relation : RelationName) (nestedGenericValue : GenericValue) (state : LinkState) :
    Prop :=
  ∃ modelRelation, relAlias.relationsEntity relation = some modelRelation ∧
    nestedGenericValue ∈ state.database.rows ∧
    nestedGenericValue.entityName = modelRelation.relEntityName ∧
    Meets state.database relAlias filterByDate relation modelRelation nestedGenericValue

end Conditions

def Services.AllCreate (services : Services) : Prop :=
  ∀ entityName service, services.create entityName = some service → service.Creates entityName

def EachRound (round : Bool → Bool → RelationName → LinkState → Except LinkException LinkState)
    (fits : Bool → RelationName → List RelationName → LinkState → Prop) :
    Bool → List RelationName → LinkState → Prop
  | _, [], _ => True
  | first, relation :: relations, state =>
    EachRound round fits false relations state ∧
      ∀ state', backward round false relations state = .ok state' →
        fits first relation relations state'

section Round

variable {services : Services} {relAlias : EntityTypeRelAlias} {filterByDate : Bool}
  {reuse putsMain linksMain : Bool} {genericValue dest : GenericValue} {relation : RelationName}
  {relations : List RelationName} {fieldMap : FieldMap} {state state' : LinkState}
  {modelRelation : ModelRelation} {service : ModelService}

theorem createRound_eq_ok (h : createRound services relAlias reuse putsMain genericValue relation
    fieldMap state = .ok state') :
    ∃ modelRelation service found db', relAlias.relationsEntity relation = some modelRelation ∧
      services.create modelRelation.relEntityName = some service ∧
      obtainRow reuse service modelRelation.relEntityName
        (serviceParams relAlias service relation fieldMap
          (if putsMain then mainKeys genericValue modelRelation else []) state)
        state.database = .ok (found, db') ∧
      state' = ⟨db', state.destGenericValue.or found, found, some modelRelation⟩ := by
  unfold createRound at h
  split at h
  · cases h
  next modelRelation hmodel =>
    obtain ⟨service, hservice, h⟩ := Except.bind_eq_ok.mp h
    obtain ⟨⟨found, db'⟩, hobtain, rfl⟩ := Except.map_eq_ok.mp h
    unfold getEntityActionService at hservice
    split at hservice
    · cases hservice
    next hfound =>
      cases hservice
      exact ⟨modelRelation, service, found, db', hmodel, hfound, hobtain, rfl⟩

theorem serviceParams_eq {field : FieldName × Option Value} {keysOfMain : FieldMap}
    (htakes : service.allParamNames.contains field.1 = true)
    (hput : field ∈ relAlias.relationsFieldMap relation ∧
        Agrees (relAlias.relationsFieldMap relation) field ∧ Agrees fieldMap field ∧
        Agrees keysOfMain field ∨
      field ∈ keysOfMain ∧ Agrees keysOfMain field ∨ field ∈ state.keysToNext)
    (hagrees : Agrees state.keysToNext field) :
    serviceParams relAlias service relation fieldMap keysOfMain state field.1 = some field.2 := by
  rw [serviceParams, ModelService.prepareServiceParameters, if_pos htakes, createEntityMap]
  obtain ⟨hmem, hcond, hfield, hmain⟩ | ⟨hmem, hmain⟩ | hmem := hput
  · exact putAll_eq_some (.inl (putAll_eq_some (.inl (putAll_eq_some (.inl
      (putAll_eq_some (.inr hmem) hcond)) hfield)) hmain)) hagrees
  · exact putAll_eq_some (.inl (putAll_eq_some (.inr hmem) hmain)) hagrees
  · exact putAll_eq_some (.inr hmem) hagrees

variable {db' : Database} {created : GenericValue} {params : ParamMap}

theorem Database.Extends.isField {db : Database} (h : db.Extends db') (entityName : EntityName)
    (name : FieldName) : db'.isField entityName name = db.isField entityName name := by
  rw [Database.isField, h.modelEntity, Database.isField]

theorem Obtained.fields_eq {db : Database} {entityName : EntityName} {name : FieldName}
    {value : Option Value} (h : Obtained db db' entityName params created)
    (hfield : db.isField entityName name = true) (hparam : params name = some value)
    (hvalue : value ≠ none) : created.fields name = value := by
  obtain ⟨value, rfl⟩ := Option.ne_none_iff_exists'.mp hvalue
  exact h.carries name value ((h.keeps.isField entityName name).trans hfield) hparam

section Obtained

variable (hfits : RoundFits relAlias filterByDate reuse putsMain linksMain genericValue relation
    relations fieldMap state modelRelation service)
  (hobtain : obtainRow reuse service modelRelation.relEntityName
    (serviceParams relAlias service relation fieldMap
      (if putsMain then mainKeys genericValue modelRelation else []) state)
    state.database = .ok (some created, db'))
  (hcreated : Obtained state.database db' modelRelation.relEntityName
    (serviceParams relAlias service relation fieldMap
      (if putsMain then mainKeys genericValue modelRelation else []) state) created)

include hfits hcreated

include hobtain in
theorem RoundFits.meets :
    Meets db' relAlias filterByDate relation modelRelation created where
  leadsByKey hone := (hfits.leadsByKey hone).mono hcreated.keeps.modelEntity
  conditions hmany field hfield hover := by
    obtain ⟨hvalue, ⟨htakes, hisField⟩, hcond, hgiven, hnext⟩ :=
      hfits.conditions hmany field hfield hover
    refine hcreated.fields_eq hisField (serviceParams_eq htakes (.inl ⟨hfield, hcond, hgiven, ?_⟩)
      hnext) hvalue
    refine agrees_of_forall_ne fun put hput hname => ?_
    split_ifs at hput
    · obtain ⟨keyMap, hkeyMap, hkey⟩ := exists_keyMap_of_mem_mainKeys hput
      exact hover keyMap hkeyMap (hkey.trans hname)
    · cases hput
  valid hmany hfilter := hfits.valid hmany hfilter _ _ _ hobtain

theorem RoundFits.links_main (hputs : putsMain = true) (hlinks : linksMain = true)
    (hmeets : Meets db' relAlias filterByDate relation modelRelation created) :
    Links db' relAlias filterByDate genericValue relation modelRelation created where
  getRelation := by
    rw [Database.getRelation, hcreated.keeps.modelEntity]
    exact hfits.getRelation hlinks
  entityName := hcreated.ofEntity
  keys keyMap hkeyMap := by
    obtain ⟨hvalue, ⟨htakes, hisField⟩, hmain, hnext⟩ := hfits.main hlinks keyMap hkeyMap
    rw [hputs, if_pos rfl] at hcreated
    exact hcreated.fields_eq hisField
      (serviceParams_eq htakes (.inr (.inl ⟨mem_mainKeys hkeyMap hvalue, hmain⟩)) hnext) hvalue
  meets := hmeets

theorem RoundFits.links_next {nextRelation : RelationName} {nextModelRelation : ModelRelation}
    {next : GenericValue} (hhead : relations.head? = some nextRelation)
    (hmodel : state.nextModelRelation = some nextModelRelation)
    (hstate : state.createdGenericValue = some next)
    (hof : next.entityName = nextModelRelation.relEntityName)
    (hmeets : Meets state.database relAlias filterByDate nextRelation nextModelRelation next) :
    Links db' relAlias filterByDate created nextRelation nextModelRelation next where
  getRelation := by
    rw [Database.getRelation, hcreated.keeps.modelEntity, hcreated.ofEntity]
    exact hfits.getNextRelation nextRelation nextModelRelation hhead hmodel
  entityName := hof
  keys keyMap hkeyMap := by
    obtain ⟨hvalue, ⟨htakes, hisField⟩, hnext⟩ :=
      hfits.next nextModelRelation next hmodel hstate keyMap hkeyMap
    exact (hcreated.fields_eq hisField (serviceParams_eq htakes
      (.inr (.inr (mem_keysToNext hmodel hstate hkeyMap hvalue))) hnext) hvalue).symm
  meets := hmeets.mono hcreated.keeps.modelEntity hcreated.keeps.nowTimestamp

end Obtained

/-! ### Rounds -/

theorem createRound_obtained (hservices : services.AllCreate)
    (hfits : Fits services relAlias filterByDate reuse putsMain linksMain genericValue relation
      relations fieldMap state)
    (h : createRound services relAlias reuse putsMain genericValue relation fieldMap state =
      .ok state') :
    ∃ modelRelation service created, relAlias.relationsEntity relation = some modelRelation ∧
      RoundFits relAlias filterByDate reuse putsMain linksMain genericValue relation relations
        fieldMap state modelRelation service ∧
      obtainRow reuse service modelRelation.relEntityName
        (serviceParams relAlias service relation fieldMap
          (if putsMain then mainKeys genericValue modelRelation else []) state)
        state.database = .ok (some created, state'.database) ∧
      Obtained state.database state'.database modelRelation.relEntityName
        (serviceParams relAlias service relation fieldMap
          (if putsMain then mainKeys genericValue modelRelation else []) state) created ∧
      state' = ⟨state'.database, state.destGenericValue.or (some created), some created,
        some modelRelation⟩ := by
  obtain ⟨modelRelation, service, found, db', hmodel, hservice, hobtain, rfl⟩ :=
    createRound_eq_ok h
  have hround := hfits modelRelation service hmodel hservice
  obtain ⟨created, rfl, hcreated⟩ := obtainRow_obtained (hservices _ _ hservice)
    (fun hreuse row hrow => hround.existing hreuse _ row rfl hrow) hobtain
  exact ⟨modelRelation, service, created, hmodel, hround, hobtain, hcreated, rfl⟩

theorem createRound_last (hservices : services.AllCreate)
    (hfits : Fits services relAlias filterByDate reuse putsMain linksMain genericValue relation
      [] fieldMap state)
    (hputs : linksMain = true → putsMain = true) (hdb : state.database.WellKeyed)
    (h : createRound services relAlias reuse putsMain genericValue relation fieldMap state =
      .ok state') :
    ∃ dest, state'.destGenericValue = state.destGenericValue.or (some dest) ∧
      Arrives relAlias filterByDate linksMain genericValue relation [] dest state' := by
  obtain ⟨modelRelation, service, created, hmodel, hround, hobtain, hcreated, hstate⟩ :=
    createRound_obtained hservices hfits h
  have hmeets := hround.meets hobtain hcreated
  rw [hstate]
  refine ⟨created, rfl, modelRelation, created,
    ⟨hmodel, rfl, rfl, hcreated.wellKeyed hdb, hcreated.mem, hcreated.ofEntity, hmeets, rfl⟩, ?_⟩
  exact fun hlinks => hround.links_main hcreated (hputs hlinks) hlinks hmeets

theorem createRound_step {linked : Bool} {nextRelation : RelationName}
    (hservices : services.AllCreate)
    (hfits : Fits services relAlias filterByDate reuse putsMain linksMain genericValue relation
      (nextRelation :: relations) fieldMap state)
    (hputs : linksMain = true → putsMain = true)
    (hstate : Arrives relAlias filterByDate linked genericValue nextRelation relations dest state)
    (h : createRound services relAlias reuse putsMain genericValue relation fieldMap state =
      .ok state') :
    (∃ created, state'.destGenericValue = state.destGenericValue.or (some created)) ∧
      Arrives relAlias filterByDate linksMain genericValue relation (nextRelation :: relations)
        dest state' := by
  obtain ⟨nextModelRelation, next, hnext, -⟩ := hstate
  obtain ⟨modelRelation, service, created, hmodel, hround, hobtain, hcreated, hstate'⟩ :=
    createRound_obtained hservices hfits h
  have hmeets := hround.meets hobtain hcreated
  have hlinks := hround.links_next hcreated rfl hnext.nextModelRelation hnext.createdGenericValue
    hnext.ofEntity hnext.meets
  rw [hstate']
  refine ⟨⟨created, rfl⟩, modelRelation, created, ⟨hmodel, rfl, rfl,
    hcreated.wellKeyed hnext.wellKeyed, hcreated.mem, hcreated.ofEntity, hmeets, ?_⟩, ?_⟩
  · exact ⟨nextModelRelation, next, hcreated.keeps.rows next hnext.mem, hlinks,
      hnext.linked.mono hcreated.keeps⟩
  · exact fun hlinks => hround.links_main hcreated (hputs hlinks) hlinks hmeets

/-- **The run of the loop**: what the round of the last relation establishes and the others keep
holds at its end. -/
theorem backward_induction
    {round : Bool → Bool → RelationName → LinkState → Except LinkException LinkState}
    {fits : Bool → RelationName → List RelationName → LinkState → Prop}
    {P : Bool → RelationName → List RelationName → LinkState → Prop}
    (hlast : ∀ first relation state', fits first relation [] state →
      round first true relation state = .ok state' → P first relation [] state')
    (hstep : ∀ first relation nextRelation relations state₁ state',
      P false nextRelation relations state₁ →
      fits first relation (nextRelation :: relations) state₁ →
      round first false relation state₁ = .ok state' →
      P first relation (nextRelation :: relations) state')
    {first : Bool} (hfits : EachRound round fits first (relation :: relations) state)
    (h : backward round first (relation :: relations) state = .ok state') :
    P first relation relations state' := by
  induction relations generalizing first relation state' with
  | nil =>
    obtain ⟨-, hfits⟩ := hfits
    exact hlast first relation state' (hfits state rfl) h
  | cons nextRelation relations ih =>
    obtain ⟨hrest, hfits⟩ := hfits
    obtain ⟨state₁, hstate₁, h⟩ := Except.bind_eq_ok.mp h
    exact hstep first relation nextRelation relations state₁ state' (ih hrest hstate₁)
      (hfits state₁ hstate₁) h

end Round

/-! ### Runs -/

section Runs

variable {services : Services} {relAlias : EntityTypeRelAlias} {filterByDate : Bool}
  {genericValue nestedGenericValue dest : GenericValue} {relation : RelationName}
  {relations : List RelationName} {state : LinkState} {db db' : Database}

theorem Arrives.linkedBy
    (h : Arrives relAlias filterByDate true genericValue relation relations dest state) :
    state.database.WellKeyed ∧ LinkedBy state.database relAlias filterByDate
      (relation :: relations) genericValue dest := by
  obtain ⟨modelRelation, created, hstands, hlinks⟩ := h
  exact ⟨hstands.wellKeyed, modelRelation, created, hstands.mem, hlinks rfl, hstands.linked⟩

/-- The conditions of `bindNavigationLink`: there are two relations at least, and every round meets
its condition. -/
structure BindFits (services : Services) (relAlias : EntityTypeRelAlias) (filterByDate : Bool)
    (genericValue nestedGenericValue : GenericValue) (db : Database) : Prop where
  wellKeyed : db.WellKeyed
  length : 2 ≤ relAlias.relations.length
  rounds : EachRound (bindRound services relAlias genericValue nestedGenericValue)
    (fun first relation relations state =>
      (relations = [] → NestedFits relAlias filterByDate relation nestedGenericValue state) ∧
      (relations ≠ [] → Fits services relAlias filterByDate false first first genericValue relation
        relations [] state))
    true relAlias.relations (.start db)

theorem bindNavigationLink_linked (hservices : services.AllCreate)
    (hfits : BindFits services relAlias filterByDate genericValue nestedGenericValue db)
    (h : bindNavigationLink services relAlias genericValue nestedGenericValue db = .ok db') :
    db'.WellKeyed ∧ LinkedBy db' relAlias filterByDate relAlias.relations genericValue
      nestedGenericValue := by
  obtain ⟨hdb, hlength, hrounds⟩ := hfits
  rw [bindNavigationLink, if_neg (by omega)] at h
  obtain ⟨state, hstate, rfl⟩ := Except.map_eq_ok.mp h
  match hrelations : relAlias.relations with
  | [] => simp [hrelations] at hlength
  | [_] => simp [hrelations] at hlength
  | relation :: nextRelation :: relations =>
    rw [hrelations] at hrounds hstate
    have harrives := backward_induction
      (P := fun first relation relations state => Arrives relAlias filterByDate
        (first && !relations.isEmpty) genericValue relation relations nestedGenericValue state)
      ?_ ?_ hrounds hstate
    · exact harrives.linkedBy
    · rintro first relation state' ⟨hnested, -⟩ hround
      obtain ⟨modelRelation, hmodel, hmem, hof, hmeets⟩ := hnested rfl
      cases hround
      refine ⟨modelRelation, nestedGenericValue,
        ⟨hmodel, hmodel, rfl, hdb, hmem, hof, hmeets, rfl⟩, ?_⟩
      intro hlinks
      simp at hlinks
    · rintro first relation nextRelation relations state₁ state' harrives ⟨-, hround⟩ hstep
      have hputs : (first && !(nextRelation :: relations).isEmpty) = first := by simp
      rw [hputs]
      exact (createRound_step hservices (hround (List.cons_ne_nil _ _)) id harrives hstep).2

/-- The conditions of the rounds of `createRelAliasFields`. -/
structure CreateFits (services : Services) (relAlias : EntityTypeRelAlias) (filterByDate : Bool)
    (reuse mainKeysWithLast linksLast : Bool) (genericValue : GenericValue) (fieldMap : FieldMap)
    (db : Database) : Prop where
  wellKeyed : db.WellKeyed
  rounds : EachRound (createAllRound services relAlias reuse mainKeysWithLast genericValue fieldMap)
    (fun first relation relations state =>
      Fits services relAlias filterByDate reuse (first && (mainKeysWithLast || !relations.isEmpty))
        (first && (linksLast || !relations.isEmpty)) genericValue relation relations
        (if relations.isEmpty then fieldMap else []) state)
    true relAlias.relations (.start db)

theorem createAll_arrives {reuse mainKeysWithLast linksLast : Bool} {fieldMap : FieldMap}
    (hservices : services.AllCreate)
    (hfits : CreateFits services relAlias filterByDate reuse mainKeysWithLast linksLast
      genericValue fieldMap db)
    (hlast : linksLast = true → mainKeysWithLast = true)
    (hrelations : relAlias.relations = relation :: relations)
    (h : createAll services relAlias reuse mainKeysWithLast genericValue fieldMap db =
      .ok (some state)) :
    ∃ dest, state.destGenericValue = some dest ∧
      Arrives relAlias filterByDate (linksLast || !relations.isEmpty) genericValue relation
        relations dest state := by
  obtain ⟨hdb, hrounds⟩ := hfits
  have hputs : ∀ first last : Bool, (first && (linksLast || !last)) = true →
      (first && (mainKeysWithLast || !last)) = true := by
    intro first last
    cases linksLast with
    | true =>
      rw [hlast rfl]
      exact id
    | false =>
      cases first <;> cases last <;> simp
  rw [hrelations] at hrounds
  unfold createAll at h
  split at h
  · cases h
  · split_ifs at h
    · cases h
    obtain ⟨state', hstate, hsome⟩ := Except.map_eq_ok.mp h
    cases hsome
    rw [hrelations] at hstate
    exact backward_induction
      (P := fun first relation relations state => ∃ dest, state.destGenericValue = some dest ∧
        Arrives relAlias filterByDate (first && (linksLast || !relations.isEmpty)) genericValue
          relation relations dest state)
      (fun first relation state' hfits hround =>
        createRound_last hservices hfits (hputs first true) hdb hround)
      (fun first relation nextRelation relations state₁ state' hstate₁ hfits hround => by
        obtain ⟨dest, hdest, harrives⟩ := hstate₁
        obtain ⟨⟨created, hcreated⟩, harrives'⟩ := createRound_step hservices hfits
          (hputs first false) harrives hround
        rw [hdest] at hcreated
        exact ⟨dest, hcreated, harrives'⟩)
      hrounds hstate
  next hnone =>
    rw [Option.map_eq_none_iff, List.getLast?_eq_none_iff, hrelations] at hnone
    cases hnone

theorem createRelAliasFieldsOfDraft_linked {draftGenericValue : GenericValue}
    {properties : List CsdlProperty} (hservices : services.AllCreate)
    (hlength : 2 ≤ relAlias.relations.length)
    (hfits : CreateFits services relAlias filterByDate false false false genericValue
      (draftFields relAlias draftGenericValue properties) db)
    (h : createRelAliasFieldsOfDraft services relAlias draftGenericValue genericValue properties
      db = .ok (some dest, db')) :
    db'.WellKeyed ∧ LinkedBy db' relAlias filterByDate relAlias.relations genericValue dest := by
  obtain ⟨state, hstate, hresult⟩ := Except.map_eq_ok.mp h
  cases state with
  | none => cases hresult
  | some state =>
    match hrelations : relAlias.relations with
    | [] => simp [hrelations] at hlength
    | [_] => simp [hrelations] at hlength
    | relation :: nextRelation :: relations =>
      obtain ⟨found, hfound, harrives⟩ :=
        createAll_arrives hservices hfits (fun hlast => by cases hlast) hrelations hstate
      dsimp only at hresult
      rw [hfound] at hresult
      cases hresult
      exact harrives.linkedBy

/-! ### The foreign key of the main row -/

def Database.HasKey (db : Database) (entityName : EntityName) (params : ParamMap)
    (row : GenericValue) : Prop :=
  row.entityName = entityName ∧ ∃ modelEntity, db.modelEntity entityName = some modelEntity ∧
    ∀ pkFieldName ∈ modelEntity.pkFieldNames, row.fields pkFieldName = params.getValue pkFieldName

/-- A service updates the row of a key: it has the values of the parameters then, and the other
rows are kept. -/
structure ModelService.Updates (service : ModelService) (entityName : EntityName) : Prop where
  modelEntity : ∀ params db result db', service.runSync params db = .ok (result, db') →
    db'.modelEntity = db.modelEntity
  nowTimestamp : ∀ params db result db', service.runSync params db = .ok (result, db') →
    db'.nowTimestamp = db.nowTimestamp
  wellKeyed : ∀ params db result db', service.runSync params db = .ok (result, db') →
    db.WellKeyed → db'.WellKeyed
  kept : ∀ params db result db', service.runSync params db = .ok (result, db') →
    ∀ row ∈ db.rows, ¬ db.HasKey entityName params row → row ∈ db'.rows
  carries : ∀ params db result db', service.runSync params db = .ok (result, db') →
    ∀ row ∈ db'.rows, db.HasKey entityName params row → db'.Carries entityName params row

def Services.AllUpdate (services : Services) : Prop :=
  ∀ entityName service, services.update entityName = some service → service.Updates entityName

def keyParams (keyMap : FieldMap) : ParamMap :=
  putAll (fun _ => none) keyMap

/-- The conditions on the state before the foreign key is set: the key of the main row is complete,
the destination is another row, and its key is not null and can be set. -/
structure UpdateFits (services : Services) (genericValue : GenericValue) (keyMap : FieldMap)
    (relation : RelationName) (modelRelation : ModelRelation) (dest : GenericValue)
    (db : Database) : Prop where
  getRelation : db.getRelation genericValue relation = some modelRelation
  keyMapAgrees : ∀ field ∈ keyMap, Agrees keyMap field
  complete : ∀ modelEntity, db.modelEntity genericValue.entityName = some modelEntity →
    ∀ pkFieldName ∈ modelEntity.pkFieldNames, ∃ field ∈ keyMap, field.1 = pkFieldName
  ofOther : ¬ db.HasKey genericValue.entityName (keyParams keyMap) dest
  fields : ∀ keys ∈ modelRelation.keyMaps, dest.fields keys.relFieldName ≠ none ∧
    (∀ service, services.update genericValue.entityName = some service →
      Takes db service genericValue.entityName keys.fieldName) ∧
    Agrees (mainEntityFk modelRelation dest) (keys.fieldName, dest.fields keys.relFieldName) ∧
    Agrees keyMap (keys.fieldName, dest.fields keys.relFieldName)

theorem updateGenericValue_eq_ok {entityName : EntityName} {keyMap fieldMap : FieldMap}
    (h : updateGenericValue services entityName keyMap fieldMap db = .ok db') :
    ∃ service params result, services.update entityName = some service ∧
      service.runSync params db = .ok (result, db') ∧
      ∀ name value, putAll (service.prepareServiceParameters (putAll (fun _ => none) fieldMap))
        keyMap name = some value → params name = some value := by
  obtain ⟨genericValue, -, h⟩ := Except.bind_eq_ok.mp h
  obtain ⟨service, hservice, h⟩ := Except.bind_eq_ok.mp h
  obtain ⟨⟨result, db₁⟩, hrun, h⟩ := Except.bind_eq_ok.mp h
  obtain ⟨found, -, rfl⟩ := Except.map_eq_ok.mp h
  unfold getEntityActionService at hservice
  split at hservice
  · cases hservice
  next hfound =>
    cases hservice
    refine ⟨service, _, result, hfound, hrun, fun name value hvalue => ?_⟩
    cases genericValue with
    | none => exact hvalue
    | some genericValue =>
      dsimp only [ModelService.addRequiredParams]
      rw [hvalue, Option.isNone_some, Bool.and_false, Bool.false_and, if_neg Bool.false_ne_true]

theorem updateGenericValue_linked {keyMap : FieldMap} {modelRelation : ModelRelation}
    (hservices : services.AllUpdate) (hdb : db.WellKeyed) (hone : modelRelation.isOne = true)
    (hfits : UpdateFits services genericValue keyMap relation modelRelation dest db)
    (hdest : dest ∈ db.rows) (hof : dest.entityName = modelRelation.relEntityName)
    (hmeets : Meets db relAlias filterByDate relation modelRelation dest)
    (h : updateGenericValue services genericValue.entityName keyMap
      (mainEntityFk modelRelation dest) db = .ok db') :
    db'.WellKeyed ∧ ∀ row ∈ db'.rows,
      db'.HasKey genericValue.entityName (keyParams keyMap) row →
      LinkedBy db' relAlias filterByDate [relation] row dest := by
  obtain ⟨service, params, result, hservice, hrun, hparams⟩ := updateGenericValue_eq_ok h
  have hupdates := hservices _ _ hservice
  have hmodels := hupdates.modelEntity _ _ _ _ hrun
  have hnow := hupdates.nowTimestamp _ _ _ _ hrun
  have hkey : ∀ row, db.HasKey genericValue.entityName (keyParams keyMap) row ↔
      db.HasKey genericValue.entityName params row := by
    intro row
    refine and_congr_right fun _ => exists_congr fun modelEntity => and_congr_right fun hmodel =>
      forall₂_congr fun pkFieldName hpk => ?_
    obtain ⟨field, hfield, rfl⟩ := hfits.complete modelEntity hmodel pkFieldName hpk
    have hagrees := hfits.keyMapAgrees field hfield
    rw [ParamMap.getValue, ParamMap.getValue, keyParams, putAll_eq_some (.inr hfield) hagrees,
      hparams _ _ (putAll_eq_some (.inr hfield) hagrees)]
  refine ⟨hupdates.wellKeyed _ _ _ _ hrun hdb, fun row hrow hrowKey => ?_⟩
  rw [Database.HasKey, hmodels] at hrowKey
  have hcarries := hupdates.carries _ _ _ _ hrun row hrow ((hkey row).mp hrowKey)
  refine ⟨modelRelation, dest, hupdates.kept _ _ _ _ hrun dest hdest
    fun hdestKey => hfits.ofOther ((hkey dest).mpr hdestKey), ?_, rfl⟩
  refine ⟨?_, hof, fun keys hkeys => ?_, hmeets.mono hmodels hnow⟩
  · rw [Database.getRelation, hmodels, hrowKey.1]
    exact hfits.getRelation
  · obtain ⟨hvalue, htakes, hfk, hmap⟩ := hfits.fields keys hkeys
    obtain ⟨htaken, hisField⟩ := htakes service hservice
    obtain ⟨value, hvalue⟩ := Option.ne_none_iff_exists'.mp hvalue
    have hmem : (keys.fieldName, dest.fields keys.relFieldName) ∈
        mainEntityFk modelRelation dest := by
      rw [mainEntityFk, if_pos hone]
      exact List.mem_map.mpr ⟨keys, hkeys, rfl⟩
    have hprepared : service.prepareServiceParameters
        (putAll (fun _ => none) (mainEntityFk modelRelation dest)) keys.fieldName =
          some (dest.fields keys.relFieldName) := by
      rw [ModelService.prepareServiceParameters, if_pos htaken]
      exact putAll_eq_some (.inr hmem) hfk
    have hparam := hparams _ _ (putAll_eq_some (.inl hprepared) hmap)
    rw [hvalue] at hparam ⊢
    refine (hcarries keys.fieldName value ?_ hparam).symm
    rw [Database.isField, hmodels]
    exact hisField

/-- `createRelAliasFields` from an entity sets a foreign key of the main row. -/
def updatesMain (relAlias : EntityTypeRelAlias) : Bool :=
  match relAlias.relations with
  | [relation] => (relAlias.relationsEntity relation).any fun modelRelation =>
    modelRelation.isOne && !modelRelation.keyMaps.isEmpty
  | _ => false

/-- The conditions of `createRelAliasFields` from an entity: those of the rounds, and those of the
foreign key if it is set. -/
structure EntityFits (services : Services) (relAlias : EntityTypeRelAlias) (filterByDate : Bool)
    (genericValue : GenericValue) (keyMap fieldMap : FieldMap) (db : Database) : Prop where
  create : CreateFits services relAlias filterByDate true true (!updatesMain relAlias) genericValue
    fieldMap db
  update : updatesMain relAlias = true → ∀ relation modelRelation state dest,
    relAlias.relations = [relation] → relAlias.relationsEntity relation = some modelRelation →
    createAll services relAlias true true genericValue fieldMap db = .ok (some state) →
    state.destGenericValue = some dest →
    UpdateFits services genericValue keyMap relation modelRelation dest state.database

/-- The main row after a run of `createRelAliasFields` from an entity: the row of its key, if a
foreign key was set. -/
def IsMain (relAlias : EntityTypeRelAlias) (genericValue : GenericValue) (keyMap : FieldMap)
    (db : Database) (row : GenericValue) : Prop :=
  if updatesMain relAlias then
    row ∈ db.rows ∧ db.HasKey genericValue.entityName (keyParams keyMap) row
  else row = genericValue

theorem isEmpty_mainEntityFk (modelRelation : ModelRelation) (dest : GenericValue) :
    (mainEntityFk modelRelation dest).isEmpty =
      !(modelRelation.isOne && !modelRelation.keyMaps.isEmpty) := by
  unfold mainEntityFk
  split_ifs with hone
  · rw [List.isEmpty_map, hone, Bool.true_and, Bool.not_not]
  · rw [Bool.eq_false_iff.mpr hone]
    rfl

theorem createRelAliasFieldsOfEntity_linked {entityToWrite : ParamMap} {keyMap : FieldMap}
    {properties : List CsdlProperty} (hservices : services.AllCreate)
    (hupdates : services.AllUpdate)
    (hfits : EntityFits services relAlias filterByDate genericValue keyMap
      (entityFields relAlias entityToWrite properties) db)
    (h : createRelAliasFieldsOfEntity services relAlias entityToWrite genericValue keyMap properties
      db = .ok (some dest, db')) {row : GenericValue}
    (hrow : IsMain relAlias genericValue keyMap db' row) :
    db'.WellKeyed ∧ LinkedBy db' relAlias filterByDate relAlias.relations row dest := by
  obtain ⟨state, hstate, h⟩ := Except.bind_eq_ok.mp h
  cases state with
  | none => cases h
  | some state =>
    match hrelations : relAlias.relations with
    | [] =>
      simp only [createAll, hrelations, List.getLast?_nil, Option.map_none] at hstate
      cases hstate
      rw [hrelations] at h
      cases h
    | [relation] =>
      obtain ⟨found, hfound, harrives⟩ := createAll_arrives hservices hfits.create
        (fun _ => rfl) hrelations hstate
      have hupdate := hfits.update
      unfold IsMain at hrow
      dsimp only at h
      rw [hrelations, hfound] at h
      dsimp only at h
      split at h
      · cases h
      next modelRelation hmodel =>
        have hup : updatesMain relAlias =
            (modelRelation.isOne && !modelRelation.keyMaps.isEmpty) := by
          rw [updatesMain, hrelations]
          dsimp only
          rw [hmodel, Option.any_some]
        -- the main row is written exactly if there is a foreign key in it
        have hempty := isEmpty_mainEntityFk modelRelation found
        rw [← hup] at hempty
        split at h
        next hfk =>
          cases h
          rw [hfk, List.isEmpty_nil, Bool.true_eq, Bool.not_eq_true'] at hempty
          rw [hempty, if_neg Bool.false_ne_true] at hrow
          rw [hrow]
          rw [hempty] at harrives
          exact harrives.linkedBy
        next field fields hfk =>
          obtain ⟨db₁, hupdateRun, hresult⟩ := Except.map_eq_ok.mp h
          cases hresult
          rw [hfk, List.isEmpty_cons, Bool.false_eq, Bool.not_eq_false'] at hempty
          have hone : modelRelation.isOne = true := by
            rw [hup, Bool.and_eq_true] at hempty
            exact hempty.1
          rw [hempty, if_pos rfl] at hrow
          obtain ⟨modelRelation', created, hstands, -⟩ := harrives
          obtain rfl : modelRelation = modelRelation' :=
            Option.some.inj (hmodel.symm.trans hstands.relationsEntity)
          obtain rfl : created = dest := hstands.linked
          rw [← hfk] at hupdateRun
          obtain ⟨hdb, hlinked⟩ := updateGenericValue_linked hupdates hstands.wellKeyed hone
            (hupdate hempty relation modelRelation state created hrelations hmodel hstate hfound)
            hstands.mem hstands.ofEntity hstands.meets hupdateRun
          exact ⟨hdb, hlinked row hrow.1 hrow.2⟩
    | relation :: nextRelation :: relations =>
      -- behind the first of several relations the main row is not touched
      obtain ⟨found, hfound, harrives⟩ := createAll_arrives hservices hfits.create
        (fun _ => rfl) hrelations hstate
      have hno : updatesMain relAlias = false := by rw [updatesMain, hrelations]
      dsimp only at h
      rw [hrelations, hfound] at h
      cases h
      rw [IsMain, hno, if_neg Bool.false_ne_true] at hrow
      rw [hrow]
      rw [hno] at harrives
      exact harrives.linkedBy

end Runs

def createRow (entityName : EntityName) (params : ParamMap) : GenericValue :=
  ⟨entityName, params.getValue⟩

def keyOf (modelEntity : ModelEntity) (params : ParamMap) : FieldMap :=
  modelEntity.pkFieldNames.map fun pkFieldName => (pkFieldName, params.getValue pkFieldName)

def insertService (entityName : EntityName) (allParamNames : List FieldName) : ModelService where
  allParamNames := allParamNames
  requiredParamNames := []
  runSync params db :=
    match db.modelEntity entityName with
    | none => .error (.entity .nullPointer)
    | some modelEntity =>
      if ((keyOf modelEntity params).any fun field => field.2.isNone) || db.rows.any fun row =>
          row.hasFields entityName (keyOf modelEntity params) then
        .error (.service "duplicate key".toList)
      else .ok (⟨some (keyOf modelEntity params), fun _ => none⟩,
        { db with rows := db.rows ++ [createRow entityName params] })

section Insert

variable {entityName : EntityName} {allParamNames : List FieldName} {params : ParamMap}
  {db db' : Database} {result : ServiceResult} {row : GenericValue} {modelEntity : ModelEntity}

theorem insertService_eq_ok
    (h : (insertService entityName allParamNames).runSync params db = .ok (result, db')) :
    ∃ modelEntity, db.modelEntity entityName = some modelEntity ∧
      result.pkMap = some (keyOf modelEntity params) ∧
      (∀ row ∈ db.rows, row.hasFields entityName (keyOf modelEntity params) = false) ∧
      db' = { db with rows := db.rows ++ [createRow entityName params] } := by
  unfold insertService at h
  dsimp only at h
  split at h
  · cases h
  next modelEntity hmodel =>
    split_ifs at h with hkey
    cases h
    rw [Bool.or_eq_true, not_or, Bool.not_eq_true, Bool.not_eq_true, List.any_eq_false] at hkey
    refine ⟨modelEntity, hmodel, rfl, fun row hrow => ?_, rfl⟩
    exact Bool.eq_false_iff.mpr (List.any_eq_false.mp hkey.2 row hrow)

theorem hasFields_keyOf :
    row.hasFields entityName (keyOf modelEntity params) = true ↔
      row.entityName = entityName ∧ ∀ pkFieldName ∈ modelEntity.pkFieldNames,
        row.fields pkFieldName = params.getValue pkFieldName := by
  simp only [GenericValue.hasFields, keyOf, Bool.and_eq_true, decide_eq_true_eq, List.all_map,
    List.all_eq_true, Function.comp_apply]

theorem insertService_creates (entityName : EntityName) (allParamNames : List FieldName) :
    (insertService entityName allParamNames).Creates entityName := by
  refine ⟨?_, ?_, ?_, ?_⟩
  · intro params db result db' h
    obtain ⟨modelEntity, -, -, -, rfl⟩ := insertService_eq_ok h
    exact ⟨rfl, rfl, fun row hrow => List.mem_append_left _ hrow⟩
  · intro params db result db' h hdb
    obtain ⟨modelEntity, hmodel, -, hnew, rfl⟩ := insertService_eq_ok h
    -- A row of the database does not have the key of the new one.
    have hold : ∀ row ∈ db.rows, row.entityName = entityName →
        ¬ ∀ pkFieldName ∈ modelEntity.pkFieldNames,
          row.fields pkFieldName = params.getValue pkFieldName := fun row hrow hname hpks =>
      Bool.eq_false_iff.mp (hnew row hrow) (hasFields_keyOf.mpr ⟨hname, hpks⟩)
    intro modelEntity' row row' hrow hrow' hname hmodel' hpks
    obtain hrow | hrow := List.mem_append.mp hrow
    · obtain hrow' | hrow' := List.mem_append.mp hrow'
      · exact hdb modelEntity' row row' hrow hrow' hname hmodel' hpks
      · obtain rfl := List.mem_singleton.mp hrow'
        have hname' : row.entityName = entityName := hname
        rw [hname'] at hmodel'
        obtain rfl := Option.some.inj (hmodel.symm.trans hmodel')
        exact absurd hpks (hold row hrow hname')
    · obtain rfl := List.mem_singleton.mp hrow
      obtain hrow' | hrow' := List.mem_append.mp hrow'
      · obtain rfl := Option.some.inj (hmodel.symm.trans hmodel')
        exact absurd (fun pkFieldName hpkName => (hpks pkFieldName hpkName).symm)
          (hold row' hrow' hname.symm)
      · exact (List.mem_singleton.mp hrow').symm
  · intro params db result db' pkMap h hpkMap
    obtain ⟨modelEntity, -, hresult, -, rfl⟩ := insertService_eq_ok h
    rw [ModelService.retrievePkMap, hresult] at hpkMap
    cases hpkMap
    exact ⟨createRow entityName params, List.mem_append_right _ List.mem_cons_self,
      hasFields_keyOf.mpr ⟨rfl, fun _ _ => rfl⟩⟩
  · intro params db result db' pkMap h hpkMap row hrow hfields name value _ hparam
    obtain ⟨modelEntity, -, hresult, hnew, rfl⟩ := insertService_eq_ok h
    rw [ModelService.retrievePkMap, hresult] at hpkMap
    cases hpkMap
    obtain hrow | hrow := List.mem_append.mp hrow
    · rw [hnew row hrow] at hfields
      cases hfields
    · rw [List.mem_singleton.mp hrow]
      change (params name).join = some value
      rw [hparam]
      rfl

end Insert

/-! A catalog: a category with two child categories, one of them with a product. -/

def categoryFields : List FieldName :=
  ["productCategoryId".toList, "primaryParentCategoryId".toList]

def memberFields : List FieldName :=
  ["productCategoryId".toList, "productId".toList]

def childRelation : ModelRelation where
  isOne := false
  relEntityName := "ProductCategory".toList
  keyMaps := [⟨"productCategoryId".toList, "primaryParentCategoryId".toList⟩]

def memberOfCategoryRelation : ModelRelation where
  isOne := false
  relEntityName := "ProductCategoryMember".toList
  keyMaps := [⟨"productCategoryId".toList, "productCategoryId".toList⟩]

def memberOfProductRelation : ModelRelation where
  isOne := false
  relEntityName := "ProductCategoryMember".toList
  keyMaps := [⟨"productId".toList, "productId".toList⟩]

def categoryRelation : ModelRelation where
  isOne := true
  relEntityName := "ProductCategory".toList
  keyMaps := [⟨"productCategoryId".toList, "productCategoryId".toList⟩]

def catalogModel (entityName : EntityName) : Option ModelEntity :=
  if entityName = "ProductCategory".toList then
    some ⟨categoryFields, ["productCategoryId".toList], false, fun relation =>
      if relation = "ChildProductCategory".toList then some childRelation
      else if relation = "ProductCategoryMember".toList then some memberOfCategoryRelation
      else none⟩
  else if entityName = "ProductCategoryMember".toList then
    some ⟨memberFields, memberFields, false, fun relation =>
      if relation = "ProductCategory".toList then some categoryRelation else none⟩
  else if entityName = "Product".toList then
    some ⟨["productId".toList], ["productId".toList], false, fun relation =>
      if relation = "ProductCategoryMember".toList then some memberOfProductRelation else none⟩
  else none

def catalogRow (entityName : String) (values : List (String × String)) : GenericValue where
  entityName := entityName.toList
  fields name := (values.find? fun value => value.1.toList = name).map fun value =>
    .string value.2.toList

def gadgets : GenericValue :=
  catalogRow "ProductCategory" [("productCategoryId", "GADGETS")]

def smallGadgets : GenericValue :=
  catalogRow "ProductCategory"
    [("productCategoryId", "SMALL"), ("primaryParentCategoryId", "GADGETS")]

def largeGadgets : GenericValue :=
  catalogRow "ProductCategory"
    [("productCategoryId", "LARGE"), ("primaryParentCategoryId", "GADGETS")]

def gizmo : GenericValue :=
  catalogRow "Product" [("productId", "GZ-1000")]

def smallGizmo : GenericValue :=
  catalogRow "ProductCategoryMember" [("productCategoryId", "SMALL"), ("productId", "GZ-1000")]

theorem isLong_zero : Decimal.IsLong 0 := by decide

def catalog : Database where
  modelEntity := catalogModel
  rows := [gadgets, smallGadgets, largeGadgets, gizmo, smallGizmo]
  nowTimestamp := .ofMillis 0 isLong_zero

def membersAlias : EntityTypeRelAlias where
  name := "Members".toList
  relations := ["ChildProductCategory".toList, "ProductCategoryMember".toList]
  relationsFieldMap _ := []
  relationsEntity relation :=
    if relation = "ChildProductCategory".toList then some childRelation
    else some memberOfCategoryRelation

def categoriesAlias : EntityTypeRelAlias where
  name := "Categories".toList
  relations := ["ProductCategoryMember".toList, "ProductCategory".toList]
  relationsFieldMap _ := []
  relationsEntity relation :=
    if relation = "ProductCategory".toList then some categoryRelation
    else some memberOfProductRelation

def insertServices : Services where
  create entityName := (catalogModel entityName).map fun modelEntity =>
    insertService entityName modelEntity.allFieldNames
  update _ := none

theorem insertServices_create : insertServices.AllCreate := by
  intro entityName service h
  obtain ⟨modelEntity, -, rfl⟩ := Option.map_eq_some_iff.mp h
  exact insertService_creates entityName modelEntity.allFieldNames

theorem catalog_wellKeyed : catalog.WellKeyed :=
  Database.wellKeyed_of_pairwise (by decide)

theorem bindFits_catalog :
    BindFits insertServices categoriesAlias false gizmo largeGadgets catalog where
  wellKeyed := catalog_wellKeyed
  length := Nat.le_refl 2
  rounds := by
    have hrelations : categoriesAlias.relations =
        ["ProductCategoryMember".toList, "ProductCategory".toList] := rfl
    rw [hrelations, EachRound, EachRound, EachRound]
    refine ⟨⟨trivial, fun state hstate => ⟨fun _ => ?_, fun h => absurd rfl h⟩⟩,
      fun state hstate => ⟨fun h => (List.cons_ne_nil _ _ h).elim, fun _ => ?_⟩⟩
    · cases hstate
      refine ⟨categoryRelation, rfl, by simp [LinkState.start, catalog], rfl,
        fun _ => ⟨_, rfl, fun pkFieldName hpk => ⟨_, List.mem_cons_self, ?_⟩⟩, ?_, ?_⟩
      · rw [List.mem_singleton.mp hpk]
      · intro hone
        cases hone
      · intro hone
        cases hone
    · cases hstate
      intro modelRelation service hmodel hservice
      cases hmodel
      cases hservice
      refine ⟨?_, ?_, ?_, ?_, fun _ => rfl, ?_, ?_, ?_⟩
      · intro hone
        cases hone
      · intro _ field hfield
        cases hfield
      · intro _ hfilter
        cases hfilter
      · intro hreuse
        cases hreuse
      · intro _ keyMap hkeyMap
        rw [List.mem_singleton.mp hkeyMap]
        refine ⟨?_, ⟨rfl, rfl⟩, ?_, ?_⟩
        · decide
        · intro put hput _
          rw [List.mem_singleton.mp hput]
          rfl
        · intro put hput hname
          rw [List.mem_singleton.mp hput] at hname
          exact absurd hname (by decide)
      · intro nextRelation nextModelRelation hhead hnext
        cases hhead
        cases hnext
        rfl
      · intro nextModelRelation created hnext hcreated keyMap hkeyMap
        cases hnext
        cases hcreated
        rw [List.mem_singleton.mp hkeyMap]
        refine ⟨?_, ⟨rfl, rfl⟩, ?_⟩
        · decide
        · intro put hput _
          rw [List.mem_singleton.mp hput]
          rfl

def boundCatalog : Database :=
  { catalog with
    rows := catalog.rows ++ [createRow "ProductCategoryMember".toList
      (serviceParams categoriesAlias
        (insertService "ProductCategoryMember".toList memberFields)
        "ProductCategoryMember".toList [] (mainKeys gizmo memberOfProductRelation)
        { LinkState.start catalog with
          createdGenericValue := some largeGadgets
          nextModelRelation := some categoryRelation })] }

end OfficeAuto.Odata.Relations
