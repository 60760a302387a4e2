import OfficeAuto.Logic.Grouping
import OfficeAuto.Odata.RelationStore

/-!
# Deep insert

`OdataWriter.createNestedEntities` creates or updates the inline entities of a payload, with those
under them, and sets each of them at the link of its navigation in the response. The handlers that
create and update are looked up by name and may be any class; they and the reading of related
entities are parameters here, as functions of the state of the database that may throw.
-/

namespace OfficeAuto.Odata.Writer

open Entity Relations Grouping

/-! ### Payloads and responses -/

/-- The inline content of a link of a payload: an entity for a navigation with one entity, a set
for a collection. -/
inductive Inline (α : Type)
  | none
  | inlineEntity (entity : α)
  | inlineEntitySet (entities : List α)

/-- An entity of a payload, with its navigation links by their titles. -/
inductive Entity (R : Type)
  | mk (properties : R) (navigationLinks : List (RelationName × Inline (Entity R)))

/-- An entity of a response. A link of it holds entities; `setInlineEntity` makes it hold one. -/
inductive Response (R : Type)
  | mk (properties : R) (navigationLinks : List (RelationName × List (Response R)))

variable {R : Type}

def Entity.properties : Entity R → R
  | .mk properties _ => properties

def Entity.navigationLinks : Entity R → List (RelationName × Inline (Entity R))
  | .mk _ navigationLinks => navigationLinks

def Response.setLink (entity : Response R) (navigationPropertyName : RelationName)
    (nestedEntity : Response R) : Response R :=
  match entity with
  | .mk properties links => .mk properties (setTo navigationPropertyName nestedEntity links)

/-! ### The inline entities of a payload -/

mutual

/-- The inline entities under an entity, each with the title of its link, in the order of the
payload. -/
def Entity.inlineEntities : Entity R → List (RelationName × Entity R)
  | .mk _ links => inlinesOfLinks links

def inlinesOfLinks : List (RelationName × Inline (Entity R)) → List (RelationName × Entity R)
  | [] => []
  | (_, .none) :: links => inlinesOfLinks links
  | (title, .inlineEntity entity) :: links =>
    (title, entity) :: entity.inlineEntities ++ inlinesOfLinks links
  | (title, .inlineEntitySet entities) :: links =>
    inlinesOfSet title entities ++ inlinesOfLinks links

def inlinesOfSet (title : RelationName) : List (Entity R) → List (RelationName × Entity R)
  | [] => []
  | entity :: entities => (title, entity) :: entity.inlineEntities ++ inlinesOfSet title entities

end

/-! ### The environment of the writer -/

structure CsdlEntityType where
  ofbizEntity : EntityName
  pkFieldNames : List FieldName

structure EdmNavigationProperty where
  isCollection : Bool
  type : CsdlEntityType

/-- What the writer calls, for binding targets `T`, databases `W` and exceptions `E`. -/
structure Environment (R T W E : Type) where
  nullPointer : E
  getNavigationProperty : T → RelationName → Option EdmNavigationProperty
  getRelatedBindingTarget : T → RelationName → T
  /-- The fields of an entity: `propertyToField` of `entityToMap`. -/
  fieldMap : CsdlEntityType → R → Row
  /-- Whether `findOne` has a row. -/
  findOne : EntityName → FieldMap → W → Except E Bool
  findRelatedOne : T → EdmNavigationProperty → Response R → W → Except E (Option R)
  create : T → EdmNavigationProperty → Response R → Entity R → W → Except E (R × W)
  update : T → EdmNavigationProperty → Response R → Entity R → Option FieldMap → W →
    Except E (R × W)
  applyBindingLinks : T → R → Entity R → W → Except E W

/-- A call of a handler for an inline entity: an update with the key, which may be null, or a
creation. -/
structure Write (R : Type) where
  title : RelationName
  update : Option (Option FieldMap)
  entityToWrite : Entity R
  result : R

/-- The database, and the calls of handlers until now. -/
structure Session (R W : Type) where
  database : W
  writes : List (Write R)

variable {T W E : Type} (env : Environment R T W E)

namespace Environment

def isEmptyPart : Option Value → Bool
  | none => true
  | some (.string s) => s.isEmpty
  | some _ => false

def getEntityPrimaryKey (type : CsdlEntityType) (properties : R) : Option FieldMap :=
  type.pkFieldNames.mapM fun pkFieldName =>
    if isEmptyPart (env.fieldMap type properties pkFieldName) then none
    else some (pkFieldName, env.fieldMap type properties pkFieldName)

def isExistEntity (type : CsdlEntityType) (properties : R) (database : W) : Bool :=
  match env.getEntityPrimaryKey type properties with
  | none => false
  -- a type without a key has no rows to find
  | some [] => false
  | some primaryKey =>
    match env.findOne type.ofbizEntity primaryKey database with
    | .ok found => found
    -- the exception is logged, and the entity is taken as a new one
    | .error _ => false

/-- The choice between an update and a creation: for a navigation with one entity, the related
entity decides; for a collection, the key in the payload. -/
def chooseUpdate (target : T) (edmNavigationProperty : EdmNavigationProperty)
    (entityCreated : Response R) (nestedEntity : Entity R) (database : W) :
    Except E (Option (Option FieldMap)) :=
  if edmNavigationProperty.isCollection then
    -- the key in the payload decides, also if its row is not in the collection
    if env.isExistEntity edmNavigationProperty.type nestedEntity.properties database then
      .ok (some (env.getEntityPrimaryKey edmNavigationProperty.type nestedEntity.properties))
    else .ok none
  else
    (env.findRelatedOne target edmNavigationProperty entityCreated database).map fun relatedOne =>
      relatedOne.map fun properties =>
        env.getEntityPrimaryKey edmNavigationProperty.type properties

/-- The part of `createRelatedEntity` or `updateRelatedEntity` before the entities under it: the
call of the handler and, for a creation, the binding links. -/
def writeRelated (target : T) (title : RelationName)
    (edmNavigationProperty : EdmNavigationProperty) (entityCreated : Response R)
    (nestedEntity : Entity R) (s : Session R W) : Except E (R × Session R W) := do
  match ← env.chooseUpdate target edmNavigationProperty entityCreated nestedEntity s.database with
  | some primaryKey =>
    let (result, database) ←
      env.update target edmNavigationProperty entityCreated nestedEntity primaryKey s.database
    return (result, ⟨database, s.writes ++ [⟨title, some primaryKey, nestedEntity, result⟩]⟩)
  | none =>
    let (result, database) ←
      env.create target edmNavigationProperty entityCreated nestedEntity s.database
    let database ← env.applyBindingLinks target result nestedEntity database
    return (result, ⟨database, s.writes ++ [⟨title, none, nestedEntity, result⟩]⟩)

mutual

def writeNested (target : T) (title : RelationName)
    (edmNavigationProperty : EdmNavigationProperty) (entityCreated : Response R) :
    Entity R → Session R W → Except E (Response R × Session R W)
  | .mk properties links, s => do
    let (result, s) ← env.writeRelated target title edmNavigationProperty entityCreated
      (.mk properties links) s
    createNestedEntities (env.getRelatedBindingTarget target title) (.mk result []) links s

def writeSet (target : T) (title : RelationName)
    (edmNavigationProperty : EdmNavigationProperty) (entityCreated : Response R) :
    List (Entity R) → Session R W → Except E (Response R × Session R W)
  | [], s => return (entityCreated, s)
  | entity :: entities, s => do
    let (nestedEntity, s) ← writeNested target title edmNavigationProperty entityCreated entity s
    writeSet target title edmNavigationProperty (entityCreated.setLink title nestedEntity)
      entities s

/-- The loop over the links. Inline content of the wrong kind for its navigation is read as
null. -/
def createNestedEntities (target : T) (entityCreated : Response R) :
    List (RelationName × Inline (Entity R)) → Session R W → Except E (Response R × Session R W)
  | [], s => return (entityCreated, s)
  | (_, .none) :: links, s => createNestedEntities target entityCreated links s
  | (title, .inlineEntity entity) :: links, s =>
    match env.getNavigationProperty target title with
    | none => .error env.nullPointer
    | some edmNavigationProperty =>
      if edmNavigationProperty.isCollection then .error env.nullPointer
      else do
        let (nestedEntity, s) ←
          writeNested target title edmNavigationProperty entityCreated entity s
        createNestedEntities target (entityCreated.setLink title nestedEntity) links s
  | (title, .inlineEntitySet entities) :: links, s =>
    match env.getNavigationProperty target title with
    | none => .error env.nullPointer
    | some edmNavigationProperty =>
      if edmNavigationProperty.isCollection then do
        let (entityCreated, s) ←
          writeSet target title edmNavigationProperty entityCreated entities s
        createNestedEntities target entityCreated links s
      else .error env.nullPointer

end

end Environment

/-! ### The answer that holds everything -/

mutual

/-- The response for an entity in which every link holds all its entities, in the order of the
payload. The results of the handlers are read in preorder; those that are left come with it. -/
def Entity.answer : Entity R → List R → Option (Response R × List R)
  | .mk _ _, [] => none
  | .mk _ links, result :: results =>
    (answersOfLinks links results).map fun answers => (.mk result (group answers.1), answers.2)

def answersOfLinks : List (RelationName × Inline (Entity R)) → List R →
    Option (List (RelationName × Response R) × List R)
  | [], results => some ([], results)
  | (_, .none) :: links, results => answersOfLinks links results
  | (title, .inlineEntity entity) :: links, results =>
    (entity.answer results).bind fun answer =>
      (answersOfLinks links answer.2).map fun answers =>
        ((title, answer.1) :: answers.1, answers.2)
  | (title, .inlineEntitySet entities) :: links, results =>
    (answersOfSet title entities results).bind fun set =>
      (answersOfLinks links set.2).map fun answers => (set.1 ++ answers.1, answers.2)

def answersOfSet (title : RelationName) : List (Entity R) → List R →
    Option (List (RelationName × Response R) × List R)
  | [], results => some ([], results)
  | entity :: entities, results =>
    (entity.answer results).bind fun answer =>
      (answersOfSet title entities answer.2).map fun answers =>
        ((title, answer.1) :: answers.1, answers.2)

end

/-! ### The answer of the code -/

mutual

def Response.kept : Response R → Response R
  | .mk properties links => .mk properties (keptOfLinks links)

def keptOfLinks : List (RelationName × List (Response R)) → List (RelationName × List (Response R))
  | [] => []
  | (title, entities) :: links =>
    (title, (keptOfSet entities).getLast?.toList) :: keptOfLinks links

def keptOfSet : List (Response R) → List (Response R)
  | [] => []
  | entity :: entities => entity.kept :: keptOfSet entities

end

theorem keptOfSet_eq (entities : List (Response R)) :
    keptOfSet entities = entities.map Response.kept := by
  induction entities with
  | nil => rfl
  | cons entity entities ih => rw [keptOfSet, ih, List.map_cons]

theorem keptOfLinks_eq (links : List (RelationName × List (Response R))) :
    keptOfLinks links = lasts Response.kept links := by
  induction links with
  | nil => rfl
  | cons link links ih => rw [keptOfLinks, ih, keptOfSet_eq, lasts, lasts, List.map_cons]

theorem Response.kept_mk (properties : R) (links : List (RelationName × List (Response R))) :
    (Response.mk properties links).kept = .mk properties (lasts Response.kept links) := by
  rw [Response.kept, keptOfLinks_eq]

theorem setLink_kept (properties : R) (links : List (RelationName × List (Response R)))
    (title : RelationName) (answer : Response R) :
    (Response.mk properties (lasts Response.kept links)).setLink title answer.kept =
      .mk properties (lasts Response.kept (addTo title answer links)) := by
  rw [Response.setLink, lasts_addTo]

/-! ### Runs -/

/-- The calls of handlers between two sessions are those for the inline entities. -/
def WritesAll (inlines : List (RelationName × Entity R)) (s s' : Session R W)
    (writes : List (Write R)) : Prop :=
  s'.writes = s.writes ++ writes ∧
    writes.map (fun write => (write.title, write.entityToWrite)) = inlines

/-- Between two responses, entities were set at the links: the response had the last entity of every
group before, and has it now. -/
def SetsAll (answers : List (RelationName × Response R)) (before after : Response R) : Prop :=
  ∀ properties groups, before = .mk properties (lasts Response.kept groups) →
    after = .mk properties (lasts Response.kept (addEntries groups answers))

section Runs

variable {env : Environment R T W E} {target : T} {title : RelationName}
  {edmNavigationProperty : EdmNavigationProperty} {before after : Response R}
  {inlines inlines' : List (RelationName × Entity R)} {s s₁ s' : Session R W}
  {writes writes' : List (Write R)} {answers answers' : List (RelationName × Response R)}

theorem WritesAll.append (h : WritesAll inlines s s₁ writes)
    (h' : WritesAll inlines' s₁ s' writes') :
    WritesAll (inlines ++ inlines') s s' (writes ++ writes') := by
  obtain ⟨hwrites, hinlines⟩ := h
  obtain ⟨hwrites', hinlines'⟩ := h'
  refine ⟨by rw [hwrites', hwrites, List.append_assoc], ?_⟩
  rw [List.map_append, hinlines, hinlines']

theorem writesAll_nil (s : Session R W) : WritesAll [] s s [] := ⟨(List.append_nil _).symm, rfl⟩

theorem SetsAll.append {middle : Response R} (h : SetsAll answers before middle)
    (h' : SetsAll answers' middle after) : SetsAll (answers ++ answers') before after := by
  intro properties groups hbefore
  rw [h' properties _ (h properties groups hbefore), addEntries, addEntries, addEntries,
    List.foldl_append]

theorem setsAll_nil (before : Response R) : SetsAll [] before before := fun _ _ h => h

theorem setsAll_setLink (answer : Response R) :
    SetsAll [(title, answer)] before (before.setLink title answer.kept) := by
  rintro properties groups rfl
  exact setLink_kept properties groups title answer

theorem writeRelated_writes {nestedEntity : Entity R} {result : R}
    (h : env.writeRelated target title edmNavigationProperty before nestedEntity s =
      .ok (result, s')) :
    ∃ write, WritesAll [(title, nestedEntity)] s s' [write] ∧ write.result = result := by
  obtain ⟨update, -, h⟩ := Except.bind_eq_ok.mp h
  cases update with
  | some primaryKey =>
    obtain ⟨⟨r, database⟩, -, h⟩ := Except.bind_eq_ok.mp h
    cases h
    exact ⟨_, ⟨rfl, rfl⟩, rfl⟩
  | none =>
    obtain ⟨⟨r, database⟩, -, h⟩ := Except.bind_eq_ok.mp h
    obtain ⟨database', -, h⟩ := Except.bind_eq_ok.mp h
    cases h
    exact ⟨_, ⟨rfl, rfl⟩, rfl⟩

mutual

/-- A run for an inline entity calls a handler for it and for each one under it, and its answer is
the one that holds everything, as far as the code keeps it. -/
theorem writeNested_answer : ∀ {entity : Entity R} {target : T} {title : RelationName}
    {edmNavigationProperty : EdmNavigationProperty} {before nested : Response R}
    {s s' : Session R W},
    env.writeNested target title edmNavigationProperty before entity s = .ok (nested, s') →
      ∃ writes answer, WritesAll ((title, entity) :: entity.inlineEntities) s s' writes ∧
        nested = answer.kept ∧ ∀ rest,
          entity.answer (writes.map (·.result) ++ rest) = some (answer, rest)
  | .mk properties links, target, title, edmNavigationProperty, before, nested, s, s' => by
    intro h
    rw [Environment.writeNested] at h
    obtain ⟨⟨result, s₁⟩, hwrite, h⟩ := Except.bind_eq_ok.mp h
    obtain ⟨write, hwrites, rfl⟩ := writeRelated_writes hwrite
    obtain ⟨writes, answers, hwrites', hsets, hanswers⟩ := createNestedEntities_answers h
    refine ⟨write :: writes, .mk write.result (group answers), hwrites.append hwrites', ?_, ?_⟩
    · rw [hsets write.result [] rfl, Response.kept_mk, group]
    · intro rest
      rw [List.map_cons, List.cons_append, Entity.answer, hanswers rest]
      rfl

theorem writeSet_answers : ∀ {entities : List (Entity R)} {target : T} {title : RelationName}
    {edmNavigationProperty : EdmNavigationProperty} {before after : Response R}
    {s s' : Session R W},
    env.writeSet target title edmNavigationProperty before entities s = .ok (after, s') →
      ∃ writes answers, WritesAll (inlinesOfSet title entities) s s' writes ∧
        SetsAll answers before after ∧ ∀ rest,
          answersOfSet title entities (writes.map (·.result) ++ rest) = some (answers, rest)
  | [], target, title, edmNavigationProperty, before, after, s, s' => by
    intro h
    cases h
    exact ⟨[], [], writesAll_nil s, setsAll_nil before, fun rest => rfl⟩
  | entity :: entities, target, title, edmNavigationProperty, before, after, s, s' => by
    intro h
    rw [Environment.writeSet] at h
    obtain ⟨⟨nested, s₁⟩, hentity, h⟩ := Except.bind_eq_ok.mp h
    obtain ⟨writes, answer, hwrites, rfl, hanswer⟩ := writeNested_answer hentity
    obtain ⟨writes', answers, hwrites', hsets, hanswers⟩ := writeSet_answers h
    refine ⟨writes ++ writes', (title, answer) :: answers, hwrites.append hwrites',
      (setsAll_setLink answer).append hsets, fun rest => ?_⟩
    rw [List.map_append, List.append_assoc, answersOfSet, hanswer]
    simp only [Option.bind_some, hanswers, Option.map_some]

theorem createNestedEntities_answers : ∀ {links : List (RelationName × Inline (Entity R))}
    {target : T} {before after : Response R} {s s' : Session R W},
    env.createNestedEntities target before links s = .ok (after, s') →
      ∃ writes answers, WritesAll (inlinesOfLinks links) s s' writes ∧
        SetsAll answers before after ∧ ∀ rest,
          answersOfLinks links (writes.map (·.result) ++ rest) = some (answers, rest)
  | [], target, before, after, s, s' => by
    intro h
    cases h
    exact ⟨[], [], writesAll_nil s, setsAll_nil before, fun rest => rfl⟩
  | (title, .none) :: links, target, before, after, s, s' => by
    intro h
    rw [Environment.createNestedEntities] at h
    obtain ⟨writes, answers, hwrites, hsets, hanswers⟩ := createNestedEntities_answers h
    exact ⟨writes, answers, hwrites, hsets, hanswers⟩
  | (title, .inlineEntity entity) :: links, target, before, after, s, s' => by
    intro h
    rw [Environment.createNestedEntities] at h
    split at h
    · cases h
    · split_ifs at h
      obtain ⟨⟨nested, s₁⟩, hentity, h⟩ := Except.bind_eq_ok.mp h
      obtain ⟨writes, answer, hwrites, rfl, hanswer⟩ := writeNested_answer hentity
      obtain ⟨writes', answers, hwrites', hsets, hanswers⟩ := createNestedEntities_answers h
      refine ⟨writes ++ writes', (title, answer) :: answers, hwrites.append hwrites',
        (setsAll_setLink answer).append hsets, fun rest => ?_⟩
      rw [List.map_append, List.append_assoc, answersOfLinks, hanswer]
      simp only [Option.bind_some, hanswers, Option.map_some]
  | (title, .inlineEntitySet entities) :: links, target, before, after, s, s' => by
    intro h
    rw [Environment.createNestedEntities] at h
    split at h
    · cases h
    · split_ifs at h
      obtain ⟨⟨middle, s₁⟩, hset, h⟩ := Except.bind_eq_ok.mp h
      obtain ⟨writes, set, hwrites, hsets, hset⟩ := writeSet_answers hset
      obtain ⟨writes', answers, hwrites', hsets', hanswers⟩ := createNestedEntities_answers h
      refine ⟨writes ++ writes', set ++ answers, hwrites.append hwrites', hsets.append hsets',
        fun rest => ?_⟩
      rw [List.map_append, List.append_assoc, answersOfLinks, hset]
      simp only [Option.bind_some, hanswers, Option.map_some]

end

end Runs

/-! ### One entity for a navigation -/

def Inline.entities {α : Type} : Inline α → List α
  | .none => []
  | .inlineEntity entity => [entity]
  | .inlineEntitySet entities => entities

def titlesOfLinks (links : List (RelationName × Inline (Entity R))) : List RelationName :=
  links.flatMap fun link => link.2.entities.map fun _ => link.1

mutual

/-- No navigation of the entity, or of an inline entity under it, has two inline entities. -/
def Entity.OnePerNavigation : Entity R → Prop
  | .mk _ links => (titlesOfLinks links).Nodup ∧ oneInLinks links

def oneInLinks : List (RelationName × Inline (Entity R)) → Prop
  | [] => True
  | (_, .none) :: links => oneInLinks links
  | (_, .inlineEntity entity) :: links => entity.OnePerNavigation ∧ oneInLinks links
  | (_, .inlineEntitySet entities) :: links => oneInSet entities ∧ oneInLinks links

def oneInSet : List (Entity R) → Prop
  | [] => True
  | entity :: entities => entity.OnePerNavigation ∧ oneInSet entities

end

def KeepsAll (answers : List (RelationName × Response R)) : Prop :=
  ∀ answer ∈ answers, answer.2.kept = answer.2

mutual

theorem kept_answer_iff : ∀ {entity : Entity R} {results rest : List R} {answer : Response R},
    entity.answer results = some (answer, rest) →
      (answer.kept = answer ↔ entity.OnePerNavigation)
  | .mk properties links, [], rest, answer => by
    intro h
    cases h
  | .mk properties links, result :: results, rest, answer => by
    intro h
    rw [Entity.answer] at h
    obtain ⟨⟨answers, rest'⟩, hanswers, h⟩ := Option.map_eq_some_iff.mp h
    cases h
    obtain ⟨htitles, hkept⟩ := answersOfLinks_kept hanswers
    rw [Response.kept_mk, Response.mk.injEq, and_iff_right rfl, lasts_group_eq_self_iff, htitles,
      Entity.OnePerNavigation, ← hkept]
    rfl

theorem answersOfLinks_kept : ∀ {links : List (RelationName × Inline (Entity R))}
    {results rest : List R} {answers : List (RelationName × Response R)},
    answersOfLinks links results = some (answers, rest) →
      answers.map (·.1) = titlesOfLinks links ∧ (KeepsAll answers ↔ oneInLinks links)
  | [], results, rest, answers => by
    intro h
    cases h
    exact ⟨rfl, iff_of_true (by simp [KeepsAll]) trivial⟩
  | (title, .none) :: links, results, rest, answers => by
    intro h
    rw [answersOfLinks] at h
    obtain ⟨htitles, hkept⟩ := answersOfLinks_kept h
    exact ⟨htitles, hkept⟩
  | (title, .inlineEntity entity) :: links, results, rest, answers => by
    intro h
    rw [answersOfLinks] at h
    obtain ⟨⟨answer, results'⟩, hanswer, h⟩ := Option.bind_eq_some_iff.mp h
    obtain ⟨⟨answers', rest'⟩, hanswers, h⟩ := Option.map_eq_some_iff.mp h
    cases h
    obtain ⟨htitles, hkept⟩ := answersOfLinks_kept hanswers
    refine ⟨congrArg (List.cons title) htitles, ?_⟩
    rw [KeepsAll, List.forall_mem_cons, kept_answer_iff hanswer, oneInLinks, ← hkept]
    rfl
  | (title, .inlineEntitySet entities) :: links, results, rest, answers => by
    intro h
    rw [answersOfLinks] at h
    obtain ⟨⟨set, results'⟩, hset, h⟩ := Option.bind_eq_some_iff.mp h
    obtain ⟨⟨answers', rest'⟩, hanswers, h⟩ := Option.map_eq_some_iff.mp h
    cases h
    obtain ⟨htitles, hkept⟩ := answersOfSet_kept hset
    obtain ⟨htitles', hkept'⟩ := answersOfLinks_kept hanswers
    refine ⟨by rw [List.map_append, htitles, htitles']; rfl, ?_⟩
    rw [KeepsAll, List.forall_mem_append, oneInLinks, ← hkept, ← hkept']
    rfl

theorem answersOfSet_kept : ∀ {entities : List (Entity R)} {title : RelationName}
    {results rest : List R} {answers : List (RelationName × Response R)},
    answersOfSet title entities results = some (answers, rest) →
      answers.map (·.1) = entities.map (fun _ => title) ∧ (KeepsAll answers ↔ oneInSet entities)
  | [], title, results, rest, answers => by
    intro h
    cases h
    exact ⟨rfl, iff_of_true (by simp [KeepsAll]) trivial⟩
  | entity :: entities, title, results, rest, answers => by
    intro h
    rw [answersOfSet] at h
    obtain ⟨⟨answer, results'⟩, hanswer, h⟩ := Option.bind_eq_some_iff.mp h
    obtain ⟨⟨answers', rest'⟩, hanswers, h⟩ := Option.map_eq_some_iff.mp h
    cases h
    obtain ⟨htitles, hkept⟩ := answersOfSet_kept hanswers
    refine ⟨congrArg (List.cons title) htitles, ?_⟩
    rw [KeepsAll, List.forall_mem_cons, kept_answer_iff hanswer, oneInSet, ← hkept]
    rfl

end

/-- Orders have a collection of items, and a handler that creates every entity as it is given. -/
def orderEnvironment : Environment (List Char) Unit Unit Unit where
  nullPointer := ()
  getNavigationProperty _ _ := some ⟨true, ⟨"OrderItem".toList, ["orderItemSeqId".toList]⟩⟩
  getRelatedBindingTarget _ _ := ()
  fieldMap _ _ _ := none
  findOne _ _ _ := .ok false
  findRelatedOne _ _ _ _ := .ok none
  create _ _ _ nestedEntity _ := .ok (nestedEntity.properties, ())
  update _ _ _ nestedEntity _ _ := .ok (nestedEntity.properties, ())
  applyBindingLinks _ _ _ _ := .ok ()

def item (name : List Char) : Entity (List Char) := .mk name []

def orderWith (items : List (Entity (List Char))) : Entity (List Char) :=
  .mk "order".toList [("OrderItems".toList, .inlineEntitySet items)]

def createOrder (items : List (Entity (List Char))) :
    Except Unit (Response (List Char) × Session (List Char) Unit) :=
  orderEnvironment.createNestedEntities () (.mk "order".toList [])
    (orderWith items).navigationLinks ⟨(), []⟩

end OfficeAuto.Odata.Writer
