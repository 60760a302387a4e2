import OfficeAuto.Logic.Forest
import OfficeAuto.Logic.Transition
import OfficeAuto.Odata.KeyString

/-!
# The store of drafts

While an entity is edited in a sticky session, it and its related entities are kept as drafts
in an in-memory database. A draft is a row of the draft table of its entity type, and a record
of `DraftAdministrativeData` with the same key: the record names the table, and the record of
the draft that this one was navigated to from, which is missing for the main draft of a
session. The records form a forest by these parents.

This module has the two tables and the operations of the application that change them:

* the new and the edit action start a session with a main draft; the edit action copies the
  related entities as well, two levels of them (`copyNavigationToDraft`);
* `createNavDraftData` and `createEntityData` add a draft below any draft;
* `updateEntityData` and `deleteEntityData` change a row, the latter by its flags only;
* `clearEntityDraft` removes a main draft with two levels of drafts below it, and
  `saveNewFkEntity` removes single drafts that it has saved; `clearDraft` removes everything.

The key of a draft is random in the source and does not repeat; here it is a number that has not
been used before.
-/

namespace OfficeAuto.Odata

abbrev DraftUUID := Nat

abbrev Name := List Char

/-! ### Entity types -/

/-- A navigation property of an entity type. -/
structure NavigationProperty where
  name : Name
  typeFQN : Name
  isReadOnly : Bool
  preCreate : Bool
  deriving DecidableEq, Repr

/-- An entity type. Without a draft table it has no drafts. -/
structure CsdlEntityType where
  fullQualifiedName : Name
  ofbizEntity : Name
  draftEntityName : Option Name
  navigationProperties : List NavigationProperty
  nodup : (navigationProperties.map NavigationProperty.name).Nodup

def CsdlEntityType.getNavigationProperty (type : CsdlEntityType) (name : Name) :
    Option NavigationProperty :=
  type.navigationProperties.find? fun nav => nav.name = name

/-- The entity types of the application, by name. -/
structure EdmProvider where
  getEntityType : Name → CsdlEntityType

/-! ### Records and rows -/

/-- A record of `DraftAdministrativeData`. -/
structure DraftAdmin where
  draftUUID : DraftUUID
  parentDraftUUID : Option DraftUUID
  originEntityName : Name
  draftEntityName : Option Name
  entityType : Name
  navigationProperty : Option Name
  entityKeyMap : Option (List Char)
  deriving DecidableEq, Repr

/-- A row of a draft table. -/
structure DraftRow where
  draftEntityName : Name
  draftUUID : DraftUUID
  isActiveEntity : Bool
  hasActiveEntity : Bool
  hasDraftEntity : Bool
  fields : List (Name × List Char)
  deriving DecidableEq, Repr

def DraftRow.isDelete (row : DraftRow) : Bool := !row.isActiveEntity && !row.hasDraftEntity

/-- The in-memory database. -/
structure DraftStore where
  admins : List DraftAdmin
  rows : List DraftRow
  nextUUID : DraftUUID
  deriving DecidableEq, Repr

/-- An entity of the database that is edited. -/
structure OdataEntity where
  keyMap : FieldMap
  fields : List (Name × List Char)

/-- The related entities in the database, by navigation property. -/
structure OdataReader where
  findRelatedList : OdataEntity → Name → List OdataEntity

namespace DraftStore

/-! ### Statements -/

def findAdmin (s : DraftStore) (draftUUID : DraftUUID) : Option DraftAdmin :=
  s.admins.find? fun a => a.draftUUID = draftUUID

def findRow (s : DraftStore) (draftEntityName : Name) (draftUUID : DraftUUID) : Option DraftRow :=
  s.rows.find? fun r => r.draftEntityName = draftEntityName ∧ r.draftUUID = draftUUID

def children (s : DraftStore) (parentDraftUUID : DraftUUID) : List DraftAdmin :=
  s.admins.filter fun a => a.parentDraftUUID = some parentDraftUUID

def createDraftAdminData (s : DraftStore) (parentDraftUUID : Option DraftUUID)
    (type : CsdlEntityType) (keyMap : Option FieldMap) (navigationProperty : Option Name) :
    DraftStore :=
  { s with
    admins := s.admins ++ [{
      draftUUID := s.nextUUID
      parentDraftUUID := parentDraftUUID
      originEntityName := type.ofbizEntity
      draftEntityName := type.draftEntityName
      entityType := type.fullQualifiedName
      navigationProperty := navigationProperty
      entityKeyMap := keyMap.map mapToStr }]
    nextUUID := s.nextUUID + 1 }

def createRow (s : DraftStore) (draftEntityName : Option Name) (draftUUID : DraftUUID)
    (isActiveEntity : Bool) (fields : List (Name × List Char)) : DraftStore :=
  match draftEntityName with
  | none => s
  | some table =>
    { s with rows := s.rows ++ [{
        draftEntityName := table
        draftUUID := draftUUID
        isActiveEntity := isActiveEntity
        hasActiveEntity := isActiveEntity
        hasDraftEntity := !isActiveEntity
        fields := fields }] }

def createDraft (s : DraftStore) (parentDraftUUID : Option DraftUUID) (type : CsdlEntityType)
    (keyMap : Option FieldMap) (navigationProperty : Option Name) (isActiveEntity : Bool)
    (fields : List (Name × List Char)) : DraftStore :=
  (s.createDraftAdminData parentDraftUUID type keyMap navigationProperty).createRow
    type.draftEntityName s.nextUUID isActiveEntity fields

def removeByAnd (s : DraftStore) (draftEntityName : Name) (draftUUID : DraftUUID) : DraftStore :=
  { s with rows := s.rows.filter fun r =>
      ¬ (r.draftEntityName = draftEntityName ∧ r.draftUUID = draftUUID) }

def removeAdmin (s : DraftStore) (draftUUID : DraftUUID) : DraftStore :=
  { s with admins := s.admins.filter fun a => ¬ a.draftUUID = draftUUID }

def updateRow (s : DraftStore) (draftEntityName : Name) (draftUUID : DraftUUID)
    (f : DraftRow → DraftRow) : DraftStore :=
  { s with rows := s.rows.map fun r =>
      if r.draftEntityName = draftEntityName ∧ r.draftUUID = draftUUID then
        { f r with draftEntityName := r.draftEntityName, draftUUID := r.draftUUID }
      else r }

/-! ### The start of a session -/

def stickySessionNewAction (s : DraftStore) (type : CsdlEntityType) (internalKeyMap : FieldMap)
    (fields : List (Name × List Char)) : DraftStore :=
  s.createDraft none type (some internalKeyMap) none false fields

/-- A navigation property whose entities are not copied: no draft table, the table of the main
draft, or read-only. -/
def skipsNavigation (provider : EdmProvider) (mainEntityDraftName : Option Name)
    (nav : NavigationProperty) : Bool :=
  let draftNavEntityName := (provider.getEntityType nav.typeFQN).draftEntityName
  draftNavEntityName.isNone || draftNavEntityName == mainEntityDraftName || nav.isReadOnly

/-- The loops of `copyNavigationToDraft`: every related entity is copied, and what is below it
by `copyBelow`. -/
def copyRelated (provider : EdmProvider) (reader : OdataReader) (mainEntityDraftName : Option Name)
    (copyBelow : CsdlEntityType → OdataEntity → DraftUUID → DraftStore → DraftStore)
    (type : CsdlEntityType) (entity : OdataEntity) (parentUUID : DraftUUID) (s : DraftStore) :
    DraftStore :=
  type.navigationProperties.foldl (fun s nav =>
    if skipsNavigation provider mainEntityDraftName nav then s
    else (reader.findRelatedList entity nav.name).foldl (fun s related =>
      let navType := provider.getEntityType nav.typeFQN
      let navDraftUUID := s.nextUUID
      copyBelow navType related navDraftUUID
        (s.createDraft (some parentUUID) navType (some related.keyMap) (some nav.name) true
          related.fields)) s) s

/-- `copyNavigationToDraft`, with the number of levels that are still to copy below the related
entities. -/
def copyNavigationToDraft (provider : EdmProvider) (reader : OdataReader)
    (mainEntityDraftName : Option Name) :
    ℕ → CsdlEntityType → OdataEntity → DraftUUID → DraftStore → DraftStore
  | 0 => copyRelated provider reader mainEntityDraftName fun _ _ _ s => s
  | left + 1 => copyRelated provider reader mainEntityDraftName
      (copyNavigationToDraft provider reader mainEntityDraftName left)

/-- `stickySessionEditAction`: a draft of the entity that exists is edited further. Only two
levels are copied for now. -/
def stickySessionEditAction (provider : EdmProvider) (reader : OdataReader) (s : DraftStore)
    (type : CsdlEntityType) (entity : OdataEntity) : DraftStore :=
  let existing := s.admins.find? fun a => a.originEntityName = type.ofbizEntity ∧
    a.draftEntityName = type.draftEntityName ∧ a.entityKeyMap = some (mapToStr entity.keyMap)
  match existing with
  | some _ => s
  | none =>
    let sapContextId := s.nextUUID
    let s := s.createDraft none type (some entity.keyMap) none true entity.fields
    match type.draftEntityName with
    | none => s
    | some _ => copyNavigationToDraft provider reader type.draftEntityName 1 type entity
        sapContextId s

/-! ### Drafts below drafts -/

/-- `Util.createNavDraftData`. A parent without a record, or a property that its type does not
have, is a null pointer exception before anything is written. -/
def createNavDraftData (provider : EdmProvider) (s : DraftStore) (parentDraftId : DraftUUID)
    (primaryKey : FieldMap) (navigationName : Name) (fields : List (Name × List Char)) :
    DraftStore :=
  match s.findAdmin parentDraftId with
  | none => s
  | some parentDraftValue =>
    let parentType := provider.getEntityType parentDraftValue.entityType
    match parentType.getNavigationProperty navigationName with
    | none => s
    | some nav => s.createDraft (some parentDraftId) (provider.getEntityType nav.typeFQN)
        (some primaryKey) (some navigationName) false fields

/-- `createEntityData` below a draft that is read from its table; a navigation property to a type
without a draft table throws before anything is written. -/
def createEntityData (provider : EdmProvider) (s : DraftStore) (mainType : CsdlEntityType)
    (mainEntity : DraftRow) (navigationName : Name) (fields : List (Name × List Char)) :
    DraftStore :=
  if mainEntity ∈ s.rows then
    match mainType.getNavigationProperty navigationName with
    | none => s
    | some nav =>
      let navType := provider.getEntityType nav.typeFQN
      match navType.draftEntityName with
      | none => s
      | some _ => s.createDraft (some mainEntity.draftUUID) navType none (some navigationName)
          false fields
  else s

def updateEntityData (s : DraftStore) (draftEntityName : Name) (draftUUID : DraftUUID)
    (fields : List (Name × List Char)) : DraftStore :=
  s.updateRow draftEntityName draftUUID fun r =>
    { r with isActiveEntity := false, hasDraftEntity := true, fields := fields ++ r.fields }

def deleteEntityData (s : DraftStore) (draftEntityName : Name) (draftUUID : DraftUUID) :
    DraftStore :=
  s.updateRow draftEntityName draftUUID fun r =>
    { r with isActiveEntity := false, hasDraftEntity := false }

/-! ### Removal -/

/-- The loop of `clearEntityDraft`: the rows and the records of drafts. A record without a
draft table is an exception, which ends the loop. -/
def removeDrafts : List DraftAdmin → DraftStore → DraftStore
  | [], s => s
  | draftAdmin :: draftAdminList, s =>
    match draftAdmin.draftEntityName with
    | none => s
    | some table => removeDrafts draftAdminList
        ((s.removeByAnd table draftAdmin.draftUUID).removeAdmin draftAdmin.draftUUID)

/-- The records that `clearEntityDraft` removes: the main draft, those below it, and those below
these. -/
def draftAdminList (s : DraftStore) (mainDraftAdminData : DraftAdmin) : List DraftAdmin :=
  let subDraftAdminDataList := s.children mainDraftAdminData.draftUUID
  let navDraftUUIDs := subDraftAdminDataList.map DraftAdmin.draftUUID
  let subDraftAdminDataList2 := s.admins.filter fun a => ∃ u ∈ navDraftUUIDs,
    a.parentDraftUUID = some u
  mainDraftAdminData :: subDraftAdminDataList ++ subDraftAdminDataList2

/-- **`clearEntityDraft`.** -/
def clearEntityDraft (s : DraftStore) (sapContextId : DraftUUID) : DraftStore :=
  match s.findAdmin sapContextId with
  | none => s
  | some mainDraftAdminData => removeDrafts (s.draftAdminList mainDraftAdminData) s

/-- What `saveNewFkEntity` removes after it has saved a draft: `removeByAnd` of its table and of
the records. -/
def removeNewFkDraft (s : DraftStore) (draftUUID : DraftUUID) : DraftStore :=
  match s.findAdmin draftUUID with
  | none => s
  | some draftAdmin =>
    match draftAdmin.draftEntityName with
    | none => s
    | some table => (s.removeByAnd table draftUUID).removeAdmin draftUUID

def clearDraft (s : DraftStore) : DraftStore :=
  { s with
    admins := []
    rows := s.rows.filter fun r => ∀ a ∈ s.admins,
      ¬ (a.draftEntityName = some r.draftEntityName ∧ a.draftUUID = r.draftUUID) }

end DraftStore

/-! ### Runs -/

/-- The operations on drafts, with what the request says. -/
inductive DraftEvent
  | newAction (typeFQN : Name) (internalKeyMap : FieldMap) (fields : List (Name × List Char))
  | editAction (typeFQN : Name) (entity : OdataEntity)
  | createNavDraftData (parentDraftId : DraftUUID) (primaryKey : FieldMap)
    (navigationName : Name) (fields : List (Name × List Char))
  | createEntityData (mainTypeFQN : Name) (mainEntity : DraftRow) (navigationName : Name)
    (fields : List (Name × List Char))
  | updateEntityData (draftEntityName : Name) (draftUUID : DraftUUID)
    (fields : List (Name × List Char))
  | deleteEntityData (draftEntityName : Name) (draftUUID : DraftUUID)
  | clearEntityDraft (sapContextId : DraftUUID)
  | removeNewFkDraft (draftUUID : DraftUUID)
  | clearDraft

/-- **One operation.** The related entities are those of the database at that time. -/
def DraftStore.step (provider : EdmProvider) (reader : OdataReader) (s : DraftStore) :
    DraftEvent → DraftStore
  | .newAction typeFQN internalKeyMap fields =>
    s.stickySessionNewAction (provider.getEntityType typeFQN) internalKeyMap fields
  | .editAction typeFQN entity =>
    s.stickySessionEditAction provider reader (provider.getEntityType typeFQN) entity
  | .createNavDraftData parentDraftId primaryKey navigationName fields =>
    s.createNavDraftData provider parentDraftId primaryKey navigationName fields
  | .createEntityData mainTypeFQN mainEntity navigationName fields =>
    s.createEntityData provider (provider.getEntityType mainTypeFQN) mainEntity navigationName
      fields
  | .updateEntityData draftEntityName draftUUID fields =>
    s.updateEntityData draftEntityName draftUUID fields
  | .deleteEntityData draftEntityName draftUUID => s.deleteEntityData draftEntityName draftUUID
  | .clearEntityDraft sapContextId => s.clearEntityDraft sapContextId
  | .removeNewFkDraft draftUUID => s.removeNewFkDraft draftUUID
  | .clearDraft => s.clearDraft

def draftSystem (provider : EdmProvider) : System DraftStore (OdataReader × DraftEvent) where
  init s := s = ⟨[], [], 0⟩
  step s e s' := s' = s.step provider e.1 e.2

end OfficeAuto.Odata
