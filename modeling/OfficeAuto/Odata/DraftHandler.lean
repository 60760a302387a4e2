import OfficeAuto.Odata.DraftClear
import Mathlib.Data.Fintype.EquivFin

/-!
# Drafts that are read and written in a session

`DefaultDraftHandler` reads, lists, updates and deletes the drafts of a sticky session, and
`ProcessorServices.findDraftValue` finds the draft that a service is to change. The drafts of all
sessions share their tables, and the drafts of a session are those whose parents lead to its main
draft (`InSession`).

**Isolation.** An operation in a session is isolated if what it returns and changes are drafts of
the session, and it does the same whatever drafts the other sessions hold (`Isolated`). The lookups
by the key of the entity do not ask for the session (`isolated_iff`).
-/

namespace OfficeAuto.Odata

open Forest

/-! ### Keys and requests -/

/-- Columns of a draft that have to have given values; `none` is a missing value. -/
abbrev FieldConditions := List (Name × Option (List Char))

def FieldConditions.hold (conditions : FieldConditions) (fields : List (Name × List Char)) : Bool :=
  conditions.all fun e => fields.lookup e.1 == e.2

/-- The key map of a request. -/
structure DraftKeyMap where
  draftUUID : Option DraftUUID := none
  isActiveEntity : Option Bool := none
  fields : FieldConditions
  nodup : (fields.map Prod.fst).Nodup

def DraftKeyMap.holds (key : DraftKeyMap) (row : DraftRow) : Bool :=
  key.draftUUID.all (· == row.draftUUID) && key.isActiveEntity.all (· == row.isActiveEntity) &&
    key.fields.hold row.fields

/-- What a request writes into a draft. -/
structure DraftBody where
  draftUUID : Option DraftUUID := none
  fields : List (Name × List Char)

def DraftBody.putAll (body : DraftBody) (row : DraftRow) : DraftRow :=
  { row with
    draftUUID := body.draftUUID.getD row.draftUUID
    fields := (body.fields.filter fun e => e.2 ≠ []) ++
      row.fields.filter fun e => !(body.fields.any fun e' => e'.1 == e.1) }

/-- The navigation from a main entity: its draft, the navigation property, and what the relation
says of the fields. -/
structure DraftNavigation where
  parentDraftUUID : DraftUUID
  navigationProperty : Name
  entityType : Name
  relation : FieldConditions

inductive DraftFailure
  | notFound
  | nullPointer
  | entityNotFound
  deriving DecidableEq

namespace DraftStore

variable (s : DraftStore)

/-! ### Reads -/

/-- `EntityQuery.from(draftEntityName).where(keyMap).queryFirst()` -/
def queryFirst (draftEntityName : Name) (key : DraftKeyMap) : Option DraftRow :=
  s.rows.find? fun row => row.draftEntityName == draftEntityName && key.holds row

def navDraftIds (navigation : DraftNavigation) : List DraftUUID :=
  (s.admins.filter fun admin => admin.parentDraftUUID == some navigation.parentDraftUUID &&
    admin.navigationProperty == some navigation.navigationProperty &&
    admin.entityType == navigation.entityType).map DraftAdmin.draftUUID

def isRelated (draftEntityName : Name) (navigation : DraftNavigation) (key : DraftKeyMap)
    (row : DraftRow) : Bool :=
  row.draftEntityName == draftEntityName && (s.navDraftIds navigation).contains row.draftUUID &&
    navigation.relation.hold row.fields && key.holds row

def queryRelated (draftEntityName : Name) (navigation : DraftNavigation) (key : DraftKeyMap) :
    Option DraftRow :=
  s.rows.find? (s.isRelated draftEntityName navigation key)

/-- **`finOne`.** -/
def finOne (draftEntityName : Name) (key : DraftKeyMap) (navigation : Option DraftNavigation) :
    Except DraftFailure (List DraftRow) :=
  let genericValue := match navigation with
    | none => s.queryFirst draftEntityName key
    | some navigation => s.queryRelated draftEntityName navigation key
  match genericValue with
  | none => .error .notFound
  | some genericValue => .ok [genericValue]

def navDraftAdminList (draftEntityName : Name) (navigation : DraftNavigation) : List DraftAdmin :=
  s.admins.filter fun admin => admin.parentDraftUUID == some navigation.parentDraftUUID &&
    admin.entityType == navigation.entityType &&
    admin.draftEntityName == some draftEntityName &&
    admin.navigationProperty == some navigation.navigationProperty

/-- **`findList`**, in the order of the entity type. -/
def findList (draftEntityName : Name) (navigation : DraftNavigation)
    (orderBy : DraftRow → DraftRow → Bool) : List DraftRow :=
  let navDraftIds := (s.navDraftAdminList draftEntityName navigation).map DraftAdmin.draftUUID
  (s.rows.filter fun row => row.draftEntityName == draftEntityName &&
    (row.isActiveEntity || row.hasDraftEntity) && navDraftIds.contains row.draftUUID).mergeSort
    orderBy

def subDraftAdminDataList (draftEntityName : Name) (sapContextId : DraftUUID) : List DraftAdmin :=
  s.admins.filter fun admin => admin.parentDraftUUID == some sapContextId &&
    admin.draftEntityName == some draftEntityName

def subDraftUUIDs (draftEntityName : Name) (sapContextId : DraftUUID) : List DraftUUID :=
  (s.subDraftAdminDataList draftEntityName sapContextId).map DraftAdmin.draftUUID

def isPossible (draftEntityName : Name) (key : DraftKeyMap) (subDraftUUIDs : List DraftUUID)
    (row : DraftRow) : Bool :=
  row.draftEntityName == draftEntityName && key.holds row && subDraftUUIDs.contains row.draftUUID

def findDraftValue (draftEntityName : Name) (draftUUID : Option DraftUUID) (key : DraftKeyMap)
    (sapContextId : DraftUUID) : Option DraftRow :=
  match draftUUID with
  | some draftUUID => s.findRow draftEntityName draftUUID
  | none =>
    match (s.findAdmin sapContextId).bind DraftAdmin.draftEntityName with
    -- a main draft without a record or a table is a null pointer exception
    | none => none
    | some mainDraftEntityName =>
      if mainDraftEntityName = draftEntityName then s.findRow draftEntityName sapContextId
      else
        let subDraftUUIDs := s.subDraftUUIDs draftEntityName sapContextId
        (s.rows.find? (isPossible draftEntityName key subDraftUUIDs)).or
          (s.queryFirst draftEntityName key)

/-! ### Writes -/

/-- `delegator.store`: the row with the key of the value is overwritten. -/
def store (row : DraftRow) : Except DraftFailure (List DraftRow) × DraftStore :=
  match s.findRow row.draftEntityName row.draftUUID with
  | none => (.error .entityNotFound, s)
  | some _ => (.ok [row], s.updateRow row.draftEntityName row.draftUUID fun _ => row)

/-- **`updateEntity`**, as `updateEntityData` calls it. -/
def updateEntity (draftEntityName : Name) (key : DraftKeyMap) (body : DraftBody) :
    Except DraftFailure (List DraftRow) × DraftStore :=
  match s.queryFirst draftEntityName key with
  | none => (.error .nullPointer, s)
  | some row => s.store { body.putAll row with isActiveEntity := false, hasDraftEntity := true }

/-- **`deleteEntity`**: the draft is marked as deleted. -/
def deleteEntity (draftEntityName : Name) (draftUUID : Option DraftUUID) : DraftStore :=
  match draftUUID with
  | none => s
  | some draftUUID => s.deleteEntityData draftEntityName draftUUID

/-- **`updateEntityToDraft`** and `deleteEntityFromDraft`, which writes the flags only. The
`draftUUID` is the one of the fields that are written. -/
def updateEntityToDraft (draftEntityName : Name) (draftUUID : Option DraftUUID) (key : DraftKeyMap)
    (sapContextId : DraftUUID) (fields : List (Name × List Char)) (hasDraftEntity : Bool) :
    Except DraftFailure (List DraftRow) × DraftStore :=
  match s.findDraftValue draftEntityName draftUUID key sapContextId with
  | none => (.error .nullPointer, s)
  | some row =>
    s.store { (DraftBody.putAll ⟨draftUUID, fields⟩ row) with
      isActiveEntity := false, hasDraftEntity := hasDraftEntity }

end DraftStore

/-- An operation on the drafts of a session. -/
inductive DraftOperation
  | finOne (draftEntityName : Name) (key : DraftKeyMap) (navigation : Option DraftNavigation)
  | findList (draftEntityName : Name) (navigation : DraftNavigation)
    (orderBy : DraftRow → DraftRow → Bool)
  | updateEntity (draftEntityName : Name) (key : DraftKeyMap) (body : DraftBody)
  | deleteEntity (draftEntityName : Name) (draftUUID : Option DraftUUID)
  | updateEntityToDraft (draftEntityName : Name) (draftUUID : Option DraftUUID) (key : DraftKeyMap)
    (fields : List (Name × List Char)) (hasDraftEntity : Bool)

def DraftOperation.run (sapContextId : DraftUUID) (s : DraftStore) :
    DraftOperation → Except DraftFailure (List DraftRow) × DraftStore
  | finOne draftEntityName key navigation => (s.finOne draftEntityName key navigation, s)
  | findList draftEntityName navigation orderBy =>
    (.ok (s.findList draftEntityName navigation orderBy), s)
  | updateEntity draftEntityName key body => s.updateEntity draftEntityName key body
  | deleteEntity draftEntityName draftUUID => (.ok [], s.deleteEntity draftEntityName draftUUID)
  | updateEntityToDraft draftEntityName draftUUID key fields hasDraftEntity =>
    s.updateEntityToDraft draftEntityName draftUUID key sapContextId fields hasDraftEntity

/-! ### Sessions -/

def DraftStore.InSession (s : DraftStore) (m d : DraftUUID) : Prop :=
  ∃ k, Below s.parentOf m k d

open Classical in
noncomputable def DraftStore.sessionRows (s : DraftStore) (m : DraftUUID) : List DraftRow :=
  s.rows.filter fun row => s.InSession m row.draftUUID

open Classical in
noncomputable def DraftStore.sessionAdmins (s : DraftStore) (m : DraftUUID) : List DraftAdmin :=
  s.admins.filter fun admin => s.InSession m admin.draftUUID

/-- The stores differ in the drafts of other sessions only. -/
structure SameSession (m : DraftUUID) (s s' : DraftStore) : Prop where
  admins : s'.sessionAdmins m = s.sessionAdmins m
  rows : s'.sessionRows m = s.sessionRows m

/-- **Isolation** of an operation in a session: it returns and changes drafts of the session only,
and it does the same in every store that differs in the other sessions. -/
structure DraftOperation.Isolated (op : DraftOperation) (m : DraftUUID) (s : DraftStore) :
    Prop where
  returned : ∀ rows, (op.run m s).1 = .ok rows → ∀ row ∈ rows, s.InSession m row.draftUUID
  removed : ∀ row ∈ s.rows, row ∉ (op.run m s).2.rows → s.InSession m row.draftUUID
  added : ∀ row ∈ (op.run m s).2.rows, row ∉ s.rows → s.InSession m row.draftUUID
  same : ∀ s', DraftStore.DraftInv s' → SameSession m s s' → (op.run m s').1 = (op.run m s).1 ∧
    (op.run m s').2.sessionRows m = (op.run m s).2.sessionRows m

namespace DraftStore

def Names (s : DraftStore) (m : DraftUUID) (key : DraftKeyMap) : Prop :=
  ∃ u, key.draftUUID = some u ∧ s.InSession m u

def HasOwn (s : DraftStore) (m : DraftUUID) (draftEntityName : Name) (key : DraftKeyMap) : Prop :=
  ∃ row ∈ s.rows, s.InSession m row.draftUUID ∧ row.draftEntityName = draftEntityName ∧
    key.holds row = true

def Contradicts (navigation : DraftNavigation) (key : DraftKeyMap) : Prop :=
  ∀ fields, ¬ (navigation.relation.hold fields = true ∧ key.fields.hold fields = true)

/-- A lookup below a main entity stays in the session: the main entity is one of its drafts, or
the key names one, or there is nothing to be found. -/
def StaysRelated (s : DraftStore) (m : DraftUUID) (navigation : DraftNavigation)
    (key : DraftKeyMap) : Prop :=
  s.InSession m navigation.parentDraftUUID ∨ s.Names m key ∨ Contradicts navigation key

/-- Some row right below the main draft is in the table and has the key. -/
def HasPossible (s : DraftStore) (m : DraftUUID) (draftEntityName : Name) (key : DraftKeyMap) :
    Prop :=
  ∃ row ∈ s.rows, row.draftEntityName = draftEntityName ∧ key.holds row = true ∧
    ∃ admin ∈ s.admins, admin.draftUUID = row.draftUUID ∧ admin.parentDraftUUID = some m ∧
      admin.draftEntityName = some draftEntityName

/-- `findDraftValue` stays in the session: a draft of the session is named, or the draft is the
main draft, or one right below it has the key. -/
def StaysDraftValue (s : DraftStore) (m : DraftUUID) (draftEntityName : Name)
    (draftUUID : Option DraftUUID) (key : DraftKeyMap) : Prop :=
  match draftUUID with
  | some draftUUID => s.InSession m draftUUID
  | none => ∀ table, (s.findAdmin m).bind DraftAdmin.draftEntityName = some table →
      table = draftEntityName ∨ s.Names m key ∨ s.HasPossible m draftEntityName key

end DraftStore

def DraftOperation.StaysIn (m : DraftUUID) (s : DraftStore) : DraftOperation → Prop
  | finOne _ key none => s.Names m key
  | finOne _ key (some navigation) => s.StaysRelated m navigation key
  | findList _ navigation _ => s.InSession m navigation.parentDraftUUID
  | updateEntity draftEntityName key body =>
    (s.Names m key ∧ (s.queryFirst draftEntityName key = none ∨
      ∀ w, body.draftUUID = some w → s.InSession m w)) ∨
    (s.HasOwn m draftEntityName key ∧ ∃ w, body.draftUUID = some w ∧ s.InSession m w ∧
      s.findRow draftEntityName w = none)
  | deleteEntity draftEntityName draftUUID => ∀ u, draftUUID = some u → s.InSession m u ∨
      ∀ row ∈ s.rows, row.draftEntityName = draftEntityName → row.draftUUID = u →
        row.isActiveEntity = false ∧ row.hasDraftEntity = false
  | updateEntityToDraft draftEntityName draftUUID key _ _ =>
    s.StaysDraftValue m draftEntityName draftUUID key

/-! ### The session of a draft -/

namespace DraftStore

variable {s s' : DraftStore} {m d u p : DraftUUID}

theorem InSession.root (s : DraftStore) (m : DraftUUID) : s.InSession m m := ⟨0, Below.root⟩

theorem InSession.child (h : s.InSession m p) (hparent : s.parentOf d = some p) :
    s.InSession m d := by
  obtain ⟨k, hbelow⟩ := h
  exact ⟨k + 1, Below.child hbelow hparent⟩

theorem DraftInv.inSession_of_parent (hs : DraftInv s) {admin : DraftAdmin}
    (hadmin : admin ∈ s.admins) (hparent : admin.parentDraftUUID = some p)
    (hp : s.InSession m p) : s.InSession m admin.draftUUID :=
  hp.child ((hs.parentOf_of_mem hadmin).trans hparent)

theorem Names.inSession_of_holds {key : DraftKeyMap} (h : s.Names m key) {row : DraftRow}
    (hrow : key.holds row = true) : s.InSession m row.draftUUID := by
  obtain ⟨u, hu, hin⟩ := h
  rw [DraftKeyMap.holds, hu] at hrow
  simp only [Option.all_some, Bool.and_eq_true, beq_iff_eq] at hrow
  rw [← hrow.1.1]
  exact hin

theorem mem_sessionAdmins {admin : DraftAdmin} :
    admin ∈ s.sessionAdmins m ↔ admin ∈ s.admins ∧ s.InSession m admin.draftUUID := by
  simp [sessionAdmins]

theorem mem_sessionRows {row : DraftRow} :
    row ∈ s.sessionRows m ↔ row ∈ s.rows ∧ s.InSession m row.draftUUID := by
  simp [sessionRows]

end DraftStore

open DraftStore

namespace SameSession

variable {s s' : DraftStore} {m d u : DraftUUID}

theorem symm (h : SameSession m s s') : SameSession m s' s := ⟨h.admins.symm, h.rows.symm⟩

theorem mem_admins (h : SameSession m s s') {admin : DraftAdmin} (hadmin : admin ∈ s.admins)
    (hin : s.InSession m admin.draftUUID) : admin ∈ s'.admins := by
  have hmem : admin ∈ s'.sessionAdmins m := by
    rw [h.admins]
    exact mem_sessionAdmins.mpr ⟨hadmin, hin⟩
  exact (mem_sessionAdmins.mp hmem).1

theorem mem_rows (h : SameSession m s s') {row : DraftRow} (hrow : row ∈ s.rows)
    (hin : s.InSession m row.draftUUID) : row ∈ s'.rows := by
  have hmem : row ∈ s'.sessionRows m := by
    rw [h.rows]
    exact mem_sessionRows.mpr ⟨hrow, hin⟩
  exact (mem_sessionRows.mp hmem).1

/-- A draft of the session is in it in the other store as well: the records on its way to the main
draft are drafts of the session. -/
theorem inSession (h : SameSession m s s') (hs' : DraftInv s') (hd : s.InSession m d) :
    s'.InSession m d := by
  obtain ⟨k, hbelow⟩ := hd
  induction hbelow with
  | root => exact InSession.root s' m
  | @child k p d hbelow hparent ih =>
    obtain ⟨admin, hadmin, rfl, hadminParent⟩ := exists_of_parentOf hparent
    have hmem := h.mem_admins hadmin ⟨k + 1, Below.child hbelow hparent⟩
    exact hs'.inSession_of_parent hmem hadminParent ih

theorem inSession_iff (h : SameSession m s s') (hs : DraftInv s) (hs' : DraftInv s') :
    s'.InSession m d ↔ s.InSession m d :=
  ⟨h.symm.inSession hs, h.inSession hs'⟩

theorem find?_rows (h : SameSession m s s') (hs : DraftInv s) (hs' : DraftInv s')
    {p : DraftRow → Bool} (hp : ∀ row, p row = true → s.InSession m row.draftUUID) :
    s'.rows.find? p = s.rows.find? p := by
  have hsession (t : DraftStore) (ht : ∀ row, p row = true → t.InSession m row.draftUUID) :
      t.rows.find? p = (t.sessionRows m).find? p := by
    rw [sessionRows, List.find?_filter]
    congr
    funext row
    cases hrow : p row with
    | false => simp
    | true => simp [ht row hrow]
  rw [hsession s hp, hsession s' fun row hrow => (h.inSession_iff hs hs').mpr (hp row hrow),
    h.rows]

theorem filter_rows (h : SameSession m s s') (hs : DraftInv s) (hs' : DraftInv s')
    {p : DraftRow → Bool} (hp : ∀ row, p row = true → s.InSession m row.draftUUID) :
    s'.rows.filter p = s.rows.filter p := by
  have hsession (t : DraftStore) (ht : ∀ row, p row = true → t.InSession m row.draftUUID) :
      t.rows.filter p = (t.sessionRows m).filter p := by
    rw [sessionRows, List.filter_filter]
    congr
    funext row
    cases hrow : p row with
    | false => simp
    | true => simp [ht row hrow]
  rw [hsession s hp, hsession s' fun row hrow => (h.inSession_iff hs hs').mpr (hp row hrow),
    h.rows]

theorem filter_admins (h : SameSession m s s') {p : DraftAdmin → Bool}
    (hp : ∀ admin ∈ s.admins, p admin = true → s.InSession m admin.draftUUID)
    (hp' : ∀ admin ∈ s'.admins, p admin = true → s'.InSession m admin.draftUUID) :
    s'.admins.filter p = s.admins.filter p := by
  have hsession (t : DraftStore)
      (ht : ∀ admin ∈ t.admins, p admin = true → t.InSession m admin.draftUUID) :
      t.admins.filter p = (t.sessionAdmins m).filter p := by
    rw [sessionAdmins, List.filter_filter]
    refine List.filter_congr fun admin hadmin => ?_
    cases hrow : p admin with
    | false => simp
    | true => simp [ht admin hadmin hrow]
  rw [hsession s hp, hsession s' hp', h.admins]

/-! ### Lookups that stay in the session -/

variable {draftEntityName : Name} {key : DraftKeyMap} {row : DraftRow}

theorem findRow (h : SameSession m s s') (hs : DraftInv s) (hs' : DraftInv s')
    (hu : s.InSession m u) : s'.findRow draftEntityName u = s.findRow draftEntityName u := by
  refine h.find?_rows hs hs' fun _ hrow => ?_
  rw [(of_decide_eq_true hrow).2]
  exact hu

theorem findAdmin (h : SameSession m s s') (hs : DraftInv s) (hs' : DraftInv s')
    (hu : s.InSession m u) : s'.findAdmin u = s.findAdmin u := by
  have hfilter := h.filter_admins (p := fun admin => decide (admin.draftUUID = u))
    (fun admin _ hadmin => by rw [of_decide_eq_true hadmin]; exact hu)
    (fun admin _ hadmin => by
      rw [of_decide_eq_true hadmin]
      exact (h.inSession_iff hs hs').mpr hu)
  rw [DraftStore.findAdmin, DraftStore.findAdmin, ← List.head?_filter, ← List.head?_filter, hfilter]

theorem queryFirst (h : SameSession m s s') (hs : DraftInv s) (hs' : DraftInv s')
    (hkey : s.Names m key) :
    s'.queryFirst draftEntityName key = s.queryFirst draftEntityName key :=
  h.find?_rows hs hs' fun _ hrow =>
    hkey.inSession_of_holds (Bool.and_eq_true_iff.mp hrow).2

end SameSession

namespace DraftStore

variable {s s' : DraftStore} {m d u : DraftUUID} {draftEntityName : Name} {key : DraftKeyMap}
  {navigation : DraftNavigation} {row : DraftRow}

theorem findRow_eq_some (h : s.findRow draftEntityName u = some row) :
    row ∈ s.rows ∧ row.draftEntityName = draftEntityName ∧ row.draftUUID = u :=
  ⟨List.mem_of_find?_eq_some h, by simpa using List.find?_some h⟩

theorem queryFirst_eq_some (h : s.queryFirst draftEntityName key = some row) :
    row ∈ s.rows ∧ row.draftEntityName = draftEntityName ∧ key.holds row = true := by
  rw [queryFirst] at h
  have hrow := List.find?_some h
  rw [Bool.and_eq_true_iff, beq_iff_eq] at hrow
  exact ⟨List.mem_of_find?_eq_some h, hrow⟩

theorem mem_navDraftIds : d ∈ s.navDraftIds navigation ↔ ∃ admin ∈ s.admins,
    admin.draftUUID = d ∧ admin.parentDraftUUID = some navigation.parentDraftUUID ∧
      admin.navigationProperty = some navigation.navigationProperty ∧
      admin.entityType = navigation.entityType := by
  simp only [navDraftIds, List.mem_map, List.mem_filter, Bool.and_eq_true, beq_iff_eq]
  constructor
  · rintro ⟨admin, ⟨hadmin, ⟨hparent, hnav⟩, htype⟩, rfl⟩
    exact ⟨admin, hadmin, rfl, hparent, hnav, htype⟩
  · rintro ⟨admin, hadmin, rfl, hparent, hnav, htype⟩
    exact ⟨admin, ⟨hadmin, ⟨hparent, hnav⟩, htype⟩, rfl⟩

theorem DraftInv.inSession_of_navDraftIds (hs : DraftInv s)
    (hparent : s.InSession m navigation.parentDraftUUID) (hd : d ∈ s.navDraftIds navigation) :
    s.InSession m d := by
  obtain ⟨admin, hadmin, rfl, hadminParent, -⟩ := mem_navDraftIds.mp hd
  exact hs.inSession_of_parent hadmin hadminParent hparent

theorem DraftInv.inSession_of_navDraftAdmin (hs : DraftInv s)
    (hparent : s.InSession m navigation.parentDraftUUID) {admin : DraftAdmin}
    (hadmin : admin ∈ s.navDraftAdminList draftEntityName navigation) :
    s.InSession m admin.draftUUID := by
  obtain ⟨hmem, hp⟩ := List.mem_filter.mp hadmin
  simp only [Bool.and_eq_true, beq_iff_eq] at hp
  exact hs.inSession_of_parent hmem hp.1.1.1 hparent

theorem DraftInv.inSession_of_subDraft (hs : DraftInv s) {admin : DraftAdmin}
    (hadmin : admin ∈ s.subDraftAdminDataList draftEntityName m) :
    s.InSession m admin.draftUUID := by
  obtain ⟨hmem, hp⟩ := List.mem_filter.mp hadmin
  simp only [Bool.and_eq_true, beq_iff_eq] at hp
  exact hs.inSession_of_parent hmem hp.1 (InSession.root s m)

theorem DraftInv.inSession_of_isPossible (hs : DraftInv s)
    (hrow : isPossible draftEntityName key (s.subDraftUUIDs draftEntityName m) row = true) :
    s.InSession m row.draftUUID := by
  rw [isPossible, Bool.and_eq_true_iff, List.contains_iff_mem, subDraftUUIDs, List.mem_map] at hrow
  obtain ⟨-, admin, hadmin, hid⟩ := hrow
  rw [← hid]
  exact hs.inSession_of_subDraft hadmin

theorem HasPossible.exists_find? (h : s.HasPossible m draftEntityName key) :
    ∃ row, s.rows.find? (isPossible draftEntityName key (s.subDraftUUIDs draftEntityName m)) =
      some row := by
  obtain ⟨row, hrow, hname, hkey, admin, hadmin, hid, hparent, hadminTable⟩ := h
  refine Option.isSome_iff_exists.mp (List.find?_isSome.mpr ⟨row, hrow, ?_⟩)
  have hsub : row.draftUUID ∈ s.subDraftUUIDs draftEntityName m := by
    rw [← hid]
    exact List.mem_map_of_mem (List.mem_filter.mpr ⟨hadmin, by simp [hparent, hadminTable]⟩)
  simp [isPossible, hname, hkey, hsub]

theorem StaysDraftValue.inSession (hs : DraftInv s) {draftUUID : Option DraftUUID}
    (hstays : s.StaysDraftValue m draftEntityName draftUUID key)
    (hfind : s.findDraftValue draftEntityName draftUUID key m = some row) :
    s.InSession m row.draftUUID := by
  cases draftUUID with
  | some u =>
    rw [(findRow_eq_some hfind).2.2]
    exact hstays
  | none =>
    rw [findDraftValue] at hfind
    cases htable : (s.findAdmin m).bind DraftAdmin.draftEntityName with
    | none =>
      rw [htable] at hfind
      exact absurd hfind.symm (Option.some_ne_none row)
    | some table =>
      rw [htable] at hfind
      dsimp only at hfind
      by_cases hne : table = draftEntityName
      · rw [if_pos hne] at hfind
        rw [(findRow_eq_some hfind).2.2]
        exact InSession.root s m
      · rw [if_neg hne] at hfind
        rcases (hstays table htable).resolve_left hne with hnames | hpossible
        · rcases Option.or_eq_some_iff.mp hfind with hfound | ⟨-, hfound⟩
          · exact hs.inSession_of_isPossible (List.find?_some hfound)
          · exact hnames.inSession_of_holds (queryFirst_eq_some hfound).2.2
        · obtain ⟨found, hfound⟩ := hpossible.exists_find?
          rw [hfound] at hfind
          obtain rfl := Option.some.inj hfind
          exact hs.inSession_of_isPossible (List.find?_some hfound)

theorem DraftInv.inSession_of_listed (hs : DraftInv s)
    (hparent : s.InSession m navigation.parentDraftUUID)
    (hrow : (row.draftEntityName == draftEntityName &&
      (row.isActiveEntity || row.hasDraftEntity) &&
      ((s.navDraftAdminList draftEntityName navigation).map DraftAdmin.draftUUID).contains
        row.draftUUID) = true) : s.InSession m row.draftUUID := by
  rw [Bool.and_eq_true_iff, List.contains_iff_mem, List.mem_map] at hrow
  obtain ⟨-, admin, hadmin, hid⟩ := hrow
  rw [← hid]
  exact hs.inSession_of_navDraftAdmin hparent hadmin

theorem isRelated_iff : s.isRelated draftEntityName navigation key row = true ↔
    row.draftEntityName = draftEntityName ∧ row.draftUUID ∈ s.navDraftIds navigation ∧
      navigation.relation.hold row.fields = true ∧ key.holds row = true := by
  rw [isRelated, Bool.and_eq_true_iff, Bool.and_eq_true_iff, Bool.and_eq_true_iff, beq_iff_eq,
    List.contains_iff_mem, and_assoc, and_assoc]

theorem StaysRelated.inSession (hstays : s.StaysRelated m navigation key) (hs : DraftInv s)
    (hrow : s.isRelated draftEntityName navigation key row = true) :
    s.InSession m row.draftUUID := by
  obtain ⟨-, hid, hrelation, hkey⟩ := isRelated_iff.mp hrow
  rcases hstays with hparent | hnames | hcontra
  · exact hs.inSession_of_navDraftIds hparent hid
  · exact hnames.inSession_of_holds hkey
  · exact absurd ⟨hrelation, (Bool.and_eq_true_iff.mp hkey).2⟩ (hcontra row.fields)

end DraftStore

namespace SameSession

variable {s s' : DraftStore} {m d u : DraftUUID} {draftEntityName : Name} {key : DraftKeyMap}
  {navigation : DraftNavigation}

theorem mem_navDraftIds (h : SameSession m s s') (hd : s.InSession m d)
    (hmem : d ∈ s.navDraftIds navigation) : d ∈ s'.navDraftIds navigation := by
  obtain ⟨admin, hadmin, rfl, hrest⟩ := DraftStore.mem_navDraftIds.mp hmem
  exact DraftStore.mem_navDraftIds.mpr ⟨admin, h.mem_admins hadmin hd, rfl, hrest⟩

theorem names (h : SameSession m s s') (hs' : DraftInv s') (hkey : s.Names m key) :
    s'.Names m key := by
  obtain ⟨u, hu, hin⟩ := hkey
  exact ⟨u, hu, h.inSession hs' hin⟩

theorem isRelated (h : SameSession m s s') (hs : DraftInv s)
    (hstays : s.StaysRelated m navigation key) {row : DraftRow}
    (hrow : s.isRelated draftEntityName navigation key row = true) :
    s'.isRelated draftEntityName navigation key row = true := by
  obtain ⟨htable, hid, hrest⟩ := isRelated_iff.mp hrow
  exact isRelated_iff.mpr ⟨htable, h.mem_navDraftIds (hstays.inSession hs hrow) hid, hrest⟩

theorem queryRelated (h : SameSession m s s') (hs : DraftInv s) (hs' : DraftInv s')
    (hstays : s.StaysRelated m navigation key) :
    s'.queryRelated draftEntityName navigation key =
      s.queryRelated draftEntityName navigation key := by
  have hstays' : s'.StaysRelated m navigation key :=
    hstays.imp (h.inSession hs') (Or.imp (h.names hs') id)
  have htest : s'.isRelated draftEntityName navigation key =
      s.isRelated draftEntityName navigation key := by
    funext row
    exact Bool.eq_iff_iff.mpr ⟨h.symm.isRelated hs' hstays', h.isRelated hs hstays⟩
  rw [DraftStore.queryRelated, htest]
  exact h.find?_rows hs hs' fun row hrow => hstays.inSession hs hrow

theorem findList (h : SameSession m s s') (hs : DraftInv s) (hs' : DraftInv s')
    (hparent : s.InSession m navigation.parentDraftUUID) (orderBy : DraftRow → DraftRow → Bool) :
    s'.findList draftEntityName navigation orderBy =
      s.findList draftEntityName navigation orderBy := by
  have hadmins : s'.navDraftAdminList draftEntityName navigation =
      s.navDraftAdminList draftEntityName navigation :=
    h.filter_admins
      (fun admin hadmin hp => hs.inSession_of_navDraftAdmin hparent
        (List.mem_filter.mpr ⟨hadmin, hp⟩))
      (fun admin hadmin hp => hs'.inSession_of_navDraftAdmin (h.inSession hs' hparent)
        (List.mem_filter.mpr ⟨hadmin, hp⟩))
  rw [DraftStore.findList, hadmins]
  refine congrArg (List.mergeSort · orderBy) (h.filter_rows hs hs' fun row hrow => ?_)
  exact hs.inSession_of_listed hparent hrow

theorem findDraftValue (h : SameSession m s s') (hs : DraftInv s) (hs' : DraftInv s')
    {draftUUID : Option DraftUUID} (hstays : s.StaysDraftValue m draftEntityName draftUUID key) :
    s'.findDraftValue draftEntityName draftUUID key m =
      s.findDraftValue draftEntityName draftUUID key m := by
  cases draftUUID with
  | some u => exact h.findRow hs hs' hstays
  | none =>
    have hroot := InSession.root s m
    rw [DraftStore.findDraftValue, DraftStore.findDraftValue, h.findAdmin hs hs' hroot]
    cases htable : (s.findAdmin m).bind DraftAdmin.draftEntityName with
    | none => rfl
    | some table =>
      dsimp only
      split
      · exact h.findRow hs hs' hroot
      · rename_i hne
        have hadmins : s'.subDraftAdminDataList draftEntityName m =
            s.subDraftAdminDataList draftEntityName m :=
          h.filter_admins
            (fun admin hadmin hp => hs.inSession_of_subDraft (List.mem_filter.mpr ⟨hadmin, hp⟩))
            (fun admin hadmin hp => hs'.inSession_of_subDraft (List.mem_filter.mpr ⟨hadmin, hp⟩))
        rw [subDraftUUIDs, hadmins, ← subDraftUUIDs,
          h.find?_rows hs hs' fun row hrow => hs.inSession_of_isPossible hrow]
        rcases (hstays table htable).resolve_left hne with hnames | hpossible
        · rw [h.queryFirst hs hs' hnames]
        · obtain ⟨found, hfound⟩ := hpossible.exists_find?
          rw [hfound]
          rfl

end SameSession

/-! ### Writes that stay in the session -/

namespace DraftStore

variable {s s' : DraftStore} {m u : DraftUUID} {draftEntityName : Name} {key : DraftKeyMap}
  {row : DraftRow}

theorem removed_updateRow {f : DraftRow → DraftRow} (hrow : row ∈ s.rows)
    (hnew : row ∉ (s.updateRow draftEntityName u f).rows) : row.draftUUID = u := by
  by_contra hne
  refine hnew (List.mem_map.mpr ⟨row, hrow, if_neg fun h => hne h.2⟩)

theorem added_updateRow {f : DraftRow → DraftRow}
    (hnew : row ∈ (s.updateRow draftEntityName u f).rows) (hold : row ∉ s.rows) :
    row.draftUUID = u := by
  obtain ⟨old, hmem, rfl⟩ := List.mem_map.mp hnew
  by_cases hcond : old.draftEntityName = draftEntityName ∧ old.draftUUID = u
  · rw [if_pos hcond]
    exact hcond.2
  · rw [if_neg hcond] at hold
    exact absurd hmem hold

theorem sessionRows_updateRow (f : DraftRow → DraftRow) :
    (s.updateRow draftEntityName u f).sessionRows m = (s.sessionRows m).map fun r =>
      if r.draftEntityName = draftEntityName ∧ r.draftUUID = u then
        { f r with draftEntityName := r.draftEntityName, draftUUID := r.draftUUID }
      else r := by
  rw [sessionRows, updateRow, sessionRows, List.filter_map]
  congr 2
  funext r
  simp only [Function.comp_apply, decide_eq_decide]
  split
  · exact Iff.rfl
  · exact Iff.rfl

theorem store_same (h : SameSession m s s') (hs : DraftInv s) (hs' : DraftInv s')
    (hrow : s.InSession m row.draftUUID) : (s'.store row).1 = (s.store row).1 ∧
      (s'.store row).2.sessionRows m = (s.store row).2.sessionRows m := by
  rw [store, store, h.findRow hs hs' hrow]
  cases s.findRow row.draftEntityName row.draftUUID with
  | none => exact ⟨rfl, h.rows⟩
  | some found =>
    refine ⟨rfl, ?_⟩
    dsimp only
    rw [sessionRows_updateRow, sessionRows_updateRow, h.rows]

theorem store_spec (row : DraftRow) :
    (∀ rows, (s.store row).1 = .ok rows → rows = [row]) ∧
    (∀ old ∈ s.rows, old ∉ (s.store row).2.rows → old.draftUUID = row.draftUUID) ∧
    ∀ new ∈ (s.store row).2.rows, new ∉ s.rows → new.draftUUID = row.draftUUID := by
  rw [store]
  cases s.findRow row.draftEntityName row.draftUUID with
  | none =>
    refine ⟨fun rows h => ?_, fun old hold hnew => absurd hold hnew,
      fun new hnew hold => absurd hnew hold⟩
    cases h
  | some found =>
    exact ⟨fun rows h => (Except.ok.inj h).symm, fun old hold hnew => removed_updateRow hold hnew,
      fun new hnew hold => added_updateRow hnew hold⟩

end DraftStore

namespace DraftOperation

variable {s s' : DraftStore} {m : DraftUUID} {op : DraftOperation}

theorem Isolated.of_read (hrun : ∀ t, (op.run m t).2 = t)
    (hreturned : ∀ rows, (op.run m s).1 = .ok rows → ∀ row ∈ rows, s.InSession m row.draftUUID)
    (hsame : ∀ s', DraftInv s' → SameSession m s s' → (op.run m s').1 = (op.run m s).1) :
    op.Isolated m s where
  returned := hreturned
  removed row hrow hnew := absurd (by rwa [hrun]) hnew
  added row hnew hold := absurd (by rwa [hrun] at hnew) hold
  same s' hs' h := ⟨hsame s' hs' h, by rw [hrun, hrun, h.rows]⟩

theorem Isolated.of_store (hs : DraftInv s) (found : DraftStore → Option DraftRow)
    (change : DraftRow → DraftRow)
    (hrun : ∀ t, op.run m t = match found t with
      | none => (.error .nullPointer, t)
      | some row => t.store (change row))
    (hfound : ∀ s', DraftInv s' → SameSession m s s' → found s' = found s)
    (hchange : ∀ row, found s = some row → s.InSession m (change row).draftUUID) :
    op.Isolated m s := by
  cases hrow : found s with
  | none =>
    have hfails (t : DraftStore) (ht : found t = none) :
        op.run m t = (.error .nullPointer, t) := by
      rw [hrun, ht]
    refine ⟨fun rows h => ?_, ?_, ?_, fun s' hs' h => ?_⟩
    · rw [hfails s hrow] at h
      cases h
    · rw [hfails s hrow]
      exact fun row hmem hnot => absurd hmem hnot
    · rw [hfails s hrow]
      exact fun row hmem hnot => absurd hmem hnot
    · rw [hfails s hrow, hfails s' ((hfound s' hs' h).trans hrow)]
      exact ⟨rfl, h.rows⟩
  | some row =>
    have hstores (t : DraftStore) (ht : found t = some row) :
        op.run m t = t.store (change row) := by
      rw [hrun, ht]
    have hin := hchange row hrow
    obtain ⟨hreturned, hremoved, hadded⟩ := store_spec (s := s) (change row)
    rw [← hstores s hrow] at hreturned hremoved hadded
    refine ⟨fun rows hok row' hrow' => ?_, fun old hold hnew => ?_, fun new hnew hold => ?_,
      fun s' hs' h => ?_⟩
    · rw [hreturned rows hok, List.mem_singleton] at hrow'
      rw [hrow']
      exact hin
    · rw [hremoved old hold hnew]
      exact hin
    · rw [hadded new hnew hold]
      exact hin
    · rw [hstores s hrow, hstores s' ((hfound s' hs' h).trans hrow)]
      exact store_same h hs hs' hin

theorem Isolated.of_fails (failure : DraftFailure)
    (hrun : ∀ s', DraftInv s' → SameSession m s s' → op.run m s' = (.error failure, s'))
    (hs : DraftInv s) : op.Isolated m s := by
  have hself := hrun s hs ⟨rfl, rfl⟩
  refine ⟨fun rows h => ?_, ?_, ?_, fun s' hs' h => ?_⟩
  · rw [hself] at h
    cases h
  · rw [hself]
    exact fun row hmem hnot => absurd hmem hnot
  · rw [hself]
    exact fun row hmem hnot => absurd hmem hnot
  · rw [hself, hrun s' hs' h]
    exact ⟨rfl, h.rows⟩

/-- **The condition is enough.** -/
theorem isolated_of_staysIn (hs : DraftInv s) (h : op.StaysIn m s) : op.Isolated m s := by
  cases op with
  | finOne draftEntityName key navigation =>
    cases navigation with
    | none =>
      refine .of_read (fun _ => rfl) (fun rows hok row hrow => ?_) fun s' hs' hsame => ?_
      · rw [run, DraftStore.finOne] at hok
        dsimp only at hok
        split at hok
        · cases hok
        · rename_i found hfound
          obtain rfl := Except.ok.inj hok
          obtain rfl := List.mem_singleton.mp hrow
          exact h.inSession_of_holds (queryFirst_eq_some hfound).2.2
      · rw [run, run, DraftStore.finOne, DraftStore.finOne]
        dsimp only
        rw [hsame.queryFirst hs hs' h]
    | some navigation =>
      refine .of_read (fun _ => rfl) (fun rows hok row hrow => ?_) fun s' hs' hsame => ?_
      · rw [run, DraftStore.finOne] at hok
        dsimp only at hok
        split at hok
        · cases hok
        · rename_i found hfound
          obtain rfl := Except.ok.inj hok
          obtain rfl := List.mem_singleton.mp hrow
          exact h.inSession hs (List.find?_some hfound)
      · rw [run, run, DraftStore.finOne, DraftStore.finOne]
        dsimp only
        rw [hsame.queryRelated hs hs' h]
  | findList draftEntityName navigation orderBy =>
    refine .of_read (fun _ => rfl) (fun rows hok row hrow => ?_) fun s' hs' hsame => ?_
    · obtain rfl := Except.ok.inj hok
      exact hs.inSession_of_listed h (List.mem_filter.mp (List.mem_mergeSort.mp hrow)).2
    · rw [run, run, hsame.findList hs hs' h]
  | updateEntity draftEntityName key body =>
    rcases h with ⟨hnames, hbody⟩ | ⟨hown, w, hw, hin, hmissing⟩
    · refine .of_store hs (fun t => t.queryFirst draftEntityName key)
        (fun row => { body.putAll row with isActiveEntity := false, hasDraftEntity := true })
        (fun t => ?_) (fun s' hs' hsame => hsame.queryFirst hs hs' hnames) fun row hrow => ?_
      · rw [run, DraftStore.updateEntity]
      · have hbody := hbody.resolve_left fun hnone =>
          Option.some_ne_none row (hrow.symm.trans hnone)
        show s.InSession m (body.draftUUID.getD row.draftUUID)
        cases hw : body.draftUUID with
        | none => exact hnames.inSession_of_holds (queryFirst_eq_some hrow).2.2
        | some w => exact hbody w hw
    · -- a draft is found, but the one to be stored is not there
      refine .of_fails .entityNotFound (fun s' hs' hsame => ?_) hs
      obtain ⟨row, hrow, hrowIn, hname, hkey⟩ := hown
      have hrow' := hsame.mem_rows hrow hrowIn
      obtain ⟨found, hfound⟩ : ∃ found, s'.queryFirst draftEntityName key = some found :=
        Option.isSome_iff_exists.mp (List.find?_isSome.mpr ⟨row, hrow', by simp [hname, hkey]⟩)
      rw [run, DraftStore.updateEntity, hfound]
      dsimp only
      rw [store]
      have hmissing' : s'.findRow found.draftEntityName w = none := by
        rw [(queryFirst_eq_some hfound).2.1, hsame.findRow hs hs' hin]
        exact hmissing
      simp only [DraftBody.putAll, hw, Option.getD_some, hmissing']
  | deleteEntity draftEntityName draftUUID =>
    have hnone (rows : List DraftRow) (hok : ((run m s (.deleteEntity draftEntityName
        draftUUID)).1) = .ok rows) (row : DraftRow) (hrow : row ∈ rows) :
        s.InSession m row.draftUUID := by
      obtain rfl := Except.ok.inj hok
      exact absurd hrow List.not_mem_nil
    cases draftUUID with
    | none => exact .of_read (fun _ => rfl) hnone fun _ _ _ => rfl
    | some u =>
      rcases h u rfl with hin | hmarked
      · refine ⟨hnone, fun row hrow hnew => ?_, fun row hnew hold => ?_, fun s' hs' hsame =>
          ⟨rfl, ?_⟩⟩
        · rw [removed_updateRow hrow hnew]
          exact hin
        · rw [added_updateRow hnew hold]
          exact hin
        · show (s'.updateRow _ _ _).sessionRows m = (s.updateRow _ _ _).sessionRows m
          rw [sessionRows_updateRow, sessionRows_updateRow, hsame.rows]
      · -- the draft is marked already, or there is none
        have hkeeps : (s.deleteEntity draftEntityName (some u)).rows = s.rows := by
          refine (List.map_congr_left fun row hrow => ?_).trans (List.map_id s.rows)
          split
          · rename_i hcond
            obtain ⟨hactive, hdraft⟩ := hmarked row hrow hcond.1 hcond.2
            cases row
            cases hactive
            cases hdraft
            rfl
          · rfl
        refine ⟨hnone, fun row hrow hnew => ?_, fun row hnew hold => ?_, fun s' hs' hsame =>
          ⟨rfl, ?_⟩⟩
        · exact absurd (by rw [run, hkeeps]; exact hrow) hnew
        · exact absurd (by rwa [run, hkeeps] at hnew) hold
        · show (s'.updateRow _ _ _).sessionRows m = (s.updateRow _ _ _).sessionRows m
          rw [sessionRows_updateRow, sessionRows_updateRow, hsame.rows]
  | updateEntityToDraft draftEntityName draftUUID key fields hasDraftEntity =>
    have hstays : s.StaysDraftValue m draftEntityName draftUUID key := h
    refine .of_store hs (fun t => t.findDraftValue draftEntityName draftUUID key m)
      (fun row => { (DraftBody.putAll ⟨draftUUID, fields⟩ row) with
        isActiveEntity := false, hasDraftEntity := hasDraftEntity })
      (fun t => ?_) (fun s' hs' hsame => hsame.findDraftValue hs hs' hstays) fun row hrow => ?_
    · rw [run, DraftStore.updateEntityToDraft]
    · show s.InSession m (draftUUID.getD row.draftUUID)
      cases draftUUID with
      | none => exact hstays.inSession hs hrow
      | some u => exact hstays

end DraftOperation

/-! ### Drafts of another session -/

namespace DraftStore

variable {s : DraftStore} {m u d : DraftUUID} {drafts : List (DraftAdmin × DraftRow)}

/-- Drafts of other sessions that may be added to a store. -/
structure Foreign (s : DraftStore) (m : DraftUUID) (drafts : List (DraftAdmin × DraftRow)) :
    Prop where
  nodup : (drafts.map fun draft => draft.1.draftUUID).Nodup
  notMem : ∀ draft ∈ drafts, ¬ s.InSession m draft.1.draftUUID
  parent : ∀ draft ∈ drafts, ∀ p, draft.1.parentDraftUUID = some p → ¬ s.InSession m p
  row : ∀ draft ∈ drafts, draft.2.draftUUID = draft.1.draftUUID ∧
    draft.1.draftEntityName = some draft.2.draftEntityName

/-- The session, with other drafts in place of those of the other sessions. -/
noncomputable def intrude (s : DraftStore) (m : DraftUUID)
    (drafts : List (DraftAdmin × DraftRow)) : DraftStore where
  admins := drafts.map Prod.fst ++ s.sessionAdmins m
  rows := drafts.map Prod.snd ++ s.sessionRows m
  nextUUID := drafts.foldr (fun draft next => max (draft.1.draftUUID + 1) next) s.nextUUID

theorem le_nextUUID_intrude : s.nextUUID ≤ (s.intrude m drafts).nextUUID := by
  show s.nextUUID ≤ drafts.foldr _ s.nextUUID
  induction drafts with
  | nil => exact le_rfl
  | cons draft drafts ih => exact ih.trans (le_max_right _ _)

theorem lt_nextUUID_intrude {draft : DraftAdmin × DraftRow} (h : draft ∈ drafts) :
    draft.1.draftUUID < (s.intrude m drafts).nextUUID := by
  show _ < drafts.foldr _ s.nextUUID
  induction drafts with
  | nil => exact absurd h List.not_mem_nil
  | cons first drafts ih =>
    rcases List.mem_cons.mp h with rfl | h
    · exact lt_of_lt_of_le (Nat.lt_succ_self _) (le_max_left _ _)
    · exact (ih h).trans_le (le_max_right _ _)

theorem Foreign.draftInv (hs : DraftInv s) (h : Foreign s m drafts) :
    DraftInv (s.intrude m drafts) where
  nodup := by
    rw [intrude, List.map_append, List.map_map]
    refine List.nodup_append.mpr ⟨h.nodup, hs.nodup.sublist (List.filter_sublist.map _), ?_⟩
    rintro _ hdraft _ hadmin rfl
    obtain ⟨draft, hdraft, heq⟩ := List.mem_map.mp hdraft
    obtain ⟨admin, hadmin, hid⟩ := List.mem_map.mp hadmin
    refine h.notMem draft hdraft ?_
    rw [show draft.1.draftUUID = admin.draftUUID from heq.trans hid.symm]
    exact (mem_sessionAdmins.mp hadmin).2
  bound admin hadmin := by
    rcases List.mem_append.mp hadmin with hdraft | hadmin
    · obtain ⟨draft, hmem, rfl⟩ := List.mem_map.mp hdraft
      exact lt_nextUUID_intrude hmem
    · exact (hs.bound admin (mem_sessionAdmins.mp hadmin).1).trans_le le_nextUUID_intrude
  rows row hrow := by
    rcases List.mem_append.mp hrow with hdraft | hrow
    · obtain ⟨draft, hmem, rfl⟩ := List.mem_map.mp hdraft
      obtain ⟨hid, htable⟩ := h.row draft hmem
      exact ⟨draft.1, List.mem_append_left _ (List.mem_map_of_mem hmem), hid.symm, htable⟩
    · obtain ⟨hmem, hin⟩ := mem_sessionRows.mp hrow
      obtain ⟨admin, hadmin, hid, htable⟩ := hs.rows row hmem
      exact ⟨admin, List.mem_append_right _ (mem_sessionAdmins.mpr ⟨hadmin, hid ▸ hin⟩), hid,
        htable⟩
  present admin hadmin table htable := by
    rcases List.mem_append.mp hadmin with hdraft | hadmin
    · obtain ⟨draft, hmem, rfl⟩ := List.mem_map.mp hdraft
      obtain ⟨hid, htable'⟩ := h.row draft hmem
      exact ⟨draft.2, List.mem_append_left _ (List.mem_map_of_mem hmem), hid,
        Option.some.inj (htable'.symm.trans htable)⟩
    · obtain ⟨hmem, hin⟩ := mem_sessionAdmins.mp hadmin
      obtain ⟨row, hrow, hid, hname⟩ := hs.present admin hmem table htable
      exact ⟨row, List.mem_append_right _ (mem_sessionRows.mpr ⟨hrow, hid ▸ hin⟩), hid, hname⟩

theorem Foreign.inSession_iff (hs : DraftInv s) (h : Foreign s m drafts) :
    (s.intrude m drafts).InSession m d ↔ s.InSession m d := by
  constructor
  · rintro ⟨k, hbelow⟩
    induction hbelow with
    | root => exact InSession.root s m
    | @child k p d hbelow hparent ih =>
      obtain ⟨admin, hadmin, rfl, hadminParent⟩ := exists_of_parentOf hparent
      rcases List.mem_append.mp hadmin with hdraft | hadmin
      · obtain ⟨draft, hmem, rfl⟩ := List.mem_map.mp hdraft
        exact absurd ih (h.parent draft hmem p hadminParent)
      · exact (mem_sessionAdmins.mp hadmin).2
  · rintro ⟨k, hbelow⟩
    induction hbelow with
    | root => exact InSession.root _ m
    | @child k p d hbelow hparent ih =>
      obtain ⟨admin, hadmin, rfl, hadminParent⟩ := exists_of_parentOf hparent
      refine (h.draftInv hs).inSession_of_parent (List.mem_append_right _ ?_) hadminParent ih
      exact mem_sessionAdmins.mpr ⟨hadmin, k + 1, Below.child hbelow hparent⟩

/-- **The session is the same.** -/
theorem Foreign.sameSession (hs : DraftInv s) (h : Foreign s m drafts) :
    SameSession m s (s.intrude m drafts) where
  admins := by
    classical
    rw [sessionAdmins, show (s.intrude m drafts).admins = drafts.map Prod.fst ++ s.sessionAdmins m
        from rfl, List.filter_append,
      List.filter_eq_nil_iff.mpr, List.nil_append, List.filter_eq_self.mpr]
    · intro admin hadmin
      rw [decide_eq_true_eq]
      exact (h.inSession_iff hs).mpr (mem_sessionAdmins.mp hadmin).2
    · intro admin hadmin hin
      obtain ⟨draft, hdraft, rfl⟩ := List.mem_map.mp hadmin
      rw [decide_eq_true_eq] at hin
      exact h.notMem draft hdraft ((h.inSession_iff hs).mp hin)
  rows := by
    classical
    rw [sessionRows, show (s.intrude m drafts).rows = drafts.map Prod.snd ++ s.sessionRows m
        from rfl, List.filter_append,
      List.filter_eq_nil_iff.mpr, List.nil_append, List.filter_eq_self.mpr]
    · intro row hrow
      rw [decide_eq_true_eq]
      exact (h.inSession_iff hs).mpr (mem_sessionRows.mp hrow).2
    · intro row hrow hin
      obtain ⟨draft, hdraft, rfl⟩ := List.mem_map.mp hrow
      rw [decide_eq_true_eq, (h.row draft hdraft).1] at hin
      exact h.notMem draft hdraft ((h.inSession_iff hs).mp hin)

def intruder (u : DraftUUID) (draftEntityName : Name) (navigation : Option DraftNavigation)
    (isActiveEntity : Bool) (fields : List (Name × List Char)) : DraftAdmin × DraftRow :=
  (⟨u, navigation.map DraftNavigation.parentDraftUUID, [], some draftEntityName,
      (navigation.map DraftNavigation.entityType).getD [],
      navigation.map DraftNavigation.navigationProperty, none⟩,
    ⟨draftEntityName, u, isActiveEntity, false, true, fields⟩)

theorem DraftInv.exists_notInSession (hs : DraftInv s) (m u : DraftUUID) :
    ∃ d, ¬ s.InSession m d ∧ d ≠ u := by
  have hnext (a b c : ℕ) : max a (max b c) + 1 ≠ b ∧ max a (max b c) + 1 ≠ c ∧
      ¬ max a (max b c) + 1 < a := by omega
  obtain ⟨hm, hu, hbound⟩ := hnext s.nextUUID m u
  refine ⟨max s.nextUUID (max m u) + 1, fun hin => ?_, hu⟩
  obtain ⟨k, hbelow⟩ := hin
  generalize max s.nextUUID (max m u) + 1 = d at hbelow hm hbound
  cases hbelow with
  | root => exact hm rfl
  | child hbelow hparent =>
    obtain ⟨admin, hadmin, rfl, -⟩ := exists_of_parentOf hparent
    exact hbound (hs.bound admin hadmin)

theorem foreign_intruder {draftEntityName : Name} {navigation : Option DraftNavigation}
    {isActiveEntity : Bool} {fields : List (Name × List Char)} (hu : ¬ s.InSession m u)
    (hparent : ∀ n, navigation = some n → ¬ s.InSession m n.parentDraftUUID) :
    Foreign s m [intruder u draftEntityName navigation isActiveEntity fields] where
  nodup := List.nodup_singleton _
  notMem draft hdraft := by
    rw [List.mem_singleton.mp hdraft]
    exact hu
  parent draft hdraft p hp := by
    rw [List.mem_singleton.mp hdraft] at hp
    obtain ⟨n, hn, rfl⟩ := Option.map_eq_some_iff.mp hp
    exact hparent n hn
  row draft hdraft := by
    rw [List.mem_singleton.mp hdraft]
    exact ⟨rfl, rfl⟩

theorem Foreign.cons (h : Foreign s m drafts) {draftEntityName : Name} {isActiveEntity : Bool}
    {fields : List (Name × List Char)} (hu : ¬ s.InSession m u)
    (hnew : ∀ draft ∈ drafts, draft.1.draftUUID ≠ u) :
    Foreign s m (drafts ++ [intruder u draftEntityName none isActiveEntity fields]) where
  nodup := by
    rw [List.map_append]
    refine List.nodup_append.mpr ⟨h.nodup, List.nodup_singleton _, ?_⟩
    intro d hd e he
    obtain ⟨draft, hdraft, rfl⟩ := List.mem_map.mp hd
    rw [List.mem_singleton.mp he]
    exact hnew draft hdraft
  notMem draft hdraft := by
    rcases List.mem_append.mp hdraft with hdraft | hdraft
    · exact h.notMem draft hdraft
    · rw [List.mem_singleton.mp hdraft]
      exact hu
  parent draft hdraft p hp := by
    rcases List.mem_append.mp hdraft with hdraft | hdraft
    · exact h.parent draft hdraft p hp
    · rw [List.mem_singleton.mp hdraft] at hp
      exact absurd hp.symm (Option.some_ne_none p)
  row draft hdraft := by
    rcases List.mem_append.mp hdraft with hdraft | hdraft
    · exact h.row draft hdraft
    · rw [List.mem_singleton.mp hdraft]
      exact ⟨rfl, rfl⟩

end DraftStore

/-! ### Conditions that can be met -/

namespace FieldConditions

variable {conditions : FieldConditions} {fields : List (Name × List Char)} {n : Name}

theorem hold_cons (hn : n ∉ conditions.map Prod.fst) (v : List Char) :
    conditions.hold ((n, v) :: fields) = conditions.hold fields := by
  rw [hold, hold, Bool.eq_iff_iff, List.all_eq_true, List.all_eq_true]
  refine forall₂_congr fun e he => ?_
  have hne : (e.1 == n) = false := by
    refine beq_false_of_ne fun heq => hn ?_
    rw [← heq]
    exact List.mem_map_of_mem he
  rw [List.lookup_cons, hne]

theorem exists_hold (h : (conditions.map Prod.fst).Nodup) :
    ∃ fields, conditions.hold fields = true ∧
      ∀ e ∈ fields, e.1 ∈ conditions.map Prod.fst := by
  induction conditions with
  | nil => exact ⟨[], rfl, fun e he => absurd he List.not_mem_nil⟩
  | cons condition conditions ih =>
    obtain ⟨n, v⟩ := condition
    obtain ⟨hnew, hnodup⟩ := List.nodup_cons.mp h
    obtain ⟨fields, hhold, hnames⟩ := ih hnodup
    cases v with
    | none =>
      refine ⟨fields, ?_, fun e he => List.mem_cons_of_mem _ (hnames e he)⟩
      have hmissing : fields.lookup n = none := by
        refine List.lookup_eq_none_iff.mpr fun e he => ?_
        refine bne_iff_ne.mpr fun heq => hnew ?_
        rw [show n = e.1 from heq]
        exact hnames e he
      rw [hold, List.all_cons, hmissing]
      exact hhold
    | some v =>
      refine ⟨(n, v) :: fields, ?_, fun e he => ?_⟩
      · rw [hold, List.all_cons, List.lookup_cons_self]
        simp only [beq_self_eq_true, Bool.true_and]
        exact (hold_cons hnew v).trans hhold
      · rcases List.mem_cons.mp he with rfl | he
        · exact List.mem_cons_self
        · exact List.mem_cons_of_mem _ (hnames e he)

end FieldConditions

/-! ### Without the condition -/

namespace DraftStore

variable {s : DraftStore} {m u w : DraftUUID} {draftEntityName : Name} {key : DraftKeyMap}
  {navigation : Option DraftNavigation} {fields : List (Name × List Char)} {row found : DraftRow}
  {drafts : List (DraftAdmin × DraftRow)} {draft : DraftAdmin × DraftRow}

theorem DraftInv.exists_holds (hs : DraftInv s) (hnames : ¬ s.Names m key) :
    ∃ u active, ¬ s.InSession m u ∧ ∀ draftEntityName navigation fields,
      key.fields.hold fields = true →
        key.holds (intruder u draftEntityName navigation active fields).2 = true := by
  have hactive : key.isActiveEntity.all (· == key.isActiveEntity.getD false) = true := by
    cases key.isActiveEntity <;> simp
  have hholds (u : DraftUUID) (hu : key.draftUUID.all (· == u) = true) (draftEntityName : Name)
      (navigation : Option DraftNavigation) (fields : List (Name × List Char))
      (hfields : key.fields.hold fields = true) : key.holds (intruder u draftEntityName navigation
        (key.isActiveEntity.getD false) fields).2 = true := by
    rw [DraftKeyMap.holds, Bool.and_eq_true_iff, Bool.and_eq_true_iff]
    exact ⟨⟨hu, hactive⟩, hfields⟩
  cases hkey : key.draftUUID with
  | none =>
    obtain ⟨u, hu, -⟩ := hs.exists_notInSession m m
    exact ⟨u, _, hu, hholds u (by rw [hkey]; rfl)⟩
  | some u =>
    refine ⟨u, _, fun hin => hnames ⟨u, hkey, hin⟩, hholds u ?_⟩
    rw [hkey]
    exact beq_self_eq_true u

theorem queryFirst_intrude (htable : draft.2.draftEntityName = draftEntityName)
    (hkey : key.holds draft.2 = true) :
    (s.intrude m (draft :: drafts)).queryFirst draftEntityName key = some draft.2 :=
  List.find?_cons_of_pos (by rw [htable, hkey, beq_self_eq_true]; rfl)

theorem exists_findRow_intrude (hdraft : draft ∈ drafts)
    (htable : draft.2.draftEntityName = draftEntityName) (hid : draft.2.draftUUID = u) :
    ∃ row, (s.intrude m drafts).findRow draftEntityName u = some row :=
  Option.isSome_iff_exists.mp (List.find?_isSome.mpr
    ⟨draft.2, List.mem_append_left _ (List.mem_map_of_mem hdraft), decide_eq_true ⟨htable, hid⟩⟩)

theorem exists_foreign (hu : ¬ s.InSession m u) (hw : ¬ s.InSession m w) {isActiveEntity : Bool}
    (hkey : key.holds (intruder u draftEntityName none isActiveEntity fields).2 = true) :
    ∃ drafts, Foreign s m drafts ∧ (s.intrude m drafts).queryFirst draftEntityName key =
        some (intruder u draftEntityName none isActiveEntity fields).2 ∧
      ∃ row, (s.intrude m drafts).findRow draftEntityName w = some row := by
  have hforeign : Foreign s m [intruder u draftEntityName none isActiveEntity fields] :=
    foreign_intruder hu fun n hn => absurd hn.symm (Option.some_ne_none n)
  by_cases hne : u = w
  · exact ⟨_, hforeign, queryFirst_intrude rfl hkey,
      exists_findRow_intrude List.mem_cons_self rfl hne⟩
  · have hboth : Foreign s m ([intruder u draftEntityName none isActiveEntity fields] ++
        [intruder w draftEntityName none false []]) := by
      refine hforeign.cons hw fun draft hdraft => ?_
      rw [List.mem_singleton.mp hdraft]
      exact hne
    exact ⟨_, hboth, queryFirst_intrude rfl hkey,
      exists_findRow_intrude (List.mem_append_right _ List.mem_cons_self) rfl rfl⟩

theorem store_of_findRow (h : s.findRow row.draftEntityName row.draftUUID = some found) :
    (s.store row).1 = .ok [row] := by
  rw [store, h]

theorem updateEntity_of_findRow {body : DraftBody}
    (hfirst : s.queryFirst draftEntityName key = some row)
    (h : s.findRow draftEntityName (body.draftUUID.getD row.draftUUID) = some found) :
    (s.updateEntity draftEntityName key body).1 =
      .ok [{ body.putAll row with isActiveEntity := false, hasDraftEntity := true }] := by
  rw [updateEntity, hfirst]
  rw [← (queryFirst_eq_some hfirst).2.1] at h
  exact store_of_findRow h

theorem updateEntity_of_missing {body : DraftBody}
    (hfirst : s.queryFirst draftEntityName key = some row)
    (h : s.findRow draftEntityName (body.draftUUID.getD row.draftUUID) = none) :
    (s.updateEntity draftEntityName key body).1 = .error .entityNotFound := by
  rw [← (queryFirst_eq_some hfirst).2.1] at h
  rw [updateEntity, hfirst]
  dsimp only
  rw [store]
  dsimp only [DraftBody.putAll]
  rw [h]

theorem putAll_inj {body : DraftBody} {row row' : DraftRow} {n : Name} {v v' : List Char}
    (hn : n ∉ body.fields.map Prod.fst) (hrow : row.fields = (n, v) :: fields)
    (hrow' : row'.fields = (n, v') :: fields)
    (h : (body.putAll row).fields = (body.putAll row').fields) : v = v' := by
  have hkept : (body.fields.any fun e => e.1 == n) = false := by
    rw [List.any_eq_false]
    intro e he heq
    refine hn ?_
    rw [← eq_of_beq heq]
    exact List.mem_map_of_mem he
  have hrest := List.append_cancel_left h
  rw [hrow, hrow', List.filter_cons_of_pos (by simpa using hkept),
    List.filter_cons_of_pos (by simpa using hkept)] at hrest
  exact (Prod.mk.inj (List.cons.inj hrest).1).2

end DraftStore

namespace DraftOperation

variable {s : DraftStore} {m : DraftUUID} {op : DraftOperation} {draftEntityName : Name}
  {key : DraftKeyMap} {drafts : List (DraftAdmin × DraftRow)}

theorem Isolated.inSession (h : op.Isolated m s) (hs : DraftInv s) (hdrafts : Foreign s m drafts)
    {row : DraftRow} (hok : (op.run m (s.intrude m drafts)).1 = .ok [row]) :
    s.InSession m row.draftUUID := by
  refine h.returned [row] ?_ row List.mem_cons_self
  rw [← (h.same _ (hdrafts.draftInv hs) (hdrafts.sameSession hs)).1]
  exact hok

theorem Isolated.run_eq (h : op.Isolated m s) (hs : DraftInv s)
    {drafts' : List (DraftAdmin × DraftRow)} (hdrafts : Foreign s m drafts)
    (hdrafts' : Foreign s m drafts') :
    (op.run m (s.intrude m drafts)).1 = (op.run m (s.intrude m drafts')).1 :=
  (h.same _ (hdrafts.draftInv hs) (hdrafts.sameSession hs)).1.trans
    (h.same _ (hdrafts'.draftInv hs) (hdrafts'.sameSession hs)).1.symm

theorem foreign_single {u : DraftUUID} {isActiveEntity : Bool} {fields : List (Name × List Char)}
    (hu : ¬ s.InSession m u) :
    Foreign s m [intruder u draftEntityName none isActiveEntity fields] :=
  foreign_intruder hu fun n hn => absurd hn.symm (Option.some_ne_none n)

theorem foreign_nil : Foreign s m [] where
  nodup := List.nodup_nil
  notMem _ hdraft := absurd hdraft List.not_mem_nil
  parent _ hdraft := absurd hdraft List.not_mem_nil
  row _ hdraft := absurd hdraft List.not_mem_nil

theorem names_of_finOne (hs : DraftInv s)
    (h : (finOne draftEntityName key none).Isolated m s) : s.Names m key := by
  by_contra hnames
  obtain ⟨u, active, hu, hholds⟩ := hs.exists_holds hnames
  obtain ⟨fields, hfields, -⟩ := FieldConditions.exists_hold key.nodup
  have hforeign : Foreign s m [intruder u draftEntityName none active fields] := foreign_single hu
  have hok : ((finOne draftEntityName key none).run m (s.intrude m
      [intruder u draftEntityName none active fields])).1 =
      .ok [(intruder u draftEntityName none active fields).2] := by
    rw [run, DraftStore.finOne]
    dsimp only
    rw [show (s.intrude m [intruder u draftEntityName none active fields]).queryFirst
      draftEntityName key = some (intruder u draftEntityName none active fields).2 from
      queryFirst_intrude rfl (hholds draftEntityName none fields hfields)]
  exact hu (h.inSession hs hforeign hok)

theorem staysRelated_of_finOne (hs : DraftInv s) {navigation : DraftNavigation}
    (h : (finOne draftEntityName key (some navigation)).Isolated m s) :
    s.StaysRelated m navigation key := by
  by_contra hstays
  obtain ⟨hparent, hstays⟩ := not_or.mp hstays
  obtain ⟨hnames, hcontra⟩ := not_or.mp hstays
  obtain ⟨u, active, hu, hholds⟩ := hs.exists_holds hnames
  obtain ⟨fields, hfields⟩ := not_forall.mp hcontra
  obtain ⟨hrelation, hfields⟩ := not_not.mp hfields
  have hforeign : Foreign s m [intruder u draftEntityName (some navigation) active fields] :=
    foreign_intruder hu fun n hn => Option.some.inj hn ▸ hparent
  have hfound : (s.intrude m [intruder u draftEntityName (some navigation) active fields]
      ).queryRelated draftEntityName navigation key =
      some (intruder u draftEntityName (some navigation) active fields).2 := by
    refine List.find?_cons_of_pos (isRelated_iff.mpr
      ⟨rfl, ?_, hrelation, hholds draftEntityName (some navigation) fields hfields⟩)
    exact mem_navDraftIds.mpr ⟨_, List.mem_append_left _ List.mem_cons_self, rfl, rfl, rfl, rfl⟩
  have hok : ((finOne draftEntityName key (some navigation)).run m (s.intrude m
      [intruder u draftEntityName (some navigation) active fields])).1 =
      .ok [(intruder u draftEntityName (some navigation) active fields).2] := by
    rw [run, DraftStore.finOne]
    dsimp only
    rw [hfound]
  exact hu (h.inSession hs hforeign hok)

theorem inSession_of_findList (hs : DraftInv s) {navigation : DraftNavigation}
    {orderBy : DraftRow → DraftRow → Bool}
    (h : (findList draftEntityName navigation orderBy).Isolated m s) :
    s.InSession m navigation.parentDraftUUID := by
  by_contra hparent
  obtain ⟨u, hu, -⟩ := hs.exists_notInSession m m
  have hforeign : Foreign s m [intruder u draftEntityName (some navigation) false []] :=
    foreign_intruder hu fun n hn => Option.some.inj hn ▸ hparent
  refine hu (h.returned _ (h.same _ (hforeign.draftInv hs) (hforeign.sameSession hs)).1.symm
    (intruder u draftEntityName (some navigation) false []).2 ?_)
  refine List.mem_mergeSort.mpr (List.mem_filter.mpr
    ⟨List.mem_append_left _ List.mem_cons_self, ?_⟩)
  have hlisted : u ∈ ((s.intrude m [intruder u draftEntityName (some navigation) false []]
      ).navDraftAdminList draftEntityName navigation).map DraftAdmin.draftUUID := by
    refine List.mem_map.mpr ⟨_, List.mem_filter.mpr
      ⟨List.mem_append_left _ List.mem_cons_self, ?_⟩, rfl⟩
    simp [intruder]
  rw [Bool.and_eq_true_iff, List.contains_iff_mem]
  exact ⟨by simp [intruder], hlisted⟩

theorem staysIn_of_updateEntity (hs : DraftInv s) {body : DraftBody}
    (h : (updateEntity draftEntityName key body).Isolated m s) :
    (updateEntity draftEntityName key body).StaysIn m s := by
  by_cases hnames : s.Names m key
  · -- the draft found is one of the session, but another one is written
    refine .inl ⟨hnames, ?_⟩
    cases hrow : s.queryFirst draftEntityName key with
    | none => exact .inl rfl
    | some row =>
      refine .inr fun w hw => ?_
      by_contra hin
      have hforeign : Foreign s m [intruder w draftEntityName none false []] := foreign_single hin
      have hfirst : (s.intrude m [intruder w draftEntityName none false []]).queryFirst
          draftEntityName key = some row :=
        ((hforeign.sameSession hs).queryFirst hs (hforeign.draftInv hs) hnames).trans hrow
      have hwritten : body.draftUUID.getD row.draftUUID = w := by
        rw [hw]
        rfl
      obtain ⟨found, hfound⟩ : ∃ found, (s.intrude m [intruder w draftEntityName none false []]
          ).findRow draftEntityName (body.draftUUID.getD row.draftUUID) = some found :=
        exists_findRow_intrude List.mem_cons_self rfl hwritten.symm
      have hreturned := h.inSession hs hforeign (updateEntity_of_findRow hfirst hfound)
      exact hin (hwritten ▸ hreturned)
  · refine .inr ?_
    obtain ⟨u, active, hu, hholds⟩ := hs.exists_holds hnames
    obtain ⟨fields, hfields, -⟩ := FieldConditions.exists_hold key.nodup
    have hkey := hholds draftEntityName none fields hfields
    have hwritten : ∃ w, body.draftUUID = some w ∧ s.InSession m w := by
      by_contra hnot
      have hout : ¬ s.InSession m (body.draftUUID.getD u) := by
        cases hw : body.draftUUID with
        | none => exact hu
        | some w => exact fun hin => hnot ⟨w, hw, hin⟩
      obtain ⟨drafts, hforeign, hfirst, found, hfound⟩ := exists_foreign hu hout hkey
      exact hout (h.inSession hs hforeign (updateEntity_of_findRow hfirst hfound))
    obtain ⟨w, hw, hin⟩ := hwritten
    have hfind {drafts : List (DraftAdmin × DraftRow)} (hforeign : Foreign s m drafts) :
        (s.intrude m drafts).findRow draftEntityName w = s.findRow draftEntityName w :=
      (hforeign.sameSession hs).findRow hs (hforeign.draftInv hs) hin
    cases hstored : s.findRow draftEntityName w with
    | some found =>
      -- what is written depends on the draft that the key finds
      exfalso
      obtain ⟨n, hn⟩ := Infinite.exists_notMem_finset
        (key.fields.map Prod.fst ++ body.fields.map Prod.fst).toFinset
      rw [List.mem_toFinset, List.mem_append, not_or] at hn
      have hok (v : List Char) : ((updateEntity draftEntityName key body).run m (s.intrude m
          [intruder u draftEntityName none active ((n, v) :: fields)])).1 =
          .ok [{ body.putAll (intruder u draftEntityName none active ((n, v) :: fields)).2 with
            isActiveEntity := false, hasDraftEntity := true }] := by
        have hkey := hholds draftEntityName none ((n, v) :: fields)
          ((FieldConditions.hold_cons hn.1 v).trans hfields)
        have hfound : (s.intrude m [intruder u draftEntityName none active ((n, v) :: fields)]
            ).findRow draftEntityName (body.draftUUID.getD u) = some found := by
          rw [hw]
          exact (hfind (foreign_single hu)).trans hstored
        exact updateEntity_of_findRow (queryFirst_intrude rfl hkey) hfound
      have heq := (hok []).symm.trans
        ((h.run_eq hs (foreign_single hu) (foreign_single hu)).trans (hok ['x']))
      have hfieldsEq := congrArg DraftRow.fields (List.cons.inj (Except.ok.inj heq)).1
      exact List.cons_ne_nil _ _ (putAll_inj hn.2 rfl rfl hfieldsEq).symm
    | none =>
      refine ⟨?_, w, hw, hin, hstored⟩
      by_contra hown
      -- without a draft of the session the failure depends on the other drafts
      have hmissing : (s.intrude m []).queryFirst draftEntityName key = none := by
        refine List.find?_eq_none.mpr fun row hrow hfound => hown ?_
        obtain ⟨hmem, hrowIn⟩ := mem_sessionRows.mp hrow
        rw [Bool.and_eq_true_iff, beq_iff_eq] at hfound
        exact ⟨row, hmem, hrowIn, hfound.1, hfound.2⟩
      have hforeign : Foreign s m [intruder u draftEntityName none active fields] :=
        foreign_single hu
      have hnull : ((updateEntity draftEntityName key body).run m (s.intrude m [])).1 =
          .error .nullPointer := by
        rw [run, DraftStore.updateEntity, hmissing]
      have hfails : ((updateEntity draftEntityName key body).run m (s.intrude m
          [intruder u draftEntityName none active fields])).1 = .error .entityNotFound := by
        refine updateEntity_of_missing (queryFirst_intrude rfl hkey) ?_
        rw [hw]
        exact (hfind hforeign).trans hstored
      have heq := hnull.symm.trans ((h.run_eq hs foreign_nil hforeign).trans hfails)
      exact absurd (Except.error.inj heq) (by decide)

theorem staysIn_of_deleteEntity {draftUUID : Option DraftUUID}
    (h : (deleteEntity draftEntityName draftUUID).Isolated m s) :
    (deleteEntity draftEntityName draftUUID).StaysIn m s := by
  rintro u rfl
  by_cases hin : s.InSession m u
  · exact .inl hin
  · refine .inr fun row hrow hname hid => ?_
    by_contra hflags
    refine hin (hid ▸ h.removed row hrow fun hmem => hflags ?_)
    -- what is left of the draft has no flags
    obtain ⟨old, -, hnew⟩ := List.mem_map.mp hmem
    by_cases hcond : old.draftEntityName = draftEntityName ∧ old.draftUUID = u
    · rw [if_pos hcond] at hnew
      rw [← hnew]
      exact ⟨rfl, rfl⟩
    · rw [if_neg hcond] at hnew
      exact absurd ⟨(congrArg DraftRow.draftEntityName hnew).trans hname,
        (congrArg DraftRow.draftUUID hnew).trans hid⟩ hcond

theorem run_updateEntityToDraft {draftUUID : Option DraftUUID} {fields : List (Name × List Char)}
    {hasDraftEntity : Bool} {row found : DraftRow}
    (hrow : s.findDraftValue draftEntityName draftUUID key m = some row)
    (hname : row.draftEntityName = draftEntityName)
    (hfound : s.findRow draftEntityName (draftUUID.getD row.draftUUID) = some found) :
    ((updateEntityToDraft draftEntityName draftUUID key fields hasDraftEntity).run m s).1 =
      .ok [{ (DraftBody.putAll ⟨draftUUID, fields⟩ row) with
        isActiveEntity := false, hasDraftEntity := hasDraftEntity }] := by
  rw [run, DraftStore.updateEntityToDraft, hrow]
  rw [← hname] at hfound
  exact store_of_findRow hfound

theorem findDraftValue_of_foreign (hs : DraftInv s) (hdrafts : Foreign s m drafts) {table : Name}
    (htable : (s.findAdmin m).bind DraftAdmin.draftEntityName = some table)
    (hne : table ≠ draftEntityName) (hpossible : ¬ s.HasPossible m draftEntityName key)
    {row : DraftRow} (hfirst : (s.intrude m drafts).queryFirst draftEntityName key = some row) :
    (s.intrude m drafts).findDraftValue draftEntityName none key m = some row := by
  have hsame := hdrafts.sameSession hs
  have hs' := hdrafts.draftInv hs
  have hnone : (s.intrude m drafts).rows.find? (isPossible draftEntityName key
      ((s.intrude m drafts).subDraftUUIDs draftEntityName m)) = none := by
    refine List.find?_eq_none.mpr fun row hrow hfound => hpossible ?_
    have hrow' := hsame.symm.mem_rows hrow (hs'.inSession_of_isPossible hfound)
    rw [isPossible, Bool.and_eq_true_iff, Bool.and_eq_true_iff, beq_iff_eq,
      List.contains_iff_mem, subDraftUUIDs, List.mem_map] at hfound
    obtain ⟨⟨hname, hkey⟩, admin, hadmin, hid⟩ := hfound
    have hadmin' := hsame.symm.mem_admins (List.mem_filter.mp hadmin).1
      (hs'.inSession_of_subDraft hadmin)
    have hcond := (List.mem_filter.mp hadmin).2
    rw [Bool.and_eq_true_iff, beq_iff_eq, beq_iff_eq] at hcond
    exact ⟨row, hrow', hname, hkey, admin, hadmin', hid, hcond⟩
  rw [DraftStore.findDraftValue, hsame.findAdmin hs hs' (InSession.root s m), htable]
  dsimp only
  rw [if_neg hne, hnone, hfirst]
  rfl

theorem staysIn_of_updateEntityToDraft (hs : DraftInv s) {draftUUID : Option DraftUUID}
    {fields : List (Name × List Char)} {hasDraftEntity : Bool}
    (h : (updateEntityToDraft draftEntityName draftUUID key fields hasDraftEntity).Isolated m s) :
    s.StaysDraftValue m draftEntityName draftUUID key := by
  cases draftUUID with
  | some u =>
    by_contra hin
    have hforeign : Foreign s m [intruder u draftEntityName none false []] := foreign_single hin
    obtain ⟨found, hfound⟩ : ∃ found, (s.intrude m [intruder u draftEntityName none false []]
        ).findRow draftEntityName u = some found :=
      exists_findRow_intrude List.mem_cons_self rfl rfl
    exact hin (h.inSession hs hforeign (run_updateEntityToDraft hfound
      (findRow_eq_some hfound).2.1 hfound))
  | none =>
    intro table htable
    by_contra hnot
    obtain ⟨hne, hnot⟩ := not_or.mp hnot
    obtain ⟨hnames, hpossible⟩ := not_or.mp hnot
    obtain ⟨u, active, hu, hholds⟩ := hs.exists_holds hnames
    obtain ⟨key_fields, hfields, -⟩ := FieldConditions.exists_hold key.nodup
    have hforeign : Foreign s m [intruder u draftEntityName none active key_fields] :=
      foreign_single hu
    have hfound := findDraftValue_of_foreign hs hforeign htable hne hpossible (queryFirst_intrude
      rfl (hholds draftEntityName none key_fields hfields))
    obtain ⟨found, hstored⟩ : ∃ found, (s.intrude m
        [intruder u draftEntityName none active key_fields]).findRow draftEntityName u =
        some found :=
      exists_findRow_intrude List.mem_cons_self rfl rfl
    exact hu (h.inSession hs hforeign (run_updateEntityToDraft hfound rfl hstored))

/-- **An operation is isolated exactly under its condition.** -/
theorem isolated_iff (hs : DraftInv s) (m : DraftUUID) (op : DraftOperation) :
    op.Isolated m s ↔ op.StaysIn m s := by
  refine ⟨fun h => ?_, isolated_of_staysIn hs⟩
  cases op with
  | finOne draftEntityName key navigation =>
    cases navigation with
    | none => exact names_of_finOne hs h
    | some navigation => exact staysRelated_of_finOne hs h
  | findList draftEntityName navigation orderBy => exact inSession_of_findList hs h
  | updateEntity draftEntityName key body => exact staysIn_of_updateEntity hs h
  | deleteEntity draftEntityName draftUUID => exact staysIn_of_deleteEntity h
  | updateEntityToDraft draftEntityName draftUUID key fields hasDraftEntity =>
    exact staysIn_of_updateEntityToDraft hs h

/-- Two sessions that edit the same product, each with a draft of its own. -/
def twoSessions : DraftStore where
  admins := [⟨0, none, ['P'], some ['D'], ['t'], none, none⟩,
    ⟨1, none, ['P'], some ['D'], ['t'], none, none⟩]
  rows := [⟨['D'], 0, false, true, true, [(['i'], ['x']), (['n'], ['a'])]⟩,
    ⟨['D'], 1, false, true, true, [(['i'], ['x']), (['n'], ['b'])]⟩]
  nextUUID := 2

def productKey : DraftKeyMap where
  fields := [(['i'], some ['x'])]
  nodup := List.nodup_singleton _

theorem twoSessions_draftInv : DraftInv twoSessions where
  nodup := by decide
  bound := by decide
  rows := by decide
  present admin hadmin table htable := by
    rcases List.mem_cons.mp hadmin with rfl | hadmin
    · exact ⟨_, List.mem_cons_self, rfl, Option.some.inj htable⟩
    · obtain rfl := List.mem_singleton.mp hadmin
      exact ⟨_, List.mem_cons_of_mem _ List.mem_cons_self, rfl, Option.some.inj htable⟩

theorem twoSessions_notInSession : ¬ twoSessions.InSession 1 0 := by
  rintro ⟨k, hbelow⟩
  cases k with
  | zero => exact absurd (below_zero.mp hbelow) (by decide)
  | succ k =>
    obtain ⟨p, hp, -⟩ := below_succ.mp hbelow
    exact Option.some_ne_none p hp.symm

theorem isolated_iff_twoSessions : DraftInv twoSessions ∧
    ((deleteEntity ['D'] (some 1)).Isolated 1 twoSessions ↔
      (deleteEntity ['D'] (some 1)).StaysIn 1 twoSessions) :=
  ⟨twoSessions_draftInv, isolated_iff twoSessions_draftInv 1 (.deleteEntity ['D'] (some 1))⟩

theorem updateEntity_otherSession :
    ((finOne ['D'] productKey none).run 1 twoSessions).1 =
      .ok [⟨['D'], 0, false, true, true, [(['i'], ['x']), (['n'], ['a'])]⟩] ∧
    ¬ twoSessions.InSession 1 0 ∧
    ¬ (updateEntity ['D'] productKey ⟨none, [(['n'], ['c'])]⟩).Isolated 1 twoSessions := by
  refine ⟨by decide, twoSessions_notInSession, fun h => twoSessions_notInSession ?_⟩
  exact h.removed ⟨['D'], 0, false, true, true, [(['i'], ['x']), (['n'], ['a'])]⟩
    List.mem_cons_self (by decide)

end DraftOperation

end OfficeAuto.Odata
