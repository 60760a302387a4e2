import OfficeAuto.Text.Search
import Mathlib.Algebra.Ring.Int.Defs
import Mathlib.Data.List.Dedup

/-!
# Permission to an entity

`EntityPermissionChecker.checkPermissionMethod` grants access to one of a list of entities. The
target operations name what is to be done, and a table says for each of them which role, purpose
and status it asks for. The checker goes through the list up to four times: with the roles and
purposes that were passed in, with the purposes of the entities, with their roles, and with the
roles on their owners.

**Authorization** (`Authorized`) is about one entity at a time, and about whole names of roles. The
checker collects roles and purposes in lists that it keeps from one entity to the next, and looks
for parts of names. It grants what is authorized exactly where neither makes a difference
(`granted_iff_authorized_iff`).
-/

namespace OfficeAuto.Permission

open Text (find)

abbrev Id := List Char

/-! ### Data -/

/-- A row of the operation table. -/
structure PurposeOperation where
  operationId : Id
  roleTypeId : Id
  purposeTypeId : Id
  statusId : Id
  deriving DecidableEq

/-- What the models of an entity and of its operation table have. -/
structure EntityModel where
  hasStatusField : Bool
  hasOwnerField : Bool
  hasPurposeOp : Bool
  hasStatusOp : Bool

/-- The fields of an entity that are read. -/
structure Entity where
  entityId : Id
  statusId : Option Id
  createdByUserLogin : Option Id
  ownerContentId : Option Id
  deriving DecidableEq

/-- A role on an entity that is in force. -/
structure EntityRole where
  entityId : Id
  roleTypeId : Id
  partyId : Id
  deriving DecidableEq

/-- The tables that are read. -/
structure Database where
  operations : List PurposeOperation
  /-- The entity with the key. -/
  entities : Id → Option Entity
  relatedPurposes : Id → List Id
  relatedRoles : List EntityRole
  /-- Roles on contents, and the contents with their owners. -/
  contentRoles : List EntityRole
  contentOwner : Id → Option (Option Id)
  partyTypeId : Id → Option Id
  partyRelationships : List (Id × Id)
  partyRoles : Id → List Id

structure UserLogin where
  userLoginId : Id
  partyId : Option Id

/-- An element of the list: a key, or an entity itself. -/
inductive EntityRef
  | id (entityId : Id)
  | value (entity : Entity)

/-! ### Operations for roles of the user -/

def indexOf (pattern text : List Char) : ℤ := ((find pattern text).map Int.ofNat).getD (-1)

/-- The role that an operation `HAS_x_ROLE` is taken to name. The outer `none` is an index that is
out of bounds. -/
def roleOfOperation (roleOp : Id) : Option (Option Id) :=
  if indexOf ['H', 'A', 'S', '_'] roleOp = 0 then
    let roleOp1 := roleOp.drop 4
    let idx2 := indexOf ['_', 'R', 'O', 'L', 'E'] roleOp1
    if idx2 = (roleOp1.length : ℤ) - 5 then
      -- one symbol more than `_ROLE` is taken off
      if idx2 - 1 < 0 then none else some (some (roleOp1.take (idx2 - 1).toNat))
    else some none
  else some none

def hasUserRole : Id := ['H', 'A', 'S', '_', 'U', 'S', 'E', 'R', '_', 'R', 'O', 'L', 'E']

def checkHasRoleOperations (db : Database) (partyId : Option Id) (targetOperations : List Id) :
    Option Bool :=
  if partyId.isSome && targetOperations.contains hasUserRole then some true
  else do
    let newHasRoleList ← targetOperations.mapM roleOfOperation
    return match partyId with
      | none | some [] => false
      | some partyId => (db.partyRoles partyId).any fun roleTypeId =>
          newHasRoleList.any fun thisRole => thisRole.any fun role => (find role roleTypeId).isSome

/-! ### Matching -/

def notApplicable : Id := ['_', 'N', 'A', '_']

def hasMatch (model : EntityModel) (targetOperations : List PurposeOperation)
    (roles purposes : Option (List Id)) (targStatusId : Option Id) : Bool :=
  targetOperations.any fun targetOp =>
    (!model.hasPurposeOp || purposes.any (·.contains targetOp.purposeTypeId) ||
      targetOp.purposeTypeId == notApplicable) &&
    (!model.hasStatusOp || targetOp.statusId == notApplicable ||
      targStatusId == some targetOp.statusId) &&
    (targetOp.roleTypeId == notApplicable || roles.any (·.contains targetOp.roleTypeId))

def targetStatusId (model : EntityModel) (entity : Entity) : Option Id :=
  if model.hasStatusOp && model.hasStatusField then entity.statusId else none

/-! ### Roles of the user on an entity -/

def owner : Id := ['O', 'W', 'N', 'E', 'R']
def author : Id := ['A', 'U', 'T', 'H', 'O', 'R']
def partyGroup : Id := ['P', 'A', 'R', 'T', 'Y', '_', 'G', 'R', 'O', 'U', 'P']

def addNew (role : Id) (roles : List Id) : List Id :=
  if roles.contains role then roles else roles ++ [role]

def isGroupMember (db : Database) (partyIdFrom : Option Id) (partyIdTo : Id) : Bool :=
  db.partyRelationships.any fun relationship =>
    partyIdFrom == some relationship.1 && relationship.2 == partyIdTo

def getUserRoles (db : Database) (userLogin : UserLogin) (entity : Entity) : List Id :=
  let roles := if entity.createdByUserLogin = some userLogin.userLoginId then [owner] else []
  (db.relatedRoles.filter fun role => role.entityId == entity.entityId).foldl
    (fun roles contentRole =>
      if userLogin.partyId = some contentRole.partyId then
        let roles := addNew contentRole.roleTypeId roles
        if contentRole.roleTypeId = author then addNew owner roles else roles
      else if db.partyTypeId contentRole.partyId = some partyGroup ∧
          isGroupMember db userLogin.partyId contentRole.partyId = true then
        addNew contentRole.roleTypeId roles
      else roles) roles

/-- `getEntityOwners`, on a stack of some depth; `none` is a stack overflow. -/
def getEntityOwners (db : Database) : ℕ → Option Id → Option (List Id)
  | _, none | _, some [] => some []
  | 0, some _ => none
  | depth + 1, some ownerContentId =>
    match db.contentOwner ownerContentId with
    | none => some [ownerContentId]
    | some next => (getEntityOwners db depth next).map (ownerContentId :: ·)

def getUserRolesFromList (db : Database) (idList : List Id) (partyId : Option Id) : List Id :=
  ((db.contentRoles.filter fun role =>
    idList.contains role.entityId && partyId == some role.partyId).map EntityRole.roleTypeId).dedup

/-! ### The lists of the checker -/

/-- The lists of purposes, by reference: the one that is used, and those of the entities by key. -/
structure Lists where
  heap : ℕ → List Id
  next : ℕ
  purposeList : Option ℕ
  purposes : Id → Option ℕ

namespace Lists

variable (s : Lists)

def start (purposeList : Option (List Id)) : Lists where
  heap := fun _ => purposeList.getD []
  next := 1
  purposeList := purposeList.map fun _ => 0
  purposes := fun _ => none

def get (ref : Option ℕ) : Option (List Id) := ref.map s.heap

def setPurposeList (list : List Id) : Lists :=
  { s with
    heap := Function.update s.heap s.next list
    next := s.next + 1
    purposeList := some s.next }

/-- `purposes.put(entityId, purposeList)` -/
def putPurposes (entityId : Id) : Lists :=
  { s with purposes := Function.update s.purposes entityId s.purposeList }

/-- `purposeList.addAll(purposes.get(entityId))`, or the list itself if there was none. -/
def addPurposes (entityId : Id) : Lists :=
  match s.purposeList, s.purposes entityId with
  | none, tmpPurposeList => { s with purposeList := tmpPurposeList }
  | some _, none => s
  | some ref, some tmpRef =>
    { s with heap := Function.update s.heap ref (s.heap ref ++ s.heap tmpRef) }

end Lists

/-! ### The passes -/

/-- The data of a check that all passes share. -/
structure Check where
  db : Database
  model : EntityModel
  targetOperations : List PurposeOperation

namespace Check

variable (check : Check)

def isMatch (entity : Entity) (roles purposes : Option (List Id)) : Bool :=
  hasMatch check.model check.targetOperations roles purposes (targetStatusId check.model entity)

def checkPassed (roleList purposeList : Option (List Id)) (entities : List Entity) : Bool :=
  entities.any fun entity => check.isMatch entity roleList purposeList

def checkPurposes (roleList : Option (List Id)) : List Entity → Lists → Bool × Lists
  | [], s => (false, s)
  | entity :: entities, s =>
    let purposeList := check.db.relatedPurposes entity.entityId
    let s := s.setPurposeList purposeList
    if !purposeList.isEmpty && check.isMatch entity roleList (some purposeList) then (true, s)
    else checkPurposes roleList entities (s.putPurposes entity.entityId)

def checkRoles (userLogin : UserLogin) : Option (List Id) → List Entity → Lists → Bool × Lists
  | _, [], s => (false, s)
  | roleList, entity :: entities, s =>
    let s := s.addPurposes entity.entityId
    let roleList := roleList.getD [] ++ getUserRoles check.db userLogin entity
    if check.isMatch entity (some roleList) (s.get s.purposeList) then (true, s)
    else checkRoles userLogin (some roleList) entities s

def checkOwners (depth : ℕ) (partyId : Option Id) (s : Lists) : List Entity → Option Bool
  | [] => some false
  | entity :: entities => do
    let ownedContentIdList ← getEntityOwners check.db depth entity.ownerContentId
    let ownedContentRoleIds := getUserRolesFromList check.db ownedContentIdList partyId
    if check.isMatch entity (some ownedContentRoleIds) (s.get (s.purposes entity.entityId)) then
      return true
    else checkOwners depth partyId s entities

end Check

def getNextEntity (db : Database) : EntityRef → Option Entity
  | .id entityId => db.entities entityId
  | .value entity => some entity

/-- The arguments of a check. -/
structure Request where
  userLogin : Option UserLogin
  targetOperationList : List Id
  entityIdList : List EntityRef
  purposeList : Option (List Id)
  roleList : Option (List Id)

namespace Request

variable (request : Request) (db : Database) (model : EntityModel)

def check : Check where
  db := db
  model := model
  targetOperations := db.operations.filter fun operation =>
    request.targetOperationList.contains operation.operationId

def found : List Entity := request.entityIdList.filterMap (getNextEntity db)

def checkEntities (depth : ℕ) : Option Bool :=
  let check := request.check db model
  let found := request.found db
  if check.checkPassed request.roleList request.purposeList found then some true
  else
    let s := Lists.start request.purposeList
    let withPurposes := if model.hasPurposeOp then check.checkPurposes request.roleList found s
      else (false, s)
    if withPurposes.1 then some true
    else match request.userLogin with
      | none => some false
      | some userLogin =>
        let withRoles := check.checkRoles userLogin request.roleList found withPurposes.2
        if withRoles.1 then some true
        else if model.hasOwnerField then
          check.checkOwners depth userLogin.partyId withRoles.2 found
        else some false

/-- **`checkPermissionMethod`**; `none` is a runtime exception. -/
def checkPermissionMethod (depth : ℕ) : Option Bool :=
  match request.userLogin with
  | none => request.checkEntities db model depth
  | some userLogin =>
    match checkHasRoleOperations db userLogin.partyId request.targetOperationList with
    | none => none
    | some true => some true
    | some false => request.checkEntities db model depth

end Request

/-! ### Authorization -/

def PurposeOperation.Matches (targetOp : PurposeOperation) (model : EntityModel) (entity : Entity)
    (HasPurpose HasRole : Id → Prop) : Prop :=
  (model.hasPurposeOp = true →
    targetOp.purposeTypeId = notApplicable ∨ HasPurpose targetOp.purposeTypeId) ∧
  (model.hasStatusOp = true →
    targetOp.statusId = notApplicable ∨ targetStatusId model entity = some targetOp.statusId) ∧
  (targetOp.roleTypeId = notApplicable ∨ HasRole targetOp.roleTypeId)

def Check.Matches (check : Check) (entity : Entity) (HasPurpose HasRole : Id → Prop) : Prop :=
  ∃ targetOp ∈ check.targetOperations, targetOp.Matches check.model entity HasPurpose HasRole

/-- The chain of owners. -/
inductive Database.IsOwner (db : Database) : Option Id → Id → Prop
  | self {ownerContentId : Id} (hne : ownerContentId ≠ []) :
    IsOwner db (some ownerContentId) ownerContentId
  | next {ownerContentId ownerId : Id} {next : Option Id} (hne : ownerContentId ≠ [])
    (hnext : db.contentOwner ownerContentId = some next) (howner : IsOwner db next ownerId) :
    IsOwner db (some ownerContentId) ownerId

def Database.HasOwnerRole (db : Database) (userLogin : UserLogin) (entity : Entity) (role : Id) :
    Prop :=
  ∃ contentRole ∈ db.contentRoles, db.IsOwner entity.ownerContentId contentRole.entityId ∧
    userLogin.partyId = some contentRole.partyId ∧ contentRole.roleTypeId = role

def Database.HoldsRole (db : Database) (userLogin : UserLogin) (role : Id) : Prop :=
  ∃ partyId, userLogin.partyId = some partyId ∧
    (role = ['U', 'S', 'E', 'R'] ∨ (partyId ≠ [] ∧ role ∈ db.partyRoles partyId))

def hasRoleOperation (role : Id) : Id :=
  ['H', 'A', 'S', '_'] ++ role ++ ['_', 'R', 'O', 'L', 'E']

namespace Request

variable (request : Request) (db : Database) (model : EntityModel)

def Passed (list : Option (List Id)) (id : Id) : Prop := ∃ ids, list = some ids ∧ id ∈ ids

def NamesRole : Prop :=
  ∃ userLogin role, request.userLogin = some userLogin ∧
    hasRoleOperation role ∈ request.targetOperationList ∧ db.HoldsRole userLogin role

def HasPurpose (entity : Entity) (purpose : Id) : Prop :=
  purpose ∈ db.relatedPurposes entity.entityId ∨ Passed request.purposeList purpose

def HasRole (entity : Entity) (role : Id) : Prop :=
  Passed request.roleList role ∨ ∃ userLogin, request.userLogin = some userLogin ∧
    (role ∈ getUserRoles db userLogin entity ∨
      (model.hasOwnerField = true ∧ db.HasOwnerRole userLogin entity role))

/-- **Who may have access**: the user holds a role that is named, or a row of the table matches one
of the entities on its own. -/
def Authorized : Prop :=
  request.NamesRole db ∨ ∃ entity ∈ request.found db,
    (request.check db model).Matches entity (request.HasPurpose db entity)
      (request.HasRole db model entity)

/-! ### What the checker goes by -/

def Malformed : Prop := ∃ roleOp ∈ request.targetOperationList, roleOfOperation roleOp = none

/-- A party role of the user contains a role that an operation is taken to name. -/
def Contains : Prop :=
  ∃ userLogin partyId, request.userLogin = some userLogin ∧ userLogin.partyId = some partyId ∧
    partyId ≠ [] ∧ ∃ roleTypeId ∈ db.partyRoles partyId,
      ∃ roleOp ∈ request.targetOperationList, ∃ role, roleOfOperation roleOp = some (some role) ∧
        (find role roleTypeId).isSome = true

def IsUser : Prop :=
  ∃ userLogin, request.userLogin = some userLogin ∧ userLogin.partyId.isSome = true ∧
    hasUserRole ∈ request.targetOperationList

def Direct : Prop :=
  ∃ entity ∈ request.found db, (request.check db model).Matches entity
    (request.HasPurpose db entity) (Passed request.roleList)

def CollectedPurpose (before : List Entity) (purpose : Id) : Prop :=
  (∃ last, (request.found db).getLast? = some last ∧
    purpose ∈ db.relatedPurposes last.entityId) ∨
  ∃ entity ∈ before, purpose ∈ db.relatedPurposes entity.entityId

def CollectedRole (userLogin : UserLogin) (before : List Entity) (role : Id) : Prop :=
  Passed request.roleList role ∨ ∃ entity ∈ before, role ∈ getUserRoles db userLogin entity

/-- A row matches an entity with the purposes and the roles that were collected up to it. -/
def Borrowed : Prop :=
  ∃ userLogin before entity after, request.userLogin = some userLogin ∧
    request.found db = before ++ entity :: after ∧
    (request.check db model).Matches entity (request.CollectedPurpose db (before ++ [entity]))
      (request.CollectedRole db userLogin (before ++ [entity]))

/-- A purpose of the entity; an entity with the key of the last one has all that were collected. -/
def OwnedPurpose (entity : Entity) (purpose : Id) : Prop :=
  purpose ∈ db.relatedPurposes entity.entityId ∨
    ∃ last, (request.found db).getLast? = some last ∧ last.entityId = entity.entityId ∧
      ∃ other ∈ request.found db, purpose ∈ db.relatedPurposes other.entityId

/-- A row matches an entity with the roles on its owners; none of the chains up to it is too
long. -/
def BorrowedByOwner (depth : ℕ) : Prop :=
  model.hasOwnerField = true ∧ ∃ userLogin before entity after,
    request.userLogin = some userLogin ∧ request.found db = before ++ entity :: after ∧
    (∀ other ∈ before ++ [entity], getEntityOwners db depth other.ownerContentId ≠ none) ∧
    (request.check db model).Matches entity (request.OwnedPurpose db entity)
      (db.HasOwnerRole userLogin entity)

/-- **Access without authorization**: by a part of a name, or by roles and purposes of other
entities. -/
def Overgrants (depth : ℕ) : Prop :=
  ¬ request.Authorized db model ∧ ¬ request.Malformed ∧
    (request.Contains db ∨ request.Borrowed db model ∨ request.BorrowedByOwner db model depth)

/-- **Authorization without access**: an operation cannot be read, or the purposes that were
passed in are gone when they are needed, or the name of a role contains `_ROLE`. -/
def Undergrants (depth : ℕ) : Prop :=
  request.Authorized db model ∧ ¬ request.IsUser ∧
    ((request.userLogin ≠ none ∧ request.Malformed) ∨
      ¬ (request.Contains db ∨ request.Direct db model ∨ request.Borrowed db model ∨
        request.BorrowedByOwner db model depth))

end Request

/-! ### Rows that match -/

section Matching

variable {check : Check} {entity : Entity} {P P' R R' : Id → Prop}

theorem isMatch_iff {roles purposes : Option (List Id)} :
    check.isMatch entity roles purposes = true ↔
      check.Matches entity (Request.Passed purposes) (Request.Passed roles) := by
  have hany : ∀ (list : Option (List Id)) (id : Id),
      list.any (·.contains id) = true ↔ Request.Passed list id := by
    intro list id
    cases list with
    | none => simp [Request.Passed]
    | some ids => simp [Request.Passed]
  simp only [Check.isMatch, hasMatch, List.any_eq_true, Check.Matches, PurposeOperation.Matches,
    Bool.and_eq_true, Bool.or_eq_true, Bool.not_eq_true', beq_iff_eq, hany]
  refine exists_congr fun targetOp => and_congr_right fun _ => ?_
  rw [and_assoc, or_comm (b := _ = notApplicable)]
  cases check.model.hasPurposeOp <;> cases check.model.hasStatusOp <;> simp [or_comm]

theorem Check.Matches.imp (h : check.Matches entity P R)
    (hP : check.model.hasPurposeOp = true → ∀ id, P id → P' id) (hR : ∀ id, R id → R' id) :
    check.Matches entity P' R' := by
  obtain ⟨targetOp, hmem, hpurpose, hstatus, hrole⟩ := h
  exact ⟨targetOp, hmem, fun hop => (hpurpose hop).imp_right (hP hop _), hstatus,
    hrole.imp_right (hR _)⟩

theorem Check.Matches.congr (hP : check.model.hasPurposeOp = true → ∀ id, P id ↔ P' id)
    (hR : ∀ id, R id ↔ R' id) : check.Matches entity P R ↔ check.Matches entity P' R' :=
  ⟨fun h => h.imp (fun hop id => (hP hop id).mp) fun id => (hR id).mp,
    fun h => h.imp (fun hop id => (hP hop id).mpr) fun id => (hR id).mpr⟩

theorem Check.matches_or :
    check.Matches entity (fun id => P id ∨ P' id) R ↔
      check.Matches entity P R ∨ (check.model.hasPurposeOp = true ∧ check.Matches entity P' R) := by
  constructor
  · rintro ⟨targetOp, hmem, hpurpose, hrest⟩
    by_cases hop : check.model.hasPurposeOp = true
    · obtain hna | hP | hP' := hpurpose hop
      · exact .inl ⟨targetOp, hmem, fun _ => .inl hna, hrest⟩
      · exact .inl ⟨targetOp, hmem, fun _ => .inr hP, hrest⟩
      · exact .inr ⟨hop, targetOp, hmem, fun _ => .inr hP', hrest⟩
    · exact .inl ⟨targetOp, hmem, fun h => absurd h hop, hrest⟩
  · rintro (h | ⟨-, h⟩)
    · exact h.imp (fun _ _ => Or.inl) fun _ => id
    · exact h.imp (fun _ _ => Or.inr) fun _ => id

end Matching

/-! ### Operations for roles -/

section Operations

variable {db : Database} {targetOperations : List Id}

theorem mapM_eq_none {α β : Type} {f : α → Option β} {l : List α} :
    l.mapM f = none ↔ ∃ x ∈ l, f x = none := by
  induction l with
  | nil => simp
  | cons x l ih =>
    rw [List.mapM_cons]
    cases hx : f x with
    | none => simp [hx]
    | some y =>
      cases hl : l.mapM f with
      | none => simpa [hx, hl] using ih
      | some ys => simpa [hx, hl] using ih

theorem mem_of_mapM {α β : Type} {f : α → Option β} {l : List α} {ys : List β}
    (h : l.mapM f = some ys) (y : β) : y ∈ ys ↔ ∃ x ∈ l, f x = some y := by
  induction l generalizing ys with
  | nil =>
    obtain rfl : [] = ys := by simpa using h
    simp
  | cons x l ih =>
    rw [List.mapM_cons] at h
    obtain ⟨y', hy', h⟩ := Option.bind_eq_some_iff.mp h
    obtain ⟨ys', hys', h⟩ := Option.bind_eq_some_iff.mp h
    obtain rfl : y' :: ys' = ys := by simpa using h
    simp [ih hys', hy', eq_comm]

theorem checkHasRoleOperations_isUser {partyId : Option Id} (h : partyId.isSome = true)
    (hmem : hasUserRole ∈ targetOperations) :
    checkHasRoleOperations db partyId targetOperations = some true := by
  simp [checkHasRoleOperations, h, hmem]

theorem checkHasRoleOperations_eq_none {partyId : Option Id}
    (h : ¬ (partyId.isSome = true ∧ hasUserRole ∈ targetOperations)) :
    checkHasRoleOperations db partyId targetOperations = none ↔
      ∃ roleOp ∈ targetOperations, roleOfOperation roleOp = none := by
  have hfalse : (partyId.isSome && targetOperations.contains hasUserRole) = false := by
    simpa using h
  rw [checkHasRoleOperations, hfalse, if_neg Bool.false_ne_true, ← mapM_eq_none]
  cases targetOperations.mapM roleOfOperation <;> simp

theorem checkHasRoleOperations_eq_true {partyId : Option Id}
    (h : ¬ (partyId.isSome = true ∧ hasUserRole ∈ targetOperations)) :
    checkHasRoleOperations db partyId targetOperations = some true ↔
      (¬ ∃ roleOp ∈ targetOperations, roleOfOperation roleOp = none) ∧
        ∃ party, partyId = some party ∧ party ≠ [] ∧ ∃ roleTypeId ∈ db.partyRoles party,
          ∃ roleOp ∈ targetOperations, ∃ role, roleOfOperation roleOp = some (some role) ∧
            (find role roleTypeId).isSome = true := by
  have hfalse : (partyId.isSome && targetOperations.contains hasUserRole) = false := by
    simpa using h
  rw [checkHasRoleOperations, hfalse, if_neg Bool.false_ne_true, ← mapM_eq_none]
  cases hops : targetOperations.mapM roleOfOperation with
  | none => simp
  | some newHasRoleList =>
    have hnamed : ∀ roleTypeId : Id, (newHasRoleList.any fun thisRole => thisRole.any fun role =>
        (find role roleTypeId).isSome) = true ↔ ∃ roleOp ∈ targetOperations, ∃ role,
          roleOfOperation roleOp = some (some role) ∧ (find role roleTypeId).isSome = true := by
      intro roleTypeId
      simp only [List.any_eq_true, Option.any_eq_true]
      constructor
      · rintro ⟨thisRole, hthis, role, rfl, hfind⟩
        obtain ⟨roleOp, hmem, hrole⟩ := (mem_of_mapM hops _).mp hthis
        exact ⟨roleOp, hmem, role, hrole, hfind⟩
      · rintro ⟨roleOp, hmem, role, hrole, hfind⟩
        exact ⟨some role, (mem_of_mapM hops _).mpr ⟨roleOp, hmem, hrole⟩, role, rfl, hfind⟩
    rcases partyId with _ | (_ | ⟨c, party⟩)
    · simp
    · simp
    · simp [hnamed]

end Operations

/-! ### Owners -/

section Owners

variable {db : Database} {depth : ℕ} {ownerContentId id : Id}

theorem not_isOwner {first : Option Id} (h : first = none ∨ first = some []) :
    ¬ db.IsOwner first id := by
  rintro (⟨hne⟩ | ⟨hne, -, -⟩) <;> simp_all

theorem isOwner_iff (hne : ownerContentId ≠ []) :
    db.IsOwner (some ownerContentId) id ↔ id = ownerContentId ∨
      ∃ next, db.contentOwner ownerContentId = some next ∧ db.IsOwner next id := by
  constructor
  · rintro (⟨-⟩ | ⟨-, hnext, howner⟩)
    · exact .inl rfl
    · exact .inr ⟨_, hnext, howner⟩
  · rintro (rfl | ⟨next, hnext, howner⟩)
    · exact .self hne
    · exact .next hne hnext howner

theorem getEntityOwners_of_empty {first : Option Id} (h : first = none ∨ first = some []) :
    getEntityOwners db depth first = some [] := by
  obtain rfl | rfl := h <;> cases depth <;> rfl

theorem getEntityOwners_zero (hne : ownerContentId ≠ []) :
    getEntityOwners db 0 (some ownerContentId) = none := by
  rw [getEntityOwners]
  exact hne

theorem getEntityOwners_succ (hne : ownerContentId ≠ []) :
    getEntityOwners db (depth + 1) (some ownerContentId) =
      match db.contentOwner ownerContentId with
      | none => some [ownerContentId]
      | some next => (getEntityOwners db depth next).map (ownerContentId :: ·) := by
  rw [getEntityOwners]
  exact hne

theorem mem_getEntityOwners {first : Option Id} {owners : List Id}
    (h : getEntityOwners db depth first = some owners) : id ∈ owners ↔ db.IsOwner first id := by
  induction depth generalizing first owners with
  | zero =>
    by_cases hfirst : first = none ∨ first = some []
    · rw [getEntityOwners_of_empty hfirst] at h
      obtain rfl : [] = owners := by simpa using h
      simpa using not_isOwner hfirst
    · obtain ⟨ownerContentId, rfl⟩ : ∃ o, first = some o := Option.ne_none_iff_exists'.mp (by tauto)
      rw [getEntityOwners_zero (by simpa using hfirst)] at h
      cases h
  | succ depth ih =>
    by_cases hfirst : first = none ∨ first = some []
    · rw [getEntityOwners_of_empty hfirst] at h
      obtain rfl : [] = owners := by simpa using h
      simpa using not_isOwner hfirst
    · obtain ⟨ownerContentId, rfl⟩ : ∃ o, first = some o := Option.ne_none_iff_exists'.mp (by tauto)
      have hne : ownerContentId ≠ [] := by simpa using hfirst
      rw [getEntityOwners_succ hne] at h
      rw [isOwner_iff hne]
      cases hnext : db.contentOwner ownerContentId with
      | none =>
        obtain rfl : [ownerContentId] = owners := by simpa [hnext] using h
        simp
      | some next =>
        obtain ⟨rest, hrest, rfl⟩ : ∃ rest, getEntityOwners db depth next = some rest ∧
            ownerContentId :: rest = owners := by simpa [hnext] using h
        simp [ih hrest]

theorem mem_getUserRolesFromList {userLogin : UserLogin} {entity : Entity} {owners : List Id}
    {role : Id} (h : getEntityOwners db depth entity.ownerContentId = some owners) :
    role ∈ getUserRolesFromList db owners userLogin.partyId ↔
      db.HasOwnerRole userLogin entity role := by
  simp only [getUserRolesFromList, List.mem_dedup, List.mem_map, List.mem_filter,
    Bool.and_eq_true, List.contains_iff_mem, beq_iff_eq, Database.HasOwnerRole,
    mem_getEntityOwners h, and_assoc]

end Owners

/-! ### Passes that keep nothing -/

theorem exists_split_cons {α : Type} {x : α} {l : List α} {p : List α → α → Prop} :
    (∃ before y after, x :: l = before ++ y :: after ∧ p before y) ↔
      p [] x ∨ ∃ before y after, l = before ++ y :: after ∧ p (x :: before) y := by
  constructor
  · rintro ⟨_ | ⟨z, before⟩, y, after, hsplit, hp⟩
    · obtain ⟨rfl, rfl⟩ : x = y ∧ l = after := by simpa using hsplit
      exact .inl hp
    · obtain ⟨rfl, rfl⟩ : x = z ∧ l = before ++ y :: after := by simpa using hsplit
      exact .inr ⟨before, y, after, rfl, hp⟩
  · rintro (hp | ⟨before, y, after, rfl, hp⟩)
    · exact ⟨[], x, l, rfl, hp⟩
    · exact ⟨x :: before, y, after, rfl, hp⟩

section Passes

variable {check : Check} {entities : List Entity}

theorem checkPassed_eq_true {roleList purposeList : Option (List Id)} :
    check.checkPassed roleList purposeList entities = true ↔ ∃ entity ∈ entities,
      check.Matches entity (Request.Passed purposeList) (Request.Passed roleList) := by
  simp only [Check.checkPassed, List.any_eq_true, isMatch_iff]

theorem checkOwners_eq_true {depth : ℕ} {userLogin : UserLogin} {s : Lists} :
    check.checkOwners depth userLogin.partyId s entities = some true ↔
      ∃ before entity after, entities = before ++ entity :: after ∧
        (∀ other ∈ before ++ [entity],
          getEntityOwners check.db depth other.ownerContentId ≠ none) ∧
        check.Matches entity (Request.Passed (s.get (s.purposes entity.entityId)))
          (check.db.HasOwnerRole userLogin entity) := by
  induction entities with
  | nil => simp [Check.checkOwners]
  | cons entity entities ih =>
    refine Iff.trans ?_ exists_split_cons.symm
    rw [Check.checkOwners]
    cases howners : getEntityOwners check.db depth entity.ownerContentId with
    | none => simp [howners]
    | some owners =>
      have hmatch : check.isMatch entity
          (some (getUserRolesFromList check.db owners userLogin.partyId))
          (s.get (s.purposes entity.entityId)) = true ↔
          check.Matches entity (Request.Passed (s.get (s.purposes entity.entityId)))
            (check.db.HasOwnerRole userLogin entity) := by
        rw [isMatch_iff]
        exact Check.Matches.congr (fun _ _ => Iff.rfl) fun role => by
          simp [Request.Passed, mem_getUserRolesFromList howners]
      by_cases h : check.Matches entity (Request.Passed (s.get (s.purposes entity.entityId)))
          (check.db.HasOwnerRole userLogin entity)
      · simp [hmatch.mpr h, howners, h]
      · have hno := Bool.eq_false_iff.mpr fun hm => h (hmatch.mp hm)
        simp [hno, howners, h, ih]

end Passes

/-! ### The lists of purposes -/

/-- After the entities of `done`, each has the list of its own purposes, and the one that is used is
that of the last. -/
structure Lists.Registered (s : Lists) (db : Database) (done : List Entity) : Prop where
  own : ∀ id ref, s.purposes id = some ref → ref < s.next ∧ s.heap ref = db.relatedPurposes id
  inj : ∀ id id' ref, s.purposes id = some ref → s.purposes id' = some ref → id = id'
  found : ∀ entity ∈ done, ∃ ref, s.purposes entity.entityId = some ref
  last : ∀ last, done.getLast? = some last → s.purposeList = s.purposes last.entityId

/-- The one list that is used is that of the last entity, and it has collected the purposes of the
entities of `done`. -/
structure Lists.Collected (s : Lists) (db : Database) (found : List Entity) (last : Entity)
    (done : List Entity) : Prop where
  mem : ∀ id ref purpose, s.purposes id = some ref → (purpose ∈ s.heap ref ↔
    purpose ∈ db.relatedPurposes id ∨
      (id = last.entityId ∧ ∃ entity ∈ done, purpose ∈ db.relatedPurposes entity.entityId))
  inj : ∀ id id' ref, s.purposes id = some ref → s.purposes id' = some ref → id = id'
  found : ∀ entity ∈ found, ∃ ref, s.purposes entity.entityId = some ref
  last : ∃ ref, s.purposeList = some ref ∧ s.purposes last.entityId = some ref

section Lists

variable {s : Lists} {db : Database} {entity last : Entity} {found done : List Entity}

theorem Lists.registered_start (purposeList : Option (List Id)) :
    (Lists.start purposeList).Registered db [] where
  own _ _ h := absurd h (Option.some_ne_none _).symm
  inj _ _ _ h := absurd h (Option.some_ne_none _).symm
  found _ h := absurd h List.not_mem_nil
  last _ h := absurd h (Option.some_ne_none _).symm

theorem Lists.Registered.step (h : s.Registered db done) (entity : Entity) :
    ((s.setPurposeList (db.relatedPurposes entity.entityId)).putPurposes entity.entityId).Registered
      db (done ++ [entity]) := by
  have hcases : ∀ id ref, Function.update s.purposes entity.entityId (some s.next) id = some ref →
      (id = entity.entityId ∧ ref = s.next) ∨
        (id ≠ entity.entityId ∧ s.purposes id = some ref) := by
    intro id ref href
    by_cases hid : id = entity.entityId
    · subst hid
      exact .inl ⟨rfl, by simpa [eq_comm] using href⟩
    · exact .inr ⟨hid, by simpa [hid] using href⟩
  constructor
  · intro id ref href
    obtain ⟨rfl, rfl⟩ | ⟨-, hold⟩ := hcases id ref href
    · exact ⟨Nat.lt_succ_self _, by simp [Lists.setPurposeList, Lists.putPurposes]⟩
    · obtain ⟨hlt, hheap⟩ := h.own id ref hold
      refine ⟨Nat.lt_succ_of_lt hlt, ?_⟩
      simpa [Lists.setPurposeList, Lists.putPurposes, Nat.ne_of_lt hlt] using hheap
  · intro id id' ref href href'
    obtain ⟨rfl, rfl⟩ | ⟨-, hold⟩ := hcases id ref href
    · obtain ⟨rfl, -⟩ | ⟨-, hold'⟩ := hcases id' _ href'
      · rfl
      · exact absurd (h.own id' _ hold').1 (Nat.lt_irrefl _)
    · obtain ⟨rfl, rfl⟩ | ⟨-, hold'⟩ := hcases id' ref href'
      · exact absurd (h.own id _ hold).1 (Nat.lt_irrefl _)
      · exact h.inj id id' ref hold hold'
  · intro other hmem
    by_cases hid : other.entityId = entity.entityId
    · exact ⟨s.next, by simp [Lists.setPurposeList, Lists.putPurposes, hid]⟩
    · have hother : other ∈ done := by
        obtain hmem | hmem := List.mem_append.mp hmem
        · exact hmem
        · exact absurd (congrArg Entity.entityId (List.mem_singleton.mp hmem)) hid
      obtain ⟨ref, href⟩ := h.found other hother
      exact ⟨ref, by simpa [Lists.setPurposeList, Lists.putPurposes, hid] using href⟩
  · intro last hlast
    obtain rfl : entity = last := by simpa using hlast
    simp [Lists.setPurposeList, Lists.putPurposes]

theorem Lists.Registered.collected (h : s.Registered db found)
    (hlast : found.getLast? = some last) : s.Collected db found last [] where
  mem id ref purpose href := by simp [(h.own id ref href).2]
  inj := h.inj
  found := h.found
  last := by
    obtain ⟨ref, href⟩ := h.found last (List.mem_of_getLast? hlast)
    exact ⟨ref, (h.last last hlast).trans href, href⟩

theorem Lists.Collected.step (h : s.Collected db found last done) (hmem : entity ∈ found) :
    (s.addPurposes entity.entityId).Collected db found last (done ++ [entity]) := by
  obtain ⟨lastRef, hused, hlast⟩ := h.last
  obtain ⟨ref, href⟩ := h.found entity hmem
  have hstep : s.addPurposes entity.entityId =
      { s with heap := Function.update s.heap lastRef (s.heap lastRef ++ s.heap ref) } := by
    simp [Lists.addPurposes, hused, href]
  rw [hstep]
  refine ⟨?_, h.inj, h.found, h.last⟩
  intro id other purpose hother
  by_cases hsame : other = lastRef
  · subst hsame
    obtain rfl : id = last.entityId := h.inj _ _ _ hother hlast
    have hown := h.mem _ _ purpose hlast
    have hadd := h.mem _ _ purpose href
    simp only [Function.update_self, List.mem_append, hown, hadd, List.mem_singleton, or_and_right,
      exists_or, exists_eq_left, true_and]
    generalize (∃ entity ∈ done, purpose ∈ db.relatedPurposes entity.entityId) = collected
    tauto
  · have hne : id ≠ last.entityId := by
      rintro rfl
      exact hsame (Option.some.inj (hother.symm.trans hlast))
    simpa [hsame, hne] using h.mem id other purpose hother

theorem Lists.Collected.passed_get (h : s.Collected db found last done) (purpose : Id) :
    Request.Passed (s.get s.purposeList) purpose ↔ purpose ∈ db.relatedPurposes last.entityId ∨
      ∃ entity ∈ done, purpose ∈ db.relatedPurposes entity.entityId := by
  obtain ⟨ref, hused, hlast⟩ := h.last
  simp [Request.Passed, Lists.get, hused, h.mem _ _ purpose hlast]

theorem Lists.Collected.passed_purposes (h : s.Collected db found last done) (hmem : entity ∈ found)
    (purpose : Id) :
    Request.Passed (s.get (s.purposes entity.entityId)) purpose ↔
      purpose ∈ db.relatedPurposes entity.entityId ∨ (entity.entityId = last.entityId ∧
        ∃ other ∈ done, purpose ∈ db.relatedPurposes other.entityId) := by
  obtain ⟨ref, href⟩ := h.found entity hmem
  simp [Request.Passed, Lists.get, href, h.mem _ _ purpose href]

end Lists

section Passes

variable {check : Check} {s : Lists} {entities done : List Entity}

theorem checkPurposes_eq_true {roleList : Option (List Id)} :
    (check.checkPurposes roleList entities s).1 = true ↔ ∃ entity ∈ entities,
      check.db.relatedPurposes entity.entityId ≠ [] ∧
        check.Matches entity (· ∈ check.db.relatedPurposes entity.entityId)
          (Request.Passed roleList) := by
  induction entities generalizing s with
  | nil => simp [Check.checkPurposes]
  | cons entity entities ih =>
    have hmatch : check.isMatch entity roleList
        (some (check.db.relatedPurposes entity.entityId)) = true ↔
        check.Matches entity (· ∈ check.db.relatedPurposes entity.entityId)
          (Request.Passed roleList) := by
      rw [isMatch_iff]
      exact Check.Matches.congr (fun _ _ => by simp [Request.Passed]) fun _ => Iff.rfl
    have htest : (!(check.db.relatedPurposes entity.entityId).isEmpty &&
        check.isMatch entity roleList (some (check.db.relatedPurposes entity.entityId))) = true ↔
        check.db.relatedPurposes entity.entityId ≠ [] ∧
          check.Matches entity (· ∈ check.db.relatedPurposes entity.entityId)
            (Request.Passed roleList) := by
      rw [Bool.and_eq_true, hmatch, Bool.not_eq_true', Ne, List.isEmpty_eq_false_iff]
    rw [Check.checkPurposes, List.exists_mem_cons_iff, ← htest]
    split_ifs with h
    · exact iff_of_true rfl (.inl h)
    · rw [ih, or_iff_right h]

theorem registered_checkPurposes {roleList : Option (List Id)} (h : s.Registered check.db done)
    (hfalse : (check.checkPurposes roleList entities s).1 = false) :
    (check.checkPurposes roleList entities s).2.Registered check.db (done ++ entities) := by
  induction entities generalizing s done with
  | nil => simpa [Check.checkPurposes] using h
  | cons entity entities ih =>
    rw [Check.checkPurposes] at hfalse ⊢
    split_ifs at hfalse ⊢ with hmatch
    rw [List.append_cons]
    exact ih (h.step entity) hfalse

end Passes

/-! ### The pass with the roles -/

namespace Request

variable {request : Request} {db : Database} {model : EntityModel} {s : Lists}
  {before entities : List Entity} {entity : Entity} {userLogin : UserLogin}
  {roleList : Option (List Id)}

/-- Where purposes are asked for, the lists have collected those of the entities before. -/
def Kept (request : Request) (db : Database) (model : EntityModel) (before : List Entity)
    (s : Lists) : Prop :=
  model.hasPurposeOp = true → ∀ last, (request.found db).getLast? = some last →
    s.Collected db (request.found db) last before

theorem exists_getLast? {l : List Entity} (h : entity ∈ l) : ∃ last, l.getLast? = some last :=
  ⟨l.getLast (List.ne_nil_of_mem h), List.getLast?_eq_some_getLast _⟩

theorem Kept.step (h : request.Kept db model before s) (hmem : entity ∈ request.found db) :
    request.Kept db model (before ++ [entity]) (s.addPurposes entity.entityId) :=
  fun hop last hlast => (h hop last hlast).step hmem

theorem Kept.passed_get (h : request.Kept db model before s) (hmem : entity ∈ request.found db)
    (hop : model.hasPurposeOp = true) (purpose : Id) :
    Passed (s.get s.purposeList) purpose ↔ request.CollectedPurpose db before purpose := by
  obtain ⟨last, hlast⟩ := exists_getLast? hmem
  simp [(h hop last hlast).passed_get, CollectedPurpose, hlast]

theorem Kept.passed_purposes (h : request.Kept db model (request.found db) s)
    (hmem : entity ∈ request.found db) (hop : model.hasPurposeOp = true) (purpose : Id) :
    Passed (s.get (s.purposes entity.entityId)) purpose ↔
      request.OwnedPurpose db entity purpose := by
  obtain ⟨last, hlast⟩ := exists_getLast? hmem
  simp [(h hop last hlast).passed_purposes hmem, OwnedPurpose, hlast, eq_comm]

theorem collectedRole_append (role : Id)
    (h : Passed roleList role ↔ request.CollectedRole db userLogin before role) :
    Passed (some (roleList.getD [] ++ getUserRoles db userLogin entity)) role ↔
      request.CollectedRole db userLogin (before ++ [entity]) role := by
  have hgetD : role ∈ roleList.getD [] ↔ Passed roleList role := by
    cases roleList <;> simp [Passed]
  have happend : Passed (some (roleList.getD [] ++ getUserRoles db userLogin entity)) role ↔
      Passed roleList role ∨ role ∈ getUserRoles db userLogin entity := by
    rw [← hgetD, ← List.mem_append]
    simp [Passed]
  rw [happend, h]
  simp [CollectedRole, or_and_right, exists_or, or_assoc]

theorem isMatch_collected (h : request.Kept db model (before ++ [entity]) s)
    (hroles : ∀ role, Passed roleList role ↔
      request.CollectedRole db userLogin (before ++ [entity]) role)
    (hmem : entity ∈ request.found db) :
    (request.check db model).isMatch entity roleList (s.get s.purposeList) = true ↔
      (request.check db model).Matches entity (request.CollectedPurpose db (before ++ [entity]))
        (request.CollectedRole db userLogin (before ++ [entity])) := by
  rw [isMatch_iff]
  exact Check.Matches.congr (fun hop => h.passed_get hmem hop) hroles

theorem checkRoles_cons :
    (request.check db model).checkRoles userLogin roleList (entity :: entities) s =
      if (request.check db model).isMatch entity
          (some (roleList.getD [] ++ getUserRoles db userLogin entity))
          ((s.addPurposes entity.entityId).get (s.addPurposes entity.entityId).purposeList) = true
      then (true, s.addPurposes entity.entityId)
      else (request.check db model).checkRoles userLogin
        (some (roleList.getD [] ++ getUserRoles db userLogin entity)) entities
        (s.addPurposes entity.entityId) := rfl

theorem checkRoles_eq_true (h : request.Kept db model before s)
    (hroles : ∀ role, Passed roleList role ↔ request.CollectedRole db userLogin before role)
    (hmem : ∀ entity ∈ entities, entity ∈ request.found db) :
    ((request.check db model).checkRoles userLogin roleList entities s).1 = true ↔
      ∃ before' entity after, entities = before' ++ entity :: after ∧
        (request.check db model).Matches entity
          (request.CollectedPurpose db (before ++ (before' ++ [entity])))
          (request.CollectedRole db userLogin (before ++ (before' ++ [entity]))) := by
  induction entities generalizing before s roleList with
  | nil => simp [Check.checkRoles]
  | cons entity entities ih =>
    obtain ⟨hentity, hentities⟩ := List.forall_mem_cons.mp hmem
    have hstep := h.step hentity
    have hroles' : ∀ role,
        Passed (some (roleList.getD [] ++ getUserRoles db userLogin entity)) role ↔
        request.CollectedRole db userLogin (before ++ [entity]) role :=
      fun role => collectedRole_append role (hroles role)
    refine Iff.trans ?_ exists_split_cons.symm
    have htest := isMatch_collected hstep hroles' hentity
    rw [checkRoles_cons, List.nil_append, ← htest]
    split_ifs with hmatch
    · exact iff_of_true rfl (.inl hmatch)
    · rw [or_iff_right hmatch, ih hstep hroles' hentities]
      simp only [List.append_assoc, List.cons_append, List.nil_append]

theorem kept_checkRoles (h : request.Kept db model before s)
    (hmem : ∀ entity ∈ entities, entity ∈ request.found db)
    (hfalse : ((request.check db model).checkRoles userLogin roleList entities s).1 = false) :
    request.Kept db model (before ++ entities)
      ((request.check db model).checkRoles userLogin roleList entities s).2 := by
  induction entities generalizing before s roleList with
  | nil => simpa [Check.checkRoles] using h
  | cons entity entities ih =>
    obtain ⟨hentity, hentities⟩ := List.forall_mem_cons.mp hmem
    rw [checkRoles_cons] at hfalse ⊢
    split_ifs at hfalse ⊢ with hmatch
    rw [List.append_cons]
    exact ih (h.step hentity) hentities hfalse

end Request

/-! ### What is granted -/

namespace Request

variable {request : Request} {db : Database} {model : EntityModel} {depth : ℕ}

def withPurposes (request : Request) (db : Database) (model : EntityModel) : Bool × Lists :=
  if model.hasPurposeOp then
    (request.check db model).checkPurposes request.roleList (request.found db)
      (Lists.start request.purposeList)
  else (false, Lists.start request.purposeList)

theorem direct_iff :
    request.Direct db model ↔ (request.check db model).checkPassed request.roleList
      request.purposeList (request.found db) = true ∨
        (request.withPurposes db model).1 = true := by
  have hpass : ∀ s, ((request.check db model).checkPurposes request.roleList
      (request.found db) s).1 = true ↔ ∃ entity ∈ request.found db,
        db.relatedPurposes entity.entityId ≠ [] ∧ (request.check db model).Matches entity
          (· ∈ db.relatedPurposes entity.entityId) (Passed request.roleList) :=
    fun _ => checkPurposes_eq_true
  have hsecond : (request.withPurposes db model).1 = true ↔ model.hasPurposeOp = true ∧
      ∃ entity ∈ request.found db, db.relatedPurposes entity.entityId ≠ [] ∧
        (request.check db model).Matches entity (· ∈ db.relatedPurposes entity.entityId)
          (Passed request.roleList) := by
    rw [withPurposes]
    split_ifs with hop
    · rw [hpass, and_iff_right hop]
    · simp [hop]
  have hone : ∀ entity, (request.check db model).Matches entity (request.HasPurpose db entity)
      (Passed request.roleList) ↔
        (request.check db model).Matches entity (Passed request.purposeList)
          (Passed request.roleList) ∨
        (model.hasPurposeOp = true ∧ (request.check db model).Matches entity
          (· ∈ db.relatedPurposes entity.entityId) (Passed request.roleList)) := by
    intro entity
    refine Iff.trans (Check.Matches.congr (fun _ id => ?_) fun _ => Iff.rfl) Check.matches_or
    exact Or.comm
  rw [checkPassed_eq_true, hsecond]
  constructor
  · rintro ⟨entity, hmem, hmatch⟩
    obtain hmatch | ⟨hop, hmatch⟩ := (hone entity).mp hmatch
    · exact .inl ⟨entity, hmem, hmatch⟩
    · by_cases hnil : db.relatedPurposes entity.entityId = []
      · -- without purposes, only the rows for any purpose match
        refine .inl ⟨entity, hmem, hmatch.imp (fun _ id hid => ?_) fun _ => id⟩
        rw [hnil] at hid
        exact absurd hid List.not_mem_nil
      · exact .inr ⟨hop, entity, hmem, hnil, hmatch⟩
  · rintro (⟨entity, hmem, hmatch⟩ | ⟨hop, entity, hmem, -, hmatch⟩)
    · exact ⟨entity, hmem, (hone entity).mpr (.inl hmatch)⟩
    · exact ⟨entity, hmem, (hone entity).mpr (.inr ⟨hop, hmatch⟩)⟩

theorem kept_withPurposes (hfalse : (request.withPurposes db model).1 = false) :
    request.Kept db model [] (request.withPurposes db model).2 := by
  intro hop last hlast
  rw [withPurposes, if_pos hop] at hfalse ⊢
  have hstart : (Lists.start request.purposeList).Registered (request.check db model).db [] :=
    Lists.registered_start request.purposeList
  exact Lists.Registered.collected (registered_checkPurposes hstart hfalse) hlast

theorem checkRoles_iff_borrowed {userLogin : UserLogin} (huser : request.userLogin = some userLogin)
    (hfalse : (request.withPurposes db model).1 = false) :
    ((request.check db model).checkRoles userLogin request.roleList (request.found db)
      (request.withPurposes db model).2).1 = true ↔ request.Borrowed db model := by
  rw [checkRoles_eq_true (kept_withPurposes hfalse) (fun role => by simp [CollectedRole])
    fun _ => id]
  simp [Borrowed, huser]

theorem checkOwners_iff_borrowedByOwner {userLogin : UserLogin} {s : Lists}
    (huser : request.userLogin = some userLogin) (hop : model.hasOwnerField = true)
    (hkept : request.Kept db model (request.found db) s) :
    (request.check db model).checkOwners depth userLogin.partyId s (request.found db) = some true ↔
      request.BorrowedByOwner db model depth := by
  rw [checkOwners_eq_true]
  constructor
  · rintro ⟨before, entity, after, hsplit, hchains, hmatch⟩
    have hmem : entity ∈ request.found db := by simp [hsplit]
    exact ⟨hop, userLogin, before, entity, after, huser, hsplit, hchains,
      hmatch.imp (fun hop id => (hkept.passed_purposes hmem hop id).mp) fun _ => id⟩
  · rintro ⟨-, userLogin', before, entity, after, huser', hsplit, hchains, hmatch⟩
    obtain rfl : userLogin = userLogin' := Option.some.inj (huser.symm.trans huser')
    have hmem : entity ∈ request.found db := by simp [hsplit]
    exact ⟨before, entity, after, hsplit, hchains,
      hmatch.imp (fun hop id => (hkept.passed_purposes hmem hop id).mpr) fun _ => id⟩

theorem checkEntities_eq_true :
    request.checkEntities db model depth = some true ↔ request.Direct db model ∨
      request.Borrowed db model ∨ request.BorrowedByOwner db model depth := by
  have hunfold : request.checkEntities db model depth =
      if (request.check db model).checkPassed request.roleList request.purposeList
          (request.found db) = true then some true
      else if (request.withPurposes db model).1 = true then some true
      else match request.userLogin with
        | none => some false
        | some userLogin =>
          let withRoles := (request.check db model).checkRoles userLogin request.roleList
            (request.found db) (request.withPurposes db model).2
          if withRoles.1 then some true
          else if model.hasOwnerField then
            (request.check db model).checkOwners depth userLogin.partyId withRoles.2
              (request.found db)
          else some false := rfl
  rw [hunfold, direct_iff]
  by_cases hfirst : (request.check db model).checkPassed request.roleList request.purposeList
      (request.found db) = true
  · rw [if_pos hfirst]
    exact iff_of_true rfl (.inl (.inl hfirst))
  rw [if_neg hfirst]
  by_cases hsecond : (request.withPurposes db model).1 = true
  · rw [if_pos hsecond]
    exact iff_of_true rfl (.inl (.inr hsecond))
  rw [if_neg hsecond, or_iff_right (not_or.mpr ⟨hfirst, hsecond⟩)]
  have hfalse := Bool.eq_false_iff.mpr hsecond
  cases huser : request.userLogin with
  | none => simp [Borrowed, BorrowedByOwner, huser]
  | some userLogin =>
    have hborrowed := checkRoles_iff_borrowed huser hfalse
    dsimp only
    split_ifs with hroles howner
    · exact iff_of_true rfl (.inl (hborrowed.mp hroles))
    · rw [or_iff_right (mt hborrowed.mpr hroles)]
      have hkept := kept_checkRoles (kept_withPurposes hfalse) (fun _ => id)
        (Bool.eq_false_iff.mpr hroles)
      exact checkOwners_iff_borrowedByOwner huser howner hkept
    · rw [or_iff_right (mt hborrowed.mpr hroles)]
      simp [BorrowedByOwner, howner]

/-- **What is granted**: to a user as such, and by the passes or a part of a name where every
operation can be read. -/
theorem granted_iff :
    request.checkPermissionMethod db model depth = some true ↔ request.IsUser ∨
      ((request.userLogin = none ∨ ¬ request.Malformed) ∧
        (request.Contains db ∨ request.Direct db model ∨ request.Borrowed db model ∨
          request.BorrowedByOwner db model depth)) := by
  rw [checkPermissionMethod]
  cases huser : request.userLogin with
  | none =>
    have hnot : ¬ request.Contains db := by simp [Contains, huser]
    simp only [checkEntities_eq_true, IsUser, huser, hnot]
    simp
  | some userLogin =>
    have hcontains : request.Contains db ↔ ∃ party, userLogin.partyId = some party ∧ party ≠ [] ∧
        ∃ roleTypeId ∈ db.partyRoles party, ∃ roleOp ∈ request.targetOperationList, ∃ role,
          roleOfOperation roleOp = some (some role) ∧ (find role roleTypeId).isSome = true := by
      simp [Contains, huser]
    by_cases hisUser : userLogin.partyId.isSome = true ∧ hasUserRole ∈ request.targetOperationList
    · have hgranted : request.IsUser := ⟨userLogin, huser, hisUser⟩
      dsimp only
      rw [checkHasRoleOperations_isUser hisUser.1 hisUser.2]
      exact iff_of_true rfl (.inl hgranted)
    · have hno : ¬ request.IsUser := by
        rintro ⟨userLogin', huser', hboth⟩
        obtain rfl : userLogin = userLogin' := Option.some.inj (huser.symm.trans huser')
        exact hisUser hboth
      have hnone : checkHasRoleOperations db userLogin.partyId request.targetOperationList = none ↔
          request.Malformed := checkHasRoleOperations_eq_none hisUser
      have htrue : checkHasRoleOperations db userLogin.partyId request.targetOperationList =
          some true ↔ ¬ request.Malformed ∧ _ := checkHasRoleOperations_eq_true hisUser
      rw [or_iff_right hno, hcontains]
      dsimp only
      cases hops : checkHasRoleOperations db userLogin.partyId request.targetOperationList with
      | none =>
        have hmalformed : request.Malformed := hnone.mp hops
        simp [hmalformed]
      | some granted =>
        have hread : ¬ request.Malformed := fun h => by simp [hnone.mpr h] at hops
        rw [hops] at htrue
        cases granted with
        | true => exact iff_of_true rfl ⟨.inr hread, .inl (htrue.mp rfl).2⟩
        | false =>
          have hnot : ¬ request.Contains db := fun h =>
            Bool.false_ne_true (Option.some.inj (htrue.mpr ⟨hread, hcontains.mp h⟩))
          rw [or_iff_right (mt hcontains.mpr hnot)]
          simpa [hread] using checkEntities_eq_true

theorem Direct.authorized (h : request.Direct db model) : request.Authorized db model := by
  obtain ⟨entity, hmem, hmatch⟩ := h
  exact .inr ⟨entity, hmem, hmatch.imp (fun _ _ => id) fun _ => Or.inl⟩

theorem IsUser.authorized (h : request.IsUser) : request.Authorized db model := by
  obtain ⟨userLogin, huser, hparty, hmem⟩ := h
  obtain ⟨partyId, hpartyId⟩ := Option.isSome_iff_exists.mp hparty
  exact .inl ⟨userLogin, ['U', 'S', 'E', 'R'], huser, hmem, partyId, hpartyId, .inl rfl⟩

theorem ne_none_of_user (h : request.Contains db ∨ request.Borrowed db model ∨
    request.BorrowedByOwner db model depth) : request.userLogin ≠ none := by
  obtain ⟨userLogin, -, huser, -⟩ | ⟨userLogin, -, -, -, huser, -⟩ |
    ⟨-, userLogin, -, -, -, huser, -⟩ := h
  all_goals
    rw [huser]
    exact Option.some_ne_none userLogin

end Request

/-! ### The role on one entity, the operation on another -/

section Example

/-- Two contents in a draft and in a published state; the user is the editor of the draft. -/
def draftAndPublished : Database where
  operations := [⟨['E', 'D'], ['E'], notApplicable, ['P']⟩]
  entities id :=
    if id = ['1'] then some ⟨['1'], some ['D'], none, none⟩
    else if id = ['2'] then some ⟨['2'], some ['P'], none, none⟩
    else none
  relatedPurposes _ := []
  relatedRoles := [⟨['1'], ['E'], ['U']⟩]
  contentRoles := []
  contentOwner _ := none
  partyTypeId _ := none
  partyRelationships := []
  partyRoles _ := []

def contentModel : EntityModel where
  hasStatusField := true
  hasOwnerField := true
  hasPurposeOp := true
  hasStatusOp := true

def editBoth : Request where
  userLogin := some ⟨['u'], some ['U']⟩
  targetOperationList := [['E', 'D']]
  entityIdList := [.id ['1'], .id ['2']]
  purposeList := none
  roleList := none

end Example

end OfficeAuto.Permission
