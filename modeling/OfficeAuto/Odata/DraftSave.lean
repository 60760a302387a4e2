import OfficeAuto.Logic.Result
import OfficeAuto.Odata.DraftClear
import Mathlib.Tactic.IntervalCases

/-!
# Saving a draft

`stickySessionSaveAction` verifies the drafts of a session, saves the main draft and two levels
of drafts below it, and clears the session. Verification walks down from the main draft
(`verifyProperty`): a draft that is not marked as deleted is checked, and then the drafts below
it, as long as the level is at most two. The level is counted up within the loop over the
drafts below, so that it depends on the position of a draft among its siblings.

A draft within the verified levels is `Within`; the walk comes to those that are `Reached`.
They are the same if every draft whose positions sum up to more than two has no drafts to
check below it (`Balanced`). Persisting visits the drafts of the first two levels once each,
except those below a draft that `saveNewFkEntity` has saved and removed before.

What the metadata and the database answer during a save are the fields of `SaveContext`.
-/

namespace OfficeAuto.Odata

open Forest

/-! ### The answers of the metadata and the database -/

/-- A property of an entity type, as far as it is verified. -/
structure CsdlProperty where
  name : Name
  ofbizFieldName : Name
  label : Name
  isRequired : Bool
  isOnly : Bool
  deriving DecidableEq, Repr

/-- Why a save fails. -/
inductive SaveError
  | draftMissing
  | required (property : Name)
  | only (property : Name)
  | key (e : KeyError)
  | nullEntityName
  | nullPointer
  | service (message : List Char)
  deriving DecidableEq, Repr

abbrev StoredEntity := Finmap fun _ : Name => Value

/-- What a save asks for: the properties of an entity type, the fields behind them, the entities
with a value in a field; the outcome of saving the main draft (whether an entity is left), and
of creating an entity ahead of it; of a draft below it, whether its entity is stored, with the
same key and the same values, the outcome of the services, and whether the entity is found
afterwards. -/
structure SaveContext where
  properties : Name → List CsdlProperty
  entityTypes : Name → EntityTypes
  findByField : Name → Name → List Char → List StoredEntity
  persistMain : DraftUUID → Except SaveError Bool
  createNewFkEntity : DraftUUID → Except SaveError Unit
  isStored : DraftUUID → Except SaveError Bool
  hasSamePk : DraftUUID → Bool
  isChanged : DraftUUID → Bool
  deleteRelatedEntity : DraftUUID → Except SaveError Unit
  createRelatedEntity : DraftUUID → Except SaveError Unit
  updateEntity : DraftUUID → Except SaveError Unit
  isFound : DraftUUID → Bool

variable (ctx : SaveContext) (s : DraftStore)

/-! ### Verification -/

def DraftRow.getString (row : DraftRow) (name : Name) : List Char :=
  (row.fields.lookup name).getD []

def StoredEntity.containsAll (stored : StoredEntity) (draftKey : DraftKey) : Bool :=
  draftKey.all fun name value => value.isSome && stored.lookup name == value

def readDraftKey (draftAdmin : DraftAdmin) : Except SaveError (Option DraftKey) :=
  match draftAdmin.entityKeyMap with
  | none => .ok none
  | some str => (stringToKeyMap (ctx.entityTypes draftAdmin.entityType) ',' '=' true str).mapError
      SaveError.key

def verifyOnly (draftAdmin : DraftAdmin) (property : CsdlProperty) (value : List Char) :
    Except SaveError Unit := do
  let draftKey ← readDraftKey ctx draftAdmin
  match ctx.findByField draftAdmin.originEntityName property.ofbizFieldName value with
  | [] => pure ()
  | firstGV :: others =>
    match draftKey with
    | none => throw (.only property.label)
    | some draftKey =>
      if draftKey = ∅ ∨ others ≠ [] ∨ !firstGV.containsAll draftKey then
        throw (.only property.label)
      else pure ()

def verifyValue (draftAdmin : DraftAdmin) (draftData : DraftRow) (property : CsdlProperty) :
    Except SaveError Unit := do
  let value := draftData.getString property.name
  if property.isRequired ∧ value = [] then throw (.required property.label)
  if property.isOnly ∧ value ≠ [] then verifyOnly ctx draftAdmin property value

mutual

/-- **`verifyProperty`**, with the drafts that were checked. -/
def verifyProperty (sapContextId : DraftUUID) (level : ℕ) :
    Except SaveError (List DraftUUID) :=
  match s.findAdmin sapContextId with
  | none => .error .draftMissing
  | some draftAdmin =>
    match draftAdmin.draftEntityName with
    | none => .error .nullEntityName
    | some table =>
      match s.findRow table sapContextId with
      | none => .ok []
      | some draftData =>
        if draftData.isDelete then .ok []
        else do
          (ctx.properties draftAdmin.entityType).forM (verifyValue ctx draftAdmin draftData)
          let below ← (if _h : level ≤ 2 then verifyNavigations level (s.children sapContextId)
            else .ok [])
          .ok (sapContextId :: below)
  termination_by if level ≤ 2 then (3 - level, 1, 0) else (0, 0, 0)
  decreasing_by
    rw [if_pos _h]
    exact Prod.Lex.right _ (Prod.Lex.left _ _ Nat.zero_lt_one)

def verifyNavigations (level : ℕ) :
    List DraftAdmin → Except SaveError (List DraftUUID)
  | [] => .ok []
  | navDraft :: navDraftAdminList => do
    let checked ← verifyProperty navDraft.draftUUID (level + 1)
    let others ← verifyNavigations (level + 1) navDraftAdminList
    .ok (checked ++ others)
  termination_by navDraftAdminList => (3 - level, 0, navDraftAdminList.length + 1)
  decreasing_by
    · split_ifs with hlevel
      · exact Prod.Lex.left _ _ (by omega)
      · rcases Nat.eq_zero_or_pos (3 - level) with hzero | hpos
        · rw [hzero]
          exact Prod.Lex.right _ (Prod.Lex.right _ (Nat.succ_pos _))
        · exact Prod.Lex.left _ _ hpos
    · rcases Nat.eq_zero_or_pos (3 - level) with hzero | hpos
      · rw [hzero, show 3 - (level + 1) = 0 by omega]
        exact Prod.Lex.right _ (Prod.Lex.right _ (Nat.lt_succ_self _))
      · exact Prod.Lex.left _ _ (by omega)

end

/-! ### Persisting -/

/-- The drafts of the navigation properties of an entity type below a draft, with their types:
what the two loops of `persistentTwoLevelNavEntity` go over. -/
def DraftStore.navDrafts (provider : EdmProvider) (type : CsdlEntityType) (draftUUID : DraftUUID) :
    List (CsdlEntityType × DraftAdmin) :=
  type.navigationProperties.flatMap fun nav =>
    (s.admins.filter fun a => a.parentDraftUUID = some draftUUID ∧
      a.draftEntityName = (provider.getEntityType nav.typeFQN).draftEntityName ∧
      a.navigationProperty = some nav.name).map fun a => (provider.getEntityType nav.typeFQN, a)

def persistentNavEntity (navDraftAdminData : DraftAdmin) : Except SaveError Bool :=
  let draftUUID := navDraftAdminData.draftUUID
  match navDraftAdminData.draftEntityName with
  | none => .error .nullEntityName
  | some table =>
    match s.findRow table draftUUID with
    | none => .error .nullPointer
    | some draftGenericValue => do
      let isStored ← ctx.isStored draftUUID
      if draftGenericValue.isDelete then
        if isStored then ctx.deleteRelatedEntity draftUUID
        .ok isStored
      else
        if !isStored then ctx.createRelatedEntity draftUUID
        else if !ctx.hasSamePk draftUUID then
          ctx.deleteRelatedEntity draftUUID
          ctx.createRelatedEntity draftUUID
        else if ctx.isChanged draftUUID then ctx.updateEntity draftUUID
        .ok (ctx.isFound draftUUID)

/-- One level of `persistentTwoLevelNavEntity`, with the drafts that were persisted and whether an
entity was left. -/
def persistNavigations (provider : EdmProvider)
    (persistBelow : CsdlEntityType → DraftUUID → Except SaveError (List (DraftUUID × Bool)))
    (type : CsdlEntityType) (draftUUID : DraftUUID) :
    Except SaveError (List (DraftUUID × Bool)) := do
  let persisted ← (s.navDrafts provider type draftUUID).mapM fun nav => do
    let hasEntity ← persistentNavEntity ctx s nav.2
    let below ← (if hasEntity then persistBelow nav.1 nav.2.draftUUID else .ok [])
    .ok ((nav.2.draftUUID, hasEntity) :: below)
  .ok persisted.flatten

/-- **`persistentTwoLevelNavEntity`.** -/
def persistentTwoLevelNavEntity (provider : EdmProvider) :
    CsdlEntityType → DraftUUID → Except SaveError (List (DraftUUID × Bool)) :=
  persistNavigations ctx s provider (persistNavigations ctx s provider fun _ _ => .ok [])

/-- The first draft of a navigation property that is saved ahead of the main draft: the main
draft refers to an entity that is not there. -/
def DraftStore.newFkDraft (provider : EdmProvider) (foreignKeyMissing : NavigationProperty → Bool)
    (sapContextId : DraftUUID) (nav : NavigationProperty) : Option DraftAdmin :=
  if nav.preCreate ∧ foreignKeyMissing nav then
    s.admins.find? fun a => a.parentDraftUUID = some sapContextId ∧
      a.draftEntityName = (provider.getEntityType nav.typeFQN).draftEntityName ∧
      a.navigationProperty = some nav.name
  else none

/-- The row of the main draft, which `saveNewFkEntity` reads for a property that is created
ahead. -/
def DraftStore.readsMain (type : CsdlEntityType) (sapContextId : DraftUUID)
    (nav : NavigationProperty) : Except SaveError Unit :=
  if nav.preCreate then
    match type.draftEntityName with
    | none => .error .nullEntityName
    | some table => if (s.findRow table sapContextId).isSome then .ok () else .error .nullPointer
  else .ok ()

/-- `saveNewFkEntity` over navigation properties of the type: the store without the drafts that
were saved, and these. -/
def saveNewFkEntity (provider : EdmProvider) (foreignKeyMissing : NavigationProperty → Bool)
    (type : CsdlEntityType) (sapContextId : DraftUUID) :
    List NavigationProperty → DraftStore → Except SaveError (DraftStore × List (DraftUUID × Bool))
  | [], s => .ok (s, [])
  | nav :: navs, s => do
    s.readsMain type sapContextId nav
    match s.newFkDraft provider foreignKeyMissing sapContextId nav with
    | none => saveNewFkEntity provider foreignKeyMissing type sapContextId navs s
    | some navDraftAdmin =>
      match navDraftAdmin.draftEntityName with
      | none => .error .nullEntityName
      | some table =>
        if (s.findRow table navDraftAdmin.draftUUID).isNone then .error .nullPointer
        else do
          ctx.createNewFkEntity navDraftAdmin.draftUUID
          let (s', saved) ← saveNewFkEntity provider foreignKeyMissing type sapContextId navs
            (s.removeNewFkDraft navDraftAdmin.draftUUID)
          .ok (s', (navDraftAdmin.draftUUID, true) :: saved)

/-- What a save did: the drafts that it verified, the drafts below the main draft that it
persisted, and the store that it left. -/
structure SaveResult where
  verified : List DraftUUID
  persisted : List (DraftUUID × Bool)
  store : DraftStore

/-- **`stickySessionSaveAction`.** Without an entity for the main draft it fails as soon as it
uses it. -/
def stickySessionSaveAction (provider : EdmProvider)
    (foreignKeyMissing : NavigationProperty → Bool) (type : CsdlEntityType)
    (sapContextId : DraftUUID) : Except SaveError SaveResult := do
  let verified ← verifyProperty ctx s sapContextId 0
  let (s', saved) ← saveNewFkEntity ctx provider foreignKeyMissing type sapContextId
    type.navigationProperties s
  let hasEntity ← ctx.persistMain sapContextId
  if !hasEntity then throw .nullPointer
  let persisted ← persistentTwoLevelNavEntity ctx s' provider type sapContextId
  .ok ⟨verified, saved ++ persisted, s'.clearEntityDraft sapContextId⟩

/-! ### What a save is to do -/

variable {ctx s}

def DraftStore.Live (s : DraftStore) (d : DraftUUID) : Prop :=
  ∃ a table row, s.findAdmin d = some a ∧ a.draftEntityName = some table ∧
    s.findRow table d = some row ∧ row.isDelete = false

/-- The drafts below a main draft, through drafts that are not deleted and as long as a limit
allows, with their depth and the sum of the positions among their siblings. -/
inductive Reach (s : DraftStore) (m : DraftUUID) (limit : ℕ → ℕ → Prop) :
    ℕ → ℕ → DraftUUID → Prop
  | main : Reach s m limit 0 0 m
  | child {k level i : ℕ} {d : DraftUUID} {c : DraftAdmin} (h : Reach s m limit k level d)
    (hlimit : limit k level) (hlive : s.Live d) (hchild : (s.children d)[i]? = some c) :
    Reach s m limit (k + 1) (level + i + 1) c.draftUUID

/-- The drafts within the verified levels: through drafts at depth two at most. -/
def Within (s : DraftStore) (m d : DraftUUID) : Prop :=
  s.Live d ∧ ∃ k level, Reach s m (fun k _ => k ≤ 2) k level d

/-- **What a save is to do**: every draft within the verified levels is verified, every draft of
the first level is persisted once, and so is every draft of the second level below one that left
an entity. -/
structure SavesAll (provider : EdmProvider) (s : DraftStore) (type : CsdlEntityType)
    (m : DraftUUID) (r : SaveResult) : Prop where
  verified : ∀ d, Within s m d → d ∈ r.verified
  first : ∀ nav ∈ s.navDrafts provider type m,
    (r.persisted.map Prod.fst).count nav.2.draftUUID = 1
  second : ∀ nav ∈ s.navDrafts provider type m, (nav.2.draftUUID, true) ∈ r.persisted →
    ∀ nav' ∈ s.navDrafts provider nav.1 nav.2.draftUUID,
      (r.persisted.map Prod.fst).count nav'.2.draftUUID = 1

/-- A draft at depth two at most whose positions sum up to more than two has no draft to check
below it. -/
def Balanced (s : DraftStore) (m : DraftUUID) : Prop :=
  ∀ k level d, Reach s m (fun k _ => k ≤ 2) k level d → k ≤ 2 → 2 < level → s.Live d →
    ∀ c ∈ s.children d, ¬ s.Live c.draftUUID

/-- A draft that is saved ahead of the main draft has no drafts below it. -/
def NewFkAlone (provider : EdmProvider) (foreignKeyMissing : NavigationProperty → Bool)
    (s : DraftStore) (type : CsdlEntityType) (m : DraftUUID) : Prop :=
  ∀ nav ∈ type.navigationProperties, ∀ a,
    s.newFkDraft provider foreignKeyMissing m nav = some a →
      s.navDrafts provider (provider.getEntityType nav.typeFQN) a.draftUUID = []

/-- What every save reads is there: the drafts that the verification comes to and the drafts of
the first level name a table, and the row of the main draft is there if a property is created
ahead. -/
structure Readable (provider : EdmProvider) (s : DraftStore) (type : CsdlEntityType)
    (m : DraftUUID) : Prop where
  verified : ∀ k level d, Reach s m (fun _ level => level ≤ 2) k level d →
    ∀ a, s.findAdmin d = some a → a.draftEntityName ≠ none
  first : ∀ nav ∈ s.navDrafts provider type m, nav.2.draftEntityName ≠ none
  main : ∀ nav ∈ type.navigationProperties, s.readsMain type m nav = .ok ()

/-! ### The walk of the verification -/

variable {d m x : DraftUUID} {k level : ℕ} {limit : ℕ → ℕ → Prop}

theorem verifyProperty_of_not_live {checked : List DraftUUID} (hnot : ¬ s.Live d)
    (h : verifyProperty ctx s d level = .ok checked) : checked = [] := by
  rw [verifyProperty] at h
  split at h
  · cases h
  · next a ha =>
    split at h
    · cases h
    · next table htable =>
      split at h
      · cases h
        rfl
      · next row hrow =>
        cases hdelete : row.isDelete with
        | true =>
          rw [if_pos hdelete] at h
          cases h
          rfl
        | false => exact absurd ⟨a, table, row, ha, htable, hrow, hdelete⟩ hnot

theorem verifyProperty_of_live {checked : List DraftUUID} (hlive : s.Live d)
    (h : verifyProperty ctx s d level = .ok checked) :
    ∃ below, checked = d :: below ∧
      (if level ≤ 2 then verifyNavigations ctx s level (s.children d) else .ok []) = .ok below := by
  obtain ⟨a, table, row, ha, htable, hrow, hdelete⟩ := hlive
  rw [verifyProperty, ha] at h
  simp only [htable, hrow, hdelete, Bool.false_eq_true, if_false, dite_eq_ite] at h
  obtain ⟨-, -, h⟩ := Except.bind_eq_ok.mp h
  obtain ⟨below, hbelow, h⟩ := Except.bind_eq_ok.mp h
  exact ⟨below, (Except.ok.inj h).symm, hbelow⟩

/-- **The step of the loop**: the draft at position `i` is verified at a level that is higher by
its position. -/
theorem verifyNavigations_ok {drafts : List DraftAdmin} {checked : List DraftUUID}
    (h : verifyNavigations ctx s level drafts = .ok checked) :
    (∀ i c, drafts[i]? = some c → ∃ t, verifyProperty ctx s c.draftUUID (level + i + 1) = .ok t ∧
      t ⊆ checked) ∧
    ∀ x ∈ checked, ∃ i c t, drafts[i]? = some c ∧
      verifyProperty ctx s c.draftUUID (level + i + 1) = .ok t ∧ x ∈ t := by
  induction drafts generalizing level checked with
  | nil =>
    rw [verifyNavigations] at h
    cases h
    exact ⟨fun i c hc => absurd (List.mem_of_getElem? hc) List.not_mem_nil,
      fun x hx => absurd hx List.not_mem_nil⟩
  | cons c cs ih =>
    rw [verifyNavigations] at h
    obtain ⟨t, ht, h⟩ := Except.bind_eq_ok.mp h
    obtain ⟨others, hothers, h⟩ := Except.bind_eq_ok.mp h
    obtain rfl := Except.ok.inj h
    obtain ⟨hall, honly⟩ := ih hothers
    constructor
    · intro i c' hc'
      cases i with
      | zero =>
        obtain rfl := Option.some.inj hc'
        exact ⟨t, ht, List.subset_append_left _ _⟩
      | succ i =>
        obtain ⟨t', ht', hsub⟩ := hall i c' hc'
        refine ⟨t', ?_, fun y hy => List.mem_append_right _ (hsub hy)⟩
        rwa [show level + (i + 1) + 1 = level + 1 + i + 1 by omega]
    · intro x hx
      rcases List.mem_append.mp hx with hx | hx
      · exact ⟨0, c, t, rfl, ht, hx⟩
      · obtain ⟨i, c', t', hc', ht', hx⟩ := honly x hx
        refine ⟨i + 1, c', t', hc', ?_, hx⟩
        rwa [show level + (i + 1) + 1 = level + 1 + i + 1 by omega]

theorem verifyProperty_of_reach {checked : List DraftUUID}
    (h : verifyProperty ctx s m 0 = .ok checked)
    (hreach : Reach s m (fun _ level => level ≤ 2) k level x) :
    ∃ t, verifyProperty ctx s x level = .ok t ∧ t ⊆ checked := by
  induction hreach with
  | main => exact ⟨checked, h, fun _ hy => hy⟩
  | child _ hlimit hlive hchild ih =>
    obtain ⟨t, ht, hsub⟩ := ih
    obtain ⟨below, rfl, hbelow⟩ := verifyProperty_of_live hlive ht
    rw [if_pos hlimit] at hbelow
    obtain ⟨t', ht', hsub'⟩ := (verifyNavigations_ok hbelow).1 _ _ hchild
    exact ⟨t', ht', fun y hy => hsub (List.mem_cons_of_mem _ (hsub' hy))⟩

theorem reach_of_mem_verified {k level : ℕ} {d : DraftUUID} {checked : List DraftUUID}
    (hreach : Reach s m (fun _ level => level ≤ 2) k level d)
    (h : verifyProperty ctx s d level = .ok checked) (hx : x ∈ checked) :
    s.Live x ∧ ∃ k level, Reach s m (fun _ level => level ≤ 2) k level x := by
  by_cases hlive : s.Live d
  · obtain ⟨below, rfl, hbelow⟩ := verifyProperty_of_live hlive h
    rcases List.mem_cons.mp hx with rfl | hx
    · exact ⟨hlive, k, level, hreach⟩
    · split_ifs at hbelow with hlevel
      · obtain ⟨i, c, t, hc, ht, hxt⟩ := (verifyNavigations_ok hbelow).2 x hx
        have hchild := Reach.child hreach hlevel hlive hc
        have hless : 3 - (level + i + 1) < 3 - level := by omega
        exact reach_of_mem_verified hchild ht hxt
      · cases hbelow
        exact absurd hx List.not_mem_nil
  · rw [verifyProperty_of_not_live hlive h] at hx
    exact absurd hx List.not_mem_nil
  termination_by 3 - level

/-- **What a verification checks**: the live drafts that it comes to. -/
theorem mem_verified_iff {checked : List DraftUUID}
    (h : verifyProperty ctx s m 0 = .ok checked) :
    x ∈ checked ↔ s.Live x ∧ ∃ k level, Reach s m (fun _ level => level ≤ 2) k level x := by
  constructor
  · exact fun hx => reach_of_mem_verified Reach.main h hx
  · rintro ⟨hlive, k, level, hreach⟩
    obtain ⟨t, ht, hsub⟩ := verifyProperty_of_reach h hreach
    obtain ⟨below, rfl, -⟩ := verifyProperty_of_live hlive ht
    exact hsub List.mem_cons_self

/-! ### Positions and depths -/

theorem DraftStore.DraftInv.parentOf_child (hinv : DraftStore.DraftInv s) {c : DraftAdmin}
    {i : ℕ} (hc : (s.children d)[i]? = some c) : s.parentOf c.draftUUID = some d := by
  obtain ⟨hmem, hparent⟩ := List.mem_filter.mp (List.mem_of_getElem? hc)
  rw [hinv.parentOf_of_mem hmem]
  exact of_decide_eq_true hparent

/-- **A draft is reached in one way only.** -/
theorem Reach.unique (hinv : DraftStore.DraftInv s) (hmain : s.IsMain m)
    {limit' : ℕ → ℕ → Prop} {k' level' : ℕ} (h : Reach s m limit k level x)
    (h' : Reach s m limit' k' level' x) : level = level' := by
  induction h generalizing k' level' with
  | main =>
    generalize hm : m = y at h'
    cases h' with
    | main => rfl
    | child _ _ _ hchild =>
      have hparent := hinv.parentOf_child hchild
      rw [← hm, hmain.parentOf] at hparent
      cases hparent
  | @child k level i d c h _ _ hchild ih =>
    generalize hy : c.draftUUID = y at h'
    cases h' with
    | main =>
      have hparent := hinv.parentOf_child hchild
      rw [hy, hmain.parentOf] at hparent
      cases hparent
    | @child k' level' i' d' c' h' _ _ hchild' =>
      have hparent := hinv.parentOf_child hchild
      rw [hy, hinv.parentOf_child hchild'] at hparent
      obtain rfl := Option.some.inj hparent
      have hsame : c = c' := List.inj_on_of_nodup_map hinv.nodup
        (List.mem_filter.mp (List.mem_of_getElem? hchild)).1
        (List.mem_filter.mp (List.mem_of_getElem? hchild')).1 hy
      subst hsame
      have hnodup : (s.children d').Nodup :=
        (List.Nodup.of_map _ hinv.nodup).filter _
      have hindex : i = i' :=
        (List.getElem?_inj (List.getElem?_eq_some_iff.mp hchild).1 hnodup).mp
          (hchild.trans hchild'.symm)
      rw [ih h', hindex]

/-- **The walk comes to all live drafts within the verified levels exactly if the siblings are
balanced.** -/
theorem within_iff_balanced (hinv : DraftStore.DraftInv s) (hmain : s.IsMain m) :
    (∀ x, Within s m x → ∃ k level, Reach s m (fun _ level => level ≤ 2) k level x) ↔
      Balanced s m := by
  constructor
  · intro hall k level d hreach hk hlevel hlive c hc hclive
    obtain ⟨i, hi⟩ := List.getElem?_of_mem hc
    have hchild := Reach.child hreach hk hlive hi
    obtain ⟨k', level', hreach'⟩ := hall _ ⟨hclive, _, _, hchild⟩
    generalize hy : c.draftUUID = y at hreach'
    have hparent := hinv.parentOf_child hi
    cases hreach' with
    | main =>
      rw [hy, hmain.parentOf] at hparent
      cases hparent
    | @child k' level' i' d' c' h' hlimit _ hchild' =>
      -- the parent of the draft is reached at one level only, which is above two
      rw [hy, hinv.parentOf_child hchild'] at hparent
      obtain rfl := Option.some.inj hparent
      rw [hreach.unique hinv hmain h'] at hlevel
      exact absurd hlimit (Nat.not_le.mpr hlevel)
  · rintro hbalanced x ⟨hxlive, k, level, hreach⟩
    induction hreach with
    | main => exact ⟨0, 0, Reach.main⟩
    | @child k level i d c h hk hlive hchild ih =>
      obtain ⟨k', level', hd⟩ := ih hlive
      have hsame : level' = level := hd.unique hinv hmain h
      rcases Nat.lt_or_ge 2 level with hlevel | hlevel
      · have hnot := hbalanced k level d h hk hlevel hlive c (List.mem_of_getElem? hchild)
        exact absurd hxlive hnot
      · exact ⟨_, _, Reach.child hd (hsame ▸ hlevel) hlive hchild⟩

/-! ### The drafts below a draft -/

variable {provider : EdmProvider} {type : CsdlEntityType} {nav nav' : CsdlEntityType × DraftAdmin}

theorem mem_navDrafts : nav ∈ s.navDrafts provider type d ↔
    ∃ p ∈ type.navigationProperties, nav.1 = provider.getEntityType p.typeFQN ∧
      nav.2 ∈ s.admins ∧ nav.2.parentDraftUUID = some d ∧
      nav.2.draftEntityName = (provider.getEntityType p.typeFQN).draftEntityName ∧
      nav.2.navigationProperty = some p.name := by
  simp only [DraftStore.navDrafts, List.mem_flatMap, List.mem_map, List.mem_filter,
    decide_eq_true_eq]
  constructor
  · rintro ⟨p, hp, a, ⟨ha, hparent, htable, hname⟩, rfl⟩
    exact ⟨p, hp, rfl, ha, hparent, htable, hname⟩
  · rintro ⟨p, hp, htype, ha, hparent, htable, hname⟩
    exact ⟨p, hp, nav.2, ⟨ha, hparent, htable, hname⟩, Prod.ext htype.symm rfl⟩

theorem DraftStore.DraftInv.parentOf_navDraft (hinv : DraftStore.DraftInv s)
    (h : nav ∈ s.navDrafts provider type d) :
    nav.2 ∈ s.admins ∧ s.parentOf nav.2.draftUUID = some d := by
  obtain ⟨p, -, -, ha, hparent, -⟩ := mem_navDrafts.mp h
  exact ⟨ha, (hinv.parentOf_of_mem ha).trans hparent⟩

theorem DraftStore.DraftInv.nodup_navDrafts (hinv : DraftStore.DraftInv s) :
    ((s.navDrafts provider type d).map fun nav => nav.2.draftUUID).Nodup := by
  rw [DraftStore.navDrafts, List.map_flatMap, List.nodup_flatMap]
  constructor
  · intro p _
    rw [List.map_map]
    exact hinv.nodup.sublist (List.filter_sublist.map _)
  · refine (List.pairwise_map.mp type.nodup).imp fun {p p'} hne => ?_
    -- records of two navigation properties differ in the property that they name
    rw [Function.onFun, List.map_map, List.map_map, List.disjoint_left]
    rintro u hu hu'
    obtain ⟨a, ha, rfl⟩ := List.mem_map.mp hu
    obtain ⟨a', ha', hid⟩ := List.mem_map.mp hu'
    obtain ⟨ha, hkey⟩ := List.mem_filter.mp ha
    obtain ⟨ha', hkey'⟩ := List.mem_filter.mp ha'
    obtain rfl : a' = a := List.inj_on_of_nodup_map hinv.nodup ha' ha hid
    have hname := (of_decide_eq_true hkey).2.2.symm.trans (of_decide_eq_true hkey').2.2
    exact hne (Option.some.inj hname)

theorem DraftStore.DraftInv.navDraft_ne (hinv : DraftStore.DraftInv s) (hmain : s.IsMain m)
    (h : nav ∈ s.navDrafts provider type d) : nav.2.draftUUID ≠ m := by
  intro heq
  have hparent := (hinv.parentOf_navDraft h).2
  rw [heq, hmain.parentOf] at hparent
  cases hparent

/-- The keys of the drafts of the first two levels, each with those below it. -/
def twoLevels (provider : EdmProvider) (s : DraftStore) (type : CsdlEntityType) (m : DraftUUID) :
    List DraftUUID :=
  (s.navDrafts provider type m).flatMap fun nav =>
    nav.2.draftUUID :: (s.navDrafts provider nav.1 nav.2.draftUUID).map fun nav =>
      nav.2.draftUUID

/-- **No draft is twice among those of the first two levels.** -/
theorem DraftStore.DraftInv.nodup_twoLevels (hinv : DraftStore.DraftInv s) (hmain : s.IsMain m) :
    (twoLevels provider s type m).Nodup := by
  have hbelow : ∀ nav ∈ s.navDrafts provider type m, ∀ u ∈ nav.2.draftUUID ::
      (s.navDrafts provider nav.1 nav.2.draftUUID).map (fun nav => nav.2.draftUUID),
      u = nav.2.draftUUID ∧ s.parentOf u = some m ∨
        s.parentOf u = some nav.2.draftUUID ∧ nav.2.draftUUID ≠ m := by
    intro nav hnav u hu
    obtain ⟨-, hparent⟩ := hinv.parentOf_navDraft hnav
    have hne : nav.2.draftUUID ≠ m := hinv.navDraft_ne hmain hnav
    rcases List.mem_cons.mp hu with rfl | hu
    · exact Or.inl ⟨rfl, hparent⟩
    · obtain ⟨nav', hnav', rfl⟩ := List.mem_map.mp hu
      exact Or.inr ⟨(hinv.parentOf_navDraft hnav').2, hne⟩
  rw [twoLevels, List.nodup_flatMap]
  constructor
  · intro nav hnav
    refine List.nodup_cons.mpr ⟨fun hu => ?_, hinv.nodup_navDrafts⟩
    obtain ⟨nav', hnav', hid⟩ := List.mem_map.mp hu
    have hparent := (hinv.parentOf_navDraft hnav').2
    rw [hid, (hinv.parentOf_navDraft hnav).2] at hparent
    exact hinv.navDraft_ne hmain hnav (Option.some.inj hparent).symm
  · refine (List.pairwise_map.mp hinv.nodup_navDrafts).imp_of_mem
      fun {nav nav'} hnav hnav' hne => ?_
    rw [Function.onFun, List.disjoint_left]
    intro u hu hu'
    rcases hbelow nav hnav u hu with ⟨rfl, hparent⟩ | ⟨hparent, hnem⟩
    · rcases hbelow nav' hnav' _ hu' with ⟨heq, -⟩ | ⟨hparent', hnem'⟩
      · exact hne heq
      · exact hnem' (Option.some.inj (hparent'.symm.trans hparent))
    · rcases hbelow nav' hnav' u hu' with ⟨-, hparent'⟩ | ⟨hparent', -⟩
      · exact hnem (Option.some.inj (hparent.symm.trans hparent'))
      · exact hne (Option.some.inj (hparent.symm.trans hparent'))

/-! ### The loops of persisting -/

theorem persistNavigations_ok
    {persistBelow : CsdlEntityType → DraftUUID → Except SaveError (List (DraftUUID × Bool))}
    {below : CsdlEntityType × DraftAdmin → List DraftUUID} {log : List (DraftUUID × Bool)}
    (h : persistNavigations ctx s provider persistBelow type d = .ok log)
    (hbelow : ∀ nav rest, persistBelow nav.1 nav.2.draftUUID = .ok rest →
      (rest.map Prod.fst).Sublist (below nav)) :
    (log.map Prod.fst).Sublist ((s.navDrafts provider type d).flatMap fun nav =>
      nav.2.draftUUID :: below nav) ∧
    ∀ nav ∈ s.navDrafts provider type d, ∃ hasEntity,
      persistentNavEntity ctx s nav.2 = .ok hasEntity ∧ (nav.2.draftUUID, hasEntity) ∈ log ∧
      (hasEntity = true → ∃ rest, persistBelow nav.1 nav.2.draftUUID = .ok rest ∧ rest ⊆ log) := by
  rw [persistNavigations] at h
  obtain ⟨persisted, hpersisted, hlog⟩ := Except.bind_eq_ok.mp h
  rw [← Except.ok.inj hlog]
  rw [Except.mapM_eq_ok] at hpersisted
  clear h hlog
  generalize s.navDrafts provider type d = navs at hpersisted ⊢
  induction hpersisted with
  | nil => exact ⟨List.Sublist.slnil, fun nav hnav => absurd hnav List.not_mem_nil⟩
  | @cons nav logs navs persisted hnav _ ih =>
    obtain ⟨hasEntity, hentity, hnav⟩ := Except.bind_eq_ok.mp hnav
    obtain ⟨rest, hrest, hnav⟩ := Except.bind_eq_ok.mp hnav
    obtain rfl := Except.ok.inj hnav
    obtain ⟨hsub, hall⟩ := ih
    constructor
    · rw [List.flatten_cons, List.map_append, List.flatMap_cons]
      refine List.Sublist.append (List.Sublist.cons_cons _ ?_) hsub
      split_ifs at hrest with hyes
      · exact hbelow nav rest hrest
      · cases hrest
        exact List.nil_sublist _
    · intro nav' hnav'
      rw [List.flatten_cons]
      rcases List.mem_cons.mp hnav' with rfl | hnav'
      · refine ⟨hasEntity, hentity, List.mem_append_left _ List.mem_cons_self, fun hyes => ?_⟩
        rw [if_pos hyes] at hrest
        exact ⟨rest, hrest, fun x hx => List.mem_append_left _ (List.mem_cons_of_mem _ hx)⟩
      · obtain ⟨hasEntity', hentity', hmem, hrest'⟩ := hall nav' hnav'
        refine ⟨hasEntity', hentity', List.mem_append_right _ hmem, fun hyes => ?_⟩
        obtain ⟨rest', hrest', hsub'⟩ := hrest' hyes
        exact ⟨rest', hrest', fun x hx => List.mem_append_right _ (hsub' hx)⟩

theorem table_of_persistentNavEntity {a : DraftAdmin} {hasEntity : Bool}
    (h : persistentNavEntity ctx s a = .ok hasEntity) : a.draftEntityName ≠ none := by
  intro hnone
  rw [persistentNavEntity, hnone] at h
  cases h

/-- **What `persistentTwoLevelNavEntity` persists.** -/
theorem persistentTwoLevelNavEntity_ok {log : List (DraftUUID × Bool)}
    (h : persistentTwoLevelNavEntity ctx s provider type m = .ok log) :
    (log.map Prod.fst).Sublist (twoLevels provider s type m) ∧
    ∀ nav ∈ s.navDrafts provider type m, nav.2.draftEntityName ≠ none ∧
      ∃ hasEntity, (nav.2.draftUUID, hasEntity) ∈ log ∧
        (hasEntity = true → ∀ nav' ∈ s.navDrafts provider nav.1 nav.2.draftUUID,
          nav'.2.draftUUID ∈ log.map Prod.fst) := by
  have hlast : ∀ (nav : CsdlEntityType × DraftAdmin) rest,
      persistNavigations ctx s provider (fun _ _ => .ok []) nav.1 nav.2.draftUUID = .ok rest →
      (rest.map Prod.fst).Sublist ((s.navDrafts provider nav.1 nav.2.draftUUID).map
        fun nav => nav.2.draftUUID) ∧
      ∀ nav' ∈ s.navDrafts provider nav.1 nav.2.draftUUID,
        nav'.2.draftUUID ∈ rest.map Prod.fst := by
    intro nav rest hrest
    have hnone : ∀ (nav' : CsdlEntityType × DraftAdmin) (rest' : List (DraftUUID × Bool)),
        Except.ok [] = (Except.ok rest' : Except SaveError _) →
        (rest'.map Prod.fst).Sublist ((fun _ => []) nav') := by
      intro nav' rest' heq
      cases heq
      exact List.Sublist.slnil
    obtain ⟨hsub, hall⟩ := persistNavigations_ok hrest hnone
    constructor
    · rwa [← List.map_eq_flatMap] at hsub
    · intro nav' hnav'
      obtain ⟨hasEntity, -, hmem, -⟩ := hall nav' hnav'
      exact List.mem_map_of_mem hmem
  obtain ⟨hsub, hall⟩ := persistNavigations_ok h fun nav rest hrest => (hlast nav rest hrest).1
  refine ⟨hsub, fun nav hnav => ?_⟩
  obtain ⟨hasEntity, hentity, hmem, hbelow⟩ := hall nav hnav
  refine ⟨table_of_persistentNavEntity hentity, hasEntity, hmem, fun hyes nav' hnav' => ?_⟩
  obtain ⟨rest, hrest, hsub'⟩ := hbelow hyes
  obtain ⟨p, hp, heq⟩ := List.mem_map.mp ((hlast nav rest hrest).2 nav' hnav')
  exact heq ▸ List.mem_map_of_mem (hsub' hp)

/-! ### Drafts that are saved ahead -/

variable {foreignKeyMissing : NavigationProperty → Bool} {p : NavigationProperty}

theorem mem_admins_without {L : List DraftAdmin} {a : DraftAdmin} :
    a ∈ (s.without L).admins ↔ a ∈ s.admins ∧ ∀ b ∈ L, a.draftUUID ≠ b.draftUUID :=
  List.mem_filter.trans (and_congr_right fun _ => decide_eq_true_iff)

theorem mem_navDrafts_without {L : List DraftAdmin} :
    nav ∈ (s.without L).navDrafts provider type d ↔
      nav ∈ s.navDrafts provider type d ∧ ∀ b ∈ L, nav.2.draftUUID ≠ b.draftUUID := by
  rw [mem_navDrafts, mem_navDrafts]
  simp only [mem_admins_without]
  constructor
  · rintro ⟨p, hp, htype, ⟨ha, hout⟩, hkey⟩
    exact ⟨⟨p, hp, htype, ha, hkey⟩, hout⟩
  · rintro ⟨⟨p, hp, htype, ha, hkey⟩, hout⟩
    exact ⟨p, hp, htype, ⟨ha, hout⟩, hkey⟩

theorem newFkDraft_eq_some {a : DraftAdmin}
    (h : s.newFkDraft provider foreignKeyMissing m p = some a) :
    p.preCreate = true ∧ a ∈ s.admins ∧ a.parentDraftUUID = some m ∧
      a.draftEntityName = (provider.getEntityType p.typeFQN).draftEntityName ∧
      a.navigationProperty = some p.name := by
  unfold DraftStore.newFkDraft at h
  split_ifs at h with hcreate
  have hkey := List.find?_some h
  rw [decide_eq_true_eq] at hkey
  exact ⟨hcreate.1, List.mem_of_find?_eq_some h, hkey⟩

theorem newFkDraft_without (hinv : DraftStore.DraftInv s) {a : DraftAdmin} (ha : a ∈ s.admins)
    (hname : a.navigationProperty ≠ some p.name) :
    (s.without [a]).newFkDraft provider foreignKeyMissing m p =
      s.newFkDraft provider foreignKeyMissing m p := by
  unfold DraftStore.newFkDraft
  refine if_congr Iff.rfl ?_ rfl
  rw [← List.head?_filter, ← List.head?_filter, DraftStore.without, List.filter_filter]
  congr 1
  refine List.filter_congr fun b hb => ?_
  rw [Bool.and_eq_left_iff_imp]
  intro hkey
  refine decide_eq_true fun c hc heq => ?_
  obtain rfl : b = a := by
    rw [List.mem_singleton.mp hc] at heq
    exact List.inj_on_of_nodup_map hinv.nodup hb ha heq
  exact hname (of_decide_eq_true hkey).2.2

theorem DraftStore.DraftInv.removeNewFkDraft_eq (hinv : DraftStore.DraftInv s) {a : DraftAdmin}
    {table : Name} (ha : a ∈ s.admins) (htable : a.draftEntityName = some table) :
    s.removeNewFkDraft a.draftUUID = s.without [a] := by
  rw [DraftStore.without_cons htable, DraftStore.without_nil, DraftStore.removeNewFkDraft,
    hinv.findAdmin_of_mem ha]
  simp only [htable]

theorem readsMain_without {a : DraftAdmin} (hne : a.draftUUID ≠ m) :
    (s.without [a]).readsMain type m p = s.readsMain type m p := by
  unfold DraftStore.readsMain
  refine if_congr Iff.rfl ?_ rfl
  cases type.draftEntityName with
  | none => rfl
  | some table =>
    have hrow : (s.without [a]).findRow table m = s.findRow table m := by
      unfold DraftStore.findRow
      rw [← List.head?_filter, ← List.head?_filter, DraftStore.without, List.filter_filter]
      congr 1
      refine List.filter_congr fun r _ => ?_
      rw [Bool.and_eq_left_iff_imp]
      intro hkey
      refine decide_eq_true fun b hb hsame => ?_
      rw [List.mem_singleton.mp hb] at hsame
      exact hne (hsame.2.symm.trans (of_decide_eq_true hkey).2)
    simp only [hrow]

theorem DraftStore.IsMain.without (hinv : DraftStore.DraftInv s) (hmain : s.IsMain m)
    {L : List DraftAdmin} (hL : ∀ b ∈ L, b ∈ s.admins ∧ b.parentDraftUUID = some m) :
    (s.without L).IsMain m ∧ ∀ b ∈ L, b.draftUUID ≠ m := by
  have hne : ∀ b ∈ L, b.draftUUID ≠ m := by
    intro b hb heq
    have hnone := hmain.parentOf
    rw [← heq, hinv.parentOf_of_mem (hL b hb).1, (hL b hb).2] at hnone
    cases hnone
  refine ⟨?_, hne⟩
  obtain ⟨a, hfind, hparent⟩ := hmain
  obtain ⟨ha, rfl⟩ := DraftStore.mem_of_findAdmin hfind
  have hkept : a ∈ (s.without L).admins :=
    mem_admins_without.mpr ⟨ha, fun b hb => (hne b hb).symm⟩
  exact ⟨a, (hinv.without fun b hb => (hL b hb).1).findAdmin_of_mem hkept, hparent⟩

/-- **What `saveNewFkEntity` saves and removes**: the first draft of each property that is
created ahead. -/
theorem saveNewFkEntity_ok (hinv : DraftStore.DraftInv s) (hmain : s.IsMain m)
    {navs : List NavigationProperty} {s' : DraftStore} {saved : List (DraftUUID × Bool)}
    (hnodup : (navs.map NavigationProperty.name).Nodup)
    (h : saveNewFkEntity ctx provider foreignKeyMissing type m navs s = .ok (s', saved)) :
    (∀ p ∈ navs, s.readsMain type m p = .ok ()) ∧
    ∃ taken : List DraftAdmin, s' = s.without taken ∧
      saved = taken.map (fun a => (a.draftUUID, true)) ∧
      (taken.map DraftAdmin.draftUUID).Nodup ∧
      (∀ a ∈ taken, a.draftEntityName ≠ none) ∧
      ∀ a, a ∈ taken ↔ ∃ p ∈ navs, s.newFkDraft provider foreignKeyMissing m p = some a := by
  induction navs generalizing s saved with
  | nil =>
    obtain ⟨rfl, rfl⟩ := Prod.mk.inj (Except.ok.inj h)
    refine ⟨fun p hp => absurd hp List.not_mem_nil, [], DraftStore.without_nil.symm, rfl,
      List.nodup_nil, fun a ha => absurd ha List.not_mem_nil, fun a => ?_⟩
    simp
  | cons p navs ih =>
    rw [List.map_cons, List.nodup_cons] at hnodup
    obtain ⟨hfresh, hnodup⟩ := hnodup
    rw [saveNewFkEntity] at h
    obtain ⟨⟨⟩, hread, h⟩ := Except.bind_eq_ok.mp h
    split at h
    · next hnone =>
      obtain ⟨hreads, taken, hs', hsaved, htaken, htable, hfrom⟩ := ih hinv hmain hnodup h
      refine ⟨List.forall_mem_cons.mpr ⟨hread, hreads⟩, taken, hs', hsaved, htaken, htable,
        fun a => ?_⟩
      rw [hfrom a, List.exists_mem_cons_iff, hnone]
      simp
    · next a hfirst =>
      obtain ⟨-, ha, hparent, -, hname⟩ := newFkDraft_eq_some hfirst
      split at h
      · cases h
      · next table htable =>
        split_ifs at h
        obtain ⟨-, -, h⟩ := Except.bind_eq_ok.mp h
        obtain ⟨⟨s₁, saved'⟩, hrest, h⟩ := Except.bind_eq_ok.mp h
        obtain ⟨rfl, rfl⟩ := Prod.mk.inj (Except.ok.inj h)
        rw [hinv.removeNewFkDraft_eq ha htable] at hrest
        have hbelow : ∀ b ∈ [a], b ∈ s.admins ∧ b.parentDraftUUID = some m :=
          fun b hb => List.mem_singleton.mp hb ▸ ⟨ha, hparent⟩
        obtain ⟨hmain', hne⟩ := hmain.without hinv hbelow
        obtain ⟨hreads, taken, hs', hsaved, htaken, htables, hfrom⟩ :=
          ih (hinv.without fun b hb => (hbelow b hb).1) hmain' hnodup hrest
        -- the other properties have other names, so that their drafts are still there
        have hsame : ∀ p' ∈ navs, (s.without [a]).newFkDraft provider foreignKeyMissing m p' =
            s.newFkDraft provider foreignKeyMissing m p' := by
          intro p' hp'
          refine newFkDraft_without hinv ha ?_
          rw [hname]
          intro heq
          exact hfresh (Option.some.inj heq ▸ List.mem_map_of_mem hp')
        refine ⟨List.forall_mem_cons.mpr ⟨hread, fun p' hp' => ?_⟩, a :: taken, ?_, ?_, ?_, ?_, ?_⟩
        · rw [← readsMain_without (hne a (List.mem_singleton_self a))]
          exact hreads p' hp'
        · rw [DraftStore.without_cons htable, hs', ← DraftStore.without_nil
            (s := (s.removeByAnd table a.draftUUID).removeAdmin a.draftUUID),
            ← DraftStore.without_cons htable]
        · rw [hsaved]
          rfl
        · refine List.nodup_cons.mpr ⟨fun hmem => ?_, htaken⟩
          obtain ⟨b, hb, hid⟩ := List.mem_map.mp hmem
          obtain ⟨p', -, hsome⟩ := (hfrom b).mp hb
          obtain ⟨-, hbmem, -⟩ := newFkDraft_eq_some hsome
          exact (mem_admins_without.mp hbmem).2 a (List.mem_singleton_self a) hid
        · refine List.forall_mem_cons.mpr ⟨?_, htables⟩
          rw [htable]
          exact Option.some_ne_none table
        · intro b
          rw [List.mem_cons, hfrom b, List.exists_mem_cons_iff, hfirst, Option.some_inj, eq_comm]
          refine or_congr Iff.rfl (exists_congr fun p' => and_congr_right fun hp' => ?_)
          rw [hsame p' hp']

theorem exists_saveNewFkEntity (hinv : DraftStore.DraftInv s) (hmain : s.IsMain m)
    {navs : List NavigationProperty} (hnodup : (navs.map NavigationProperty.name).Nodup)
    (hcreate : ∀ d, ctx.createNewFkEntity d = .ok ())
    (hreads : ∀ p ∈ navs, s.readsMain type m p = .ok ())
    (htables : ∀ p ∈ navs, ∀ a, s.newFkDraft provider foreignKeyMissing m p = some a →
      a.draftEntityName ≠ none) :
    ∃ result, saveNewFkEntity ctx provider foreignKeyMissing type m navs s = .ok result := by
  induction navs generalizing s with
  | nil => exact ⟨_, rfl⟩
  | cons p navs ih =>
    rw [List.map_cons, List.nodup_cons] at hnodup
    obtain ⟨hfresh, hnodup⟩ := hnodup
    obtain ⟨hread, hreads⟩ := List.forall_mem_cons.mp hreads
    obtain ⟨hptable, htables⟩ := List.forall_mem_cons.mp htables
    simp only [saveNewFkEntity, hread]
    cases hfirst : s.newFkDraft provider foreignKeyMissing m p with
    | none => exact ih hinv hmain hnodup hreads htables
    | some a =>
      obtain ⟨-, ha, hparent, -, hname⟩ := newFkDraft_eq_some hfirst
      obtain ⟨table, htable⟩ := Option.ne_none_iff_exists'.mp (hptable a hfirst)
      obtain ⟨r, hr, hid, hrtable⟩ := hinv.present a ha table htable
      have hrow : (s.findRow table a.draftUUID).isNone = false := by
        rw [Option.isNone_eq_false_iff, DraftStore.findRow, List.find?_isSome]
        exact ⟨r, hr, decide_eq_true ⟨hrtable, hid⟩⟩
      have hbelow : ∀ b ∈ [a], b ∈ s.admins ∧ b.parentDraftUUID = some m :=
        fun b hb => List.mem_singleton.mp hb ▸ ⟨ha, hparent⟩
      obtain ⟨hmain', hne⟩ := hmain.without hinv hbelow
      have hreads' : ∀ p' ∈ navs, (s.without [a]).readsMain type m p' = .ok () := by
        intro p' hp'
        rw [readsMain_without (hne a (List.mem_singleton_self a))]
        exact hreads p' hp'
      have htables' : ∀ p' ∈ navs, ∀ b,
          (s.without [a]).newFkDraft provider foreignKeyMissing m p' = some b →
            b.draftEntityName ≠ none := by
        intro p' hp' b hb
        refine htables p' hp' b ?_
        rw [newFkDraft_without hinv ha] at hb
        · exact hb
        · rw [hname]
          intro heq
          exact hfresh (Option.some.inj heq ▸ List.mem_map_of_mem hp')
      obtain ⟨⟨s', saved⟩, hrest⟩ :=
        ih (hinv.without fun b hb => (hbelow b hb).1) hmain' hnodup hreads' htables'
      refine ⟨(s', (a.draftUUID, true) :: saved), ?_⟩
      rw [← hinv.removeNewFkDraft_eq ha htable] at hrest
      simp only [htable, hrow, hcreate]
      exact Except.bind_eq_ok.mpr ⟨(), rfl, Except.bind_eq_ok.mpr ⟨(), rfl,
        Except.bind_eq_ok.mpr ⟨(s', saved), hrest, rfl⟩⟩⟩

/-! ### What a save does -/

theorem mem_twoLevels {u : DraftUUID} (hu : u ∈ twoLevels provider s type m) :
    ∃ nav ∈ s.navDrafts provider type m, u = nav.2.draftUUID ∨
      ∃ nav' ∈ s.navDrafts provider nav.1 nav.2.draftUUID, u = nav'.2.draftUUID := by
  obtain ⟨nav, hnav, hu⟩ := List.mem_flatMap.mp hu
  refine ⟨nav, hnav, ?_⟩
  rcases List.mem_cons.mp hu with rfl | hu
  · exact Or.inl rfl
  · obtain ⟨nav', hnav', rfl⟩ := List.mem_map.mp hu
    exact Or.inr ⟨nav', hnav', rfl⟩

theorem mem_navDrafts_of_newFkDraft {a : DraftAdmin} (hp : p ∈ type.navigationProperties)
    (h : s.newFkDraft provider foreignKeyMissing m p = some a) :
    (provider.getEntityType p.typeFQN, a) ∈ s.navDrafts provider type m := by
  obtain ⟨-, ha, hparent, htable, hname⟩ := newFkDraft_eq_some h
  exact mem_navDrafts.mpr ⟨p, hp, rfl, ha, hparent, htable, hname⟩

/-- **The outcome of a save** that succeeds, with the drafts that were taken ahead and those that
`persistentTwoLevelNavEntity` has persisted of what was left. -/
structure Saved (ctx : SaveContext) (s : DraftStore) (provider : EdmProvider)
    (foreignKeyMissing : NavigationProperty → Bool) (type : CsdlEntityType) (m : DraftUUID)
    (r : SaveResult) (taken : List DraftAdmin) (log : List (DraftUUID × Bool)) : Prop where
  verified : verifyProperty ctx s m 0 = .ok r.verified
  persisted : r.persisted = taken.map (fun a => (a.draftUUID, true)) ++ log
  main : ∀ p ∈ type.navigationProperties, s.readsMain type m p = .ok ()
  nodup : (taken.map DraftAdmin.draftUUID).Nodup
  table : ∀ a ∈ taken, a.draftEntityName ≠ none
  mem_taken : ∀ a, a ∈ taken ↔ ∃ p ∈ type.navigationProperties,
    s.newFkDraft provider foreignKeyMissing m p = some a
  sublist : (log.map Prod.fst).Sublist (twoLevels provider (s.without taken) type m)
  logged : ∀ nav ∈ (s.without taken).navDrafts provider type m, nav.2.draftEntityName ≠ none ∧
    ∃ hasEntity, (nav.2.draftUUID, hasEntity) ∈ log ∧
      (hasEntity = true → ∀ nav' ∈ (s.without taken).navDrafts provider nav.1 nav.2.draftUUID,
        nav'.2.draftUUID ∈ log.map Prod.fst)

theorem stickySessionSaveAction_ok (hinv : DraftStore.DraftInv s) (hmain : s.IsMain m)
    {r : SaveResult}
    (h : stickySessionSaveAction ctx s provider foreignKeyMissing type m = .ok r) :
    ∃ taken log, Saved ctx s provider foreignKeyMissing type m r taken log := by
  rw [stickySessionSaveAction] at h
  obtain ⟨verified, hverified, h⟩ := Except.bind_eq_ok.mp h
  obtain ⟨⟨s', saved⟩, hsaved, h⟩ := Except.bind_eq_ok.mp h
  obtain ⟨hasEntity, -, h⟩ := Except.bind_eq_ok.mp h
  cases hasEntity with
  | false => cases h
  | true =>
    obtain ⟨log, hlog, h⟩ := Except.bind_eq_ok.mp h
    obtain rfl := Except.ok.inj h
    obtain ⟨hreads, taken, rfl, rfl, hnodup, htable, htaken⟩ :=
      saveNewFkEntity_ok hinv hmain type.nodup hsaved
    obtain ⟨hsub, hall⟩ := persistentTwoLevelNavEntity_ok hlog
    exact ⟨taken, log, hverified, rfl, hreads, hnodup, htable, htaken, hsub, hall⟩

section Outcome

variable {r : SaveResult} {taken : List DraftAdmin} {log : List (DraftUUID × Bool)}

theorem Saved.of_taken (h : Saved ctx s provider foreignKeyMissing type m r taken log)
    {a : DraftAdmin} (ha : a ∈ taken) : a ∈ s.admins ∧ a.parentDraftUUID = some m := by
  obtain ⟨p, -, hsome⟩ := (h.mem_taken a).mp ha
  obtain ⟨-, hmem, hparent, -⟩ := newFkDraft_eq_some hsome
  exact ⟨hmem, hparent⟩

theorem Saved.not_taken_of_second (h : Saved ctx s provider foreignKeyMissing type m r taken log)
    (hinv : DraftStore.DraftInv s) (hmain : s.IsMain m)
    (hnav : nav ∈ s.navDrafts provider type m) {type' : CsdlEntityType}
    (hnav' : nav' ∈ s.navDrafts provider type' nav.2.draftUUID) :
    ∀ a ∈ taken, nav'.2.draftUUID ≠ a.draftUUID := by
  intro a ha heq
  obtain ⟨hmem, hparent⟩ := h.of_taken ha
  have hparent' := (hinv.parentOf_navDraft hnav').2
  rw [heq, hinv.parentOf_of_mem hmem, hparent] at hparent'
  exact hinv.navDraft_ne hmain hnav (Option.some.inj hparent').symm

theorem Saved.not_taken (h : Saved ctx s provider foreignKeyMissing type m r taken log)
    {u : DraftUUID} (hu : u ∈ log.map Prod.fst) : ∀ a ∈ taken, u ≠ a.draftUUID := by
  obtain ⟨nav, hnav, hlevel⟩ := mem_twoLevels (h.sublist.subset hu)
  rcases hlevel with rfl | ⟨nav', hnav', rfl⟩
  · exact (mem_navDrafts_without.mp hnav).2
  · exact (mem_navDrafts_without.mp hnav').2

/-- **No draft is persisted twice.** -/
theorem Saved.nodup_persisted (h : Saved ctx s provider foreignKeyMissing type m r taken log)
    (hinv : DraftStore.DraftInv s) (hmain : s.IsMain m) : (r.persisted.map Prod.fst).Nodup := by
  have hfst : (taken.map fun a => (a.draftUUID, true)).map Prod.fst =
      taken.map DraftAdmin.draftUUID := by
    rw [List.map_map]
    rfl
  rw [h.persisted, List.map_append, hfst, List.nodup_append]
  obtain ⟨hmain', -⟩ := hmain.without hinv fun a ha => h.of_taken ha
  have hinv' := hinv.without fun a ha => (h.of_taken ha).1
  refine ⟨h.nodup, (hinv'.nodup_twoLevels hmain').sublist h.sublist, fun u hu v hv heq => ?_⟩
  obtain ⟨a, ha, rfl⟩ := List.mem_map.mp hu
  exact h.not_taken hv a ha heq.symm

theorem Saved.mem_of_log (h : Saved ctx s provider foreignKeyMissing type m r taken log)
    {u : DraftUUID} (hu : u ∈ log.map Prod.fst) : u ∈ r.persisted.map Prod.fst := by
  rw [h.persisted, List.map_append]
  exact List.mem_append_right _ hu

theorem Saved.readable (h : Saved ctx s provider foreignKeyMissing type m r taken log)
    (hinv : DraftStore.DraftInv s) : Readable provider s type m := by
  refine ⟨fun k level d hreach a ha hnone => ?_, fun nav hnav => ?_, h.main⟩
  · obtain ⟨t, ht, -⟩ := verifyProperty_of_reach h.verified hreach
    rw [verifyProperty, ha] at ht
    simp only [hnone] at ht
    cases ht
  · by_cases htaken : ∃ a ∈ taken, nav.2.draftUUID = a.draftUUID
    · obtain ⟨a, ha, hid⟩ := htaken
      rw [List.inj_on_of_nodup_map hinv.nodup (hinv.parentOf_navDraft hnav).1
        (h.of_taken ha).1 hid]
      exact h.table a ha
    · push Not at htaken
      exact (h.logged nav (mem_navDrafts_without.mpr ⟨hnav, htaken⟩)).1

/-- **A balanced session is saved as a whole.** -/
theorem Saved.savesAll (h : Saved ctx s provider foreignKeyMissing type m r taken log)
    (hinv : DraftStore.DraftInv s) (hmain : s.IsMain m) (hbalanced : Balanced s m)
    (halone : NewFkAlone provider foreignKeyMissing s type m) : SavesAll provider s type m r := by
  have hnodup := h.nodup_persisted hinv hmain
  have hfirst : ∀ nav ∈ s.navDrafts provider type m,
      nav.2.draftUUID ∈ r.persisted.map Prod.fst := by
    intro nav hnav
    by_cases htaken : ∃ a ∈ taken, nav.2.draftUUID = a.draftUUID
    · obtain ⟨a, ha, hid⟩ := htaken
      rw [hid, h.persisted, List.map_append, List.map_map]
      exact List.mem_append_left _ (List.mem_map_of_mem ha)
    · push Not at htaken
      obtain ⟨-, hasEntity, hmem, -⟩ := h.logged nav (mem_navDrafts_without.mpr ⟨hnav, htaken⟩)
      exact h.mem_of_log (List.mem_map_of_mem hmem)
  refine ⟨fun d hd => ?_, fun nav hnav => ?_, fun nav hnav hyes nav' hnav' => ?_⟩
  · exact (mem_verified_iff h.verified).mpr
      ⟨hd.1, (within_iff_balanced hinv hmain).mpr hbalanced d hd⟩
  · exact List.count_eq_one_of_mem hnodup (hfirst nav hnav)
  · refine List.count_eq_one_of_mem hnodup ?_
    by_cases htaken : ∃ a ∈ taken, nav.2.draftUUID = a.draftUUID
    · -- a draft that was taken ahead has nothing below it
      obtain ⟨a, ha, hid⟩ := htaken
      obtain ⟨p, hp, hsome⟩ := (h.mem_taken a).mp ha
      obtain rfl : nav = (provider.getEntityType p.typeFQN, a) :=
        List.inj_on_of_nodup_map hinv.nodup_navDrafts hnav
          (mem_navDrafts_of_newFkDraft hp hsome) hid
      rw [halone p hp a hsome] at hnav'
      exact absurd hnav' List.not_mem_nil
    · push Not at htaken
      obtain ⟨-, hasEntity, hmem, hbelow⟩ :=
        h.logged nav (mem_navDrafts_without.mpr ⟨hnav, htaken⟩)
      have hsame : hasEntity = true := by
        have hmem' : (nav.2.draftUUID, hasEntity) ∈ r.persisted := by
          rw [h.persisted]
          exact List.mem_append_right _ hmem
        exact congrArg Prod.snd (List.inj_on_of_nodup_map hnodup hmem' hyes rfl)
      exact h.mem_of_log (hbelow hsame nav'
        (mem_navDrafts_without.mpr ⟨hnav', h.not_taken_of_second hinv hmain hnav hnav'⟩))

/-- **What a save that is whole says of its session.** -/
theorem Saved.of_savesAll (h : Saved ctx s provider foreignKeyMissing type m r taken log)
    (hinv : DraftStore.DraftInv s) (hmain : s.IsMain m) (hall : SavesAll provider s type m r) :
    Balanced s m ∧ NewFkAlone provider foreignKeyMissing s type m := by
  constructor
  · refine (within_iff_balanced hinv hmain).mp fun x hx => ?_
    exact ((mem_verified_iff h.verified).mp (hall.verified x hx)).2
  · intro p hp a hsome
    have hnav := mem_navDrafts_of_newFkDraft hp hsome
    have ha : a ∈ taken := (h.mem_taken a).mpr ⟨p, hp, hsome⟩
    have hyes : (a.draftUUID, true) ∈ r.persisted := by
      rw [h.persisted]
      exact List.mem_append_left _ (List.mem_map.mpr ⟨a, ha, rfl⟩)
    refine List.eq_nil_iff_forall_not_mem.mpr fun nav' hnav' => ?_
    have hcount := hall.second _ hnav hyes nav' hnav'
    have hmem : nav'.2.draftUUID ∈ r.persisted.map Prod.fst :=
      List.count_pos_iff.mp (hcount ▸ Nat.one_pos)
    have hnot := h.not_taken_of_second hinv hmain hnav hnav'
    have hparent := (hinv.parentOf_navDraft hnav').2
    rw [h.persisted, List.map_append, List.map_map] at hmem
    rcases List.mem_append.mp hmem with htaken | hlog
    · obtain ⟨b, hb, hid⟩ := List.mem_map.mp htaken
      exact hnot b hb hid.symm
    · -- what was persisted later is below the main draft or below a draft that was not taken
      obtain ⟨nav, hmem', hlevel⟩ := mem_twoLevels (h.sublist.subset hlog)
      obtain ⟨hmem', hout⟩ := mem_navDrafts_without.mp hmem'
      rcases hlevel with hid | ⟨nav'', hnav'', hid⟩
      · rw [hid, (hinv.parentOf_navDraft hmem').2] at hparent
        exact hinv.navDraft_ne hmain hnav (Option.some.inj hparent).symm
      · rw [hid, (hinv.parentOf_navDraft (mem_navDrafts_without.mp hnav'').1).2] at hparent
        exact hout a ha (Option.some.inj hparent)

end Outcome

/-! ### A save that succeeds -/

def lenient : SaveContext where
  properties _ := []
  entityTypes _ := ⟨fun _ => none, fun _ => none, fun _ _ h => nomatch h⟩
  findByField _ _ _ := []
  persistMain _ := .ok true
  createNewFkEntity _ := .ok ()
  isStored _ := .ok false
  hasSamePk _ := false
  isChanged _ := false
  deleteRelatedEntity _ := .ok ()
  createRelatedEntity _ := .ok ()
  updateEntity _ := .ok ()
  isFound _ := false

theorem exists_verifyNavigations {drafts : List DraftAdmin}
    (h : ∀ i c, drafts[i]? = some c →
      ∃ t, verifyProperty ctx s c.draftUUID (level + i + 1) = .ok t) :
    ∃ checked, verifyNavigations ctx s level drafts = .ok checked := by
  induction drafts generalizing level with
  | nil => exact ⟨[], by rw [verifyNavigations]⟩
  | cons c cs ih =>
    obtain ⟨t, ht⟩ := h 0 c rfl
    have hrest : ∀ i c', cs[i]? = some c' →
        ∃ t, verifyProperty ctx s c'.draftUUID (level + 1 + i + 1) = .ok t := by
      intro i c' hc'
      rw [show level + 1 + i + 1 = level + (i + 1) + 1 by omega]
      exact h (i + 1) c' hc'
    obtain ⟨others, hothers⟩ := ih hrest
    refine ⟨t ++ others, ?_⟩
    rw [verifyNavigations]
    exact Except.bind_eq_ok.mpr ⟨t, ht, Except.bind_eq_ok.mpr ⟨others, hothers, rfl⟩⟩

theorem exists_verifyProperty {k level : ℕ} {d : DraftUUID} {a : DraftAdmin}
    (hinv : DraftStore.DraftInv s)
    (htable : ∀ k level d, Reach s m (fun _ level => level ≤ 2) k level d →
      ∀ a, s.findAdmin d = some a → a.draftEntityName ≠ none)
    (hreach : Reach s m (fun _ level => level ≤ 2) k level d) (ha : s.findAdmin d = some a) :
    ∃ checked, verifyProperty lenient s d level = .ok checked := by
  obtain ⟨table, hname⟩ := Option.ne_none_iff_exists'.mp (htable k level d hreach a ha)
  rw [verifyProperty, ha]
  simp only [hname]
  cases hrow : s.findRow table d with
  | none => exact ⟨[], rfl⟩
  | some row =>
    cases hdelete : row.isDelete with
    | true => exact ⟨[], by simp only [hdelete, if_true]⟩
    | false =>
      have hlive : s.Live d := ⟨a, table, row, ha, hname, hrow, hdelete⟩
      have hbelow : ∃ below, (if level ≤ 2 then verifyNavigations lenient s level (s.children d)
          else .ok []) = .ok below := by
        split_ifs with hlevel
        · refine exists_verifyNavigations fun i c hc => ?_
          have hchild := Reach.child hreach hlevel hlive hc
          have hmem := (List.mem_filter.mp (List.mem_of_getElem? hc)).1
          exact exists_verifyProperty hinv htable hchild (hinv.findAdmin_of_mem hmem)
        · exact ⟨[], rfl⟩
      obtain ⟨below, hbelow⟩ := hbelow
      refine ⟨d :: below, ?_⟩
      simp only [hdelete, Bool.false_eq_true, if_false, dite_eq_ite]
      exact Except.bind_eq_ok.mpr ⟨(), rfl, Except.bind_eq_ok.mpr ⟨below, hbelow, rfl⟩⟩
  termination_by 3 - level

theorem lenient_persistentNavEntity (hinv : DraftStore.DraftInv s) {a : DraftAdmin}
    (ha : a ∈ s.admins) (htable : a.draftEntityName ≠ none) :
    persistentNavEntity lenient s a = .ok false := by
  obtain ⟨table, hname⟩ := Option.ne_none_iff_exists'.mp htable
  obtain ⟨r, hr, hid, hrtable⟩ := hinv.present a ha table hname
  have hrow : (s.findRow table a.draftUUID).isSome := by
    rw [DraftStore.findRow, List.find?_isSome]
    exact ⟨r, hr, decide_eq_true ⟨hrtable, hid⟩⟩
  obtain ⟨row, hrow⟩ := Option.isSome_iff_exists.mp hrow
  rw [persistentNavEntity, hname]
  simp only [hrow]
  cases row.isDelete <;> rfl

/-- **A session that can be read has a save that succeeds.** -/
theorem exists_stickySessionSaveAction (hinv : DraftStore.DraftInv s) (hmain : s.IsMain m)
    (hread : Readable provider s type m) (foreignKeyMissing : NavigationProperty → Bool) :
    ∃ r, stickySessionSaveAction lenient s provider foreignKeyMissing type m = .ok r := by
  have htables : ∀ p ∈ type.navigationProperties, ∀ a,
      s.newFkDraft provider foreignKeyMissing m p = some a → a.draftEntityName ≠ none :=
    fun p hp a hsome => hread.first _ (mem_navDrafts_of_newFkDraft hp hsome)
  obtain ⟨a, ha, -⟩ := id hmain
  obtain ⟨verified, hverified⟩ := exists_verifyProperty hinv hread.verified Reach.main ha
  have hcreate : ∀ d, lenient.createNewFkEntity d = .ok () := fun _ => rfl
  obtain ⟨⟨s', saved⟩, hsaved⟩ :=
    exists_saveNewFkEntity hinv hmain type.nodup hcreate hread.main htables
  obtain ⟨-, taken, hs', -, -, -, htaken⟩ := saveNewFkEntity_ok hinv hmain type.nodup hsaved
  have hinv' : DraftStore.DraftInv s' := by
    rw [hs']
    refine hinv.without fun b hb => ?_
    obtain ⟨p, -, hsome⟩ := (htaken b).mp hb
    exact (newFkDraft_eq_some hsome).2.1
  obtain ⟨persisted, hpersisted⟩ : ∃ persisted,
      persistentTwoLevelNavEntity lenient s' provider type m = .ok persisted := by
    obtain ⟨logs, hlogs⟩ := Except.exists_mapM (l := s'.navDrafts provider type m)
      (f := fun nav => do
        let hasEntity ← persistentNavEntity lenient s' nav.2
        let below ← (if hasEntity then persistNavigations lenient s' provider (fun _ _ => .ok [])
          nav.1 nav.2.draftUUID else .ok [])
        .ok ((nav.2.draftUUID, hasEntity) :: below)) fun nav hnav => by
      have htable : nav.2.draftEntityName ≠ none := by
        rw [hs'] at hnav
        exact hread.first nav (mem_navDrafts_without.mp hnav).1
      rw [lenient_persistentNavEntity hinv' (hinv'.parentOf_navDraft hnav).1 htable]
      exact ⟨_, rfl⟩
    exact ⟨logs.flatten, Except.bind_eq_ok.mpr ⟨logs, hlogs, rfl⟩⟩
  refine ⟨⟨verified, saved ++ persisted, s'.clearEntityDraft m⟩, ?_⟩
  exact Except.bind_eq_ok.mpr ⟨verified, hverified, Except.bind_eq_ok.mpr ⟨(s', saved), hsaved,
    Except.bind_eq_ok.mpr ⟨true, rfl, Except.bind_eq_ok.mpr ⟨persisted, hpersisted, rfl⟩⟩⟩⟩

/-- **When a save is whole**: in every state that sessions lead to, every save that succeeds
verifies and persists all of the drafts exactly if no draft with drafts to check below it comes too
late among its siblings, and no draft that is saved ahead has drafts below it; or if what the save
reads is not there. -/
theorem stickySessionSave_iff (h : (draftSystem provider).Reachable s) (hmain : s.IsMain m)
    (foreignKeyMissing : NavigationProperty → Bool) (type : CsdlEntityType) :
    (∀ ctx r, stickySessionSaveAction ctx s provider foreignKeyMissing type m = .ok r →
      SavesAll provider s type m r) ↔
    (Readable provider s type m →
      Balanced s m ∧ NewFkAlone provider foreignKeyMissing s type m) := by
  have hinv : DraftStore.DraftInv s := DraftStore.DraftInv.of_reachable h
  constructor
  · intro hall hread
    obtain ⟨r, hr⟩ := exists_stickySessionSaveAction hinv hmain hread foreignKeyMissing
    obtain ⟨taken, log, hsaved⟩ := stickySessionSaveAction_ok hinv hmain hr
    exact hsaved.of_savesAll hinv hmain (hall lenient r hr)
  · intro hwhole ctx r hr
    obtain ⟨taken, log, hsaved⟩ := stickySessionSaveAction_ok hinv hmain hr
    obtain ⟨hbalanced, halone⟩ := hwhole (hsaved.readable hinv)
    exact hsaved.savesAll hinv hmain hbalanced halone

/-! ### Parts with and without siblings -/

open DraftStore

def partType : CsdlEntityType := parts.getEntityType "Part".toList

theorem newFkAlone_parts (s : DraftStore) (m : DraftUUID) :
    NewFkAlone parts (fun _ => false) s partType m := by
  intro p _ a hsome
  rw [DraftStore.newFkDraft, if_neg fun hkey => Bool.false_ne_true hkey.2] at hsome
  cases hsome

theorem balanced_partChain : Balanced (partChain 2) 0 := by
  have honly : ∀ d i c, ((partChain 2).children d)[i]? = some c → i = 0 := by
    intro d i c hc
    have hlt : d < 2 := by
      obtain ⟨hmem, hparent⟩ := List.mem_filter.mp (List.mem_of_getElem? hc)
      have hall : ∀ c ∈ (partChain 2).admins, ∀ p, c.parentDraftUUID = some p → p < 2 := by decide
      exact hall c hmem d (of_decide_eq_true hparent)
    have hlength : ∀ d < 2, ((partChain 2).children d).length = 1 := by decide
    have hi := (List.getElem?_eq_some_iff.mp hc).1
    rw [hlength d hlt] at hi
    exact Nat.lt_one_iff.mp hi
  have hlevel : ∀ limit k level d, Reach (partChain 2) 0 limit k level d → level = k := by
    intro limit k level d hreach
    induction hreach with
    | main => rfl
    | child _ _ _ hchild ih => rw [ih, honly _ _ _ hchild]
  intro k level d hreach hk hlate
  rw [hlevel _ k level d hreach] at hlate
  exact absurd hk (Nat.not_le.mpr hlate)

theorem stickySessionSave_iff_partChain :
    (draftSystem parts).Reachable (partChain 2) ∧ ∀ ctx r,
      stickySessionSaveAction ctx (partChain 2) parts (fun _ => false) partType 0 = .ok r →
        SavesAll parts (partChain 2) partType 0 r :=
  ⟨reachable_partChain 2, (stickySessionSave_iff (reachable_partChain 2) ⟨_, rfl, rfl⟩
    (fun _ => false) partType).mpr fun _ => ⟨balanced_partChain, newFkAlone_parts _ _⟩⟩

def partSiblings : DraftStore :=
  [0, 0, 0, 3].foldl (fun s parent =>
    s.step parts noRelated (.createNavDraftData parent ∅ "Parts".toList [])) (partChain 0)

theorem reachable_partSiblings : (draftSystem parts).Reachable partSiblings :=
  List.foldlRecOn _ _ (reachable_partChain 0) fun _ hs _ _ => hs.tail (e := (noRelated, _)) rfl

/-- **The part below the third part is saved without having been verified.** -/
theorem not_savesAll_partSiblings :
    (draftSystem parts).Reachable partSiblings ∧ partSiblings.IsMain 0 ∧
      ∃ r, stickySessionSaveAction lenient partSiblings parts (fun _ => false) partType 0 = .ok r ∧
        Within partSiblings 0 4 ∧ 4 ∉ r.verified := by
  have hmain : partSiblings.IsMain 0 := ⟨_, rfl, rfl⟩
  have hinv := DraftStore.DraftInv.of_reachable reachable_partSiblings
  have hnames : ∀ a ∈ partSiblings.admins, a.draftEntityName ≠ none := by decide
  have hread : Readable parts partSiblings partType 0 := by
    refine ⟨fun _ _ d _ a ha => hnames a (DraftStore.mem_of_findAdmin ha).1, fun nav hnav => ?_,
      fun p hp => ?_⟩
    · exact hnames _ (hinv.parentOf_navDraft hnav).1
    · rw [List.mem_singleton.mp hp]
      rfl
  obtain ⟨r, hr⟩ := exists_stickySessionSaveAction hinv hmain hread fun _ => false
  have hlive : ∀ d < 5, partSiblings.Live d := by
    intro d hd
    interval_cases d <;> exact ⟨_, _, _, rfl, rfl, rfl, rfl⟩
  have hthird : Reach partSiblings 0 (fun k _ => k ≤ 2) 1 3 3 :=
    Reach.child (i := 2) Reach.main (by decide) (hlive 0 (by decide)) rfl
  have hlast : Reach partSiblings 0 (fun k _ => k ≤ 2) 2 4 4 :=
    Reach.child (i := 0) hthird (by decide) (hlive 3 (by decide)) rfl
  refine ⟨reachable_partSiblings, hmain, r, hr, ⟨hlive 4 (by decide), 2, 4, hlast⟩, fun hmem => ?_⟩
  obtain ⟨taken, log, hsaved⟩ := stickySessionSaveAction_ok hinv hmain hr
  obtain ⟨-, k, level, hreach⟩ := (mem_verified_iff hsaved.verified).mp hmem
  -- the walk would have come to the last part from the third one, at level three
  generalize hy : 4 = y at hreach
  cases hreach with
  | main => cases hy
  | child h hlimit _ hchild =>
    have hparent := hinv.parentOf_child hchild
    rw [← hy] at hparent
    obtain rfl := Option.some.inj hparent
    rw [← hthird.unique hinv hmain h] at hlimit
    exact absurd hlimit (by decide)

end OfficeAuto.Odata
