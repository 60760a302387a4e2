import OfficeAuto.Odata.DraftStore

/-!
# Clearing a draft

`clearEntityDraft` removes a main draft and two levels of drafts below it. Drafts can be
created at any depth, so a clear leaves drafts behind that are deeper, with no main draft any
more; and it stops at a record that names no draft table. These are the only drafts of the main
draft that it leaves, and it never touches a draft of another main draft.

The parents of the records make a forest (`DraftStore.parentOf`), in which the drafts of a main
draft are those below it.
-/

namespace OfficeAuto.Odata

open Forest

variable {s : DraftStore} {d m : DraftUUID} {k : ℕ} {provider : EdmProvider}

namespace DraftStore

def parentOf (s : DraftStore) (d : DraftUUID) : Option DraftUUID :=
  (s.findAdmin d).bind DraftAdmin.parentDraftUUID

def IsMain (s : DraftStore) (m : DraftUUID) : Prop :=
  ∃ a, s.findAdmin m = some a ∧ a.parentDraftUUID = none

/-- **The clear of a main draft leaves nothing of it**: no record and no row of a draft whose
parents lead to it. -/
def Clears (s : DraftStore) (m : DraftUUID) : Prop :=
  ∀ k d, Below s.parentOf m k d →
    (s.clearEntityDraft m).findAdmin d = none ∧
      ∀ r ∈ (s.clearEntityDraft m).rows, r.draftUUID ≠ d

/-- **The clear of a main draft spares the others**: the records and rows of the drafts below
another main draft are as they were. -/
def Spares (s : DraftStore) (m : DraftUUID) : Prop :=
  ∀ m', s.IsMain m' → m' ≠ m → ∀ k d, Below s.parentOf m' k d →
    (s.clearEntityDraft m).findAdmin d = s.findAdmin d ∧
      ∀ r, r.draftUUID = d → (r ∈ (s.clearEntityDraft m).rows ↔ r ∈ s.rows)

/-- Nothing is deeper than two levels below the main draft, and every record names a table. -/
structure Shallow (s : DraftStore) (m : DraftUUID) : Prop where
  depth : ∀ k d, Below s.parentOf m k d → k ≤ 2
  table : ∀ k d, Below s.parentOf m k d → ∀ a, s.findAdmin d = some a →
    a.draftEntityName ≠ none

/-- **The invariant of the store.** -/
structure DraftInv (s : DraftStore) : Prop where
  nodup : (s.admins.map DraftAdmin.draftUUID).Nodup
  bound : ∀ a ∈ s.admins, a.draftUUID < s.nextUUID
  rows : ∀ r ∈ s.rows, ∃ a ∈ s.admins, a.draftUUID = r.draftUUID ∧
    a.draftEntityName = some r.draftEntityName
  present : ∀ a ∈ s.admins, ∀ table, a.draftEntityName = some table →
    ∃ r ∈ s.rows, r.draftUUID = a.draftUUID ∧ r.draftEntityName = table

/-! ### Records by their keys -/

theorem mem_of_findAdmin {a : DraftAdmin} (h : s.findAdmin d = some a) :
    a ∈ s.admins ∧ a.draftUUID = d :=
  ⟨List.mem_of_find?_eq_some h, by simpa using List.find?_some h⟩

theorem DraftInv.findAdmin_of_mem (h : DraftInv s) {a : DraftAdmin} (ha : a ∈ s.admins) :
    s.findAdmin a.draftUUID = some a := by
  cases hfind : s.findAdmin a.draftUUID with
  | none =>
    have hnone := List.find?_eq_none.mp hfind a ha
    exact absurd (decide_eq_true rfl) hnone
  | some b =>
    obtain ⟨hb, hid⟩ := mem_of_findAdmin hfind
    rw [List.inj_on_of_nodup_map h.nodup hb ha hid]

theorem DraftInv.parentOf_of_mem (h : DraftInv s) {a : DraftAdmin} (ha : a ∈ s.admins) :
    s.parentOf a.draftUUID = a.parentDraftUUID := by
  rw [parentOf, h.findAdmin_of_mem ha]
  rfl

theorem exists_of_parentOf {p : DraftUUID} (h : s.parentOf d = some p) :
    ∃ a ∈ s.admins, a.draftUUID = d ∧ a.parentDraftUUID = some p := by
  obtain ⟨a, hfind, hparent⟩ := Option.bind_eq_some_iff.mp h
  obtain ⟨ha, hid⟩ := mem_of_findAdmin hfind
  exact ⟨a, ha, hid, hparent⟩

theorem IsMain.parentOf (h : s.IsMain m) : s.parentOf m = none := by
  obtain ⟨a, hfind, hparent⟩ := h
  rw [DraftStore.parentOf, hfind]
  exact hparent

theorem exists_of_below (hmain : s.IsMain m) (h : Below s.parentOf m k d) :
    ∃ a ∈ s.admins, a.draftUUID = d := by
  cases h with
  | root =>
    obtain ⟨a, hfind, -⟩ := hmain
    exact ⟨a, mem_of_findAdmin hfind⟩
  | child _ hparent =>
    obtain ⟨a, ha, hid, -⟩ := exists_of_parentOf hparent
    exact ⟨a, ha, hid⟩

/-! ### What a clear removes -/

def beforeNoTable (L : List DraftAdmin) : List DraftAdmin :=
  L.takeWhile fun b => b.draftEntityName.isSome

def without (s : DraftStore) (L : List DraftAdmin) : DraftStore :=
  { s with
    admins := s.admins.filter fun a => decide (∀ b ∈ L, ¬ a.draftUUID = b.draftUUID)
    rows := s.rows.filter fun r => decide (∀ b ∈ L,
      ¬ (some r.draftEntityName = b.draftEntityName ∧ r.draftUUID = b.draftUUID)) }

theorem without_nil : s.without [] = s := by
  simp [without]

theorem without_cons {b : DraftAdmin} {table : Name} {L : List DraftAdmin}
    (hb : b.draftEntityName = some table) :
    s.without (b :: L) = ((s.removeByAnd table b.draftUUID).removeAdmin b.draftUUID).without L := by
  simp only [without, removeByAnd, removeAdmin, List.filter_filter, DraftStore.mk.injEq, and_true]
  constructor
  · refine List.filter_congr fun a _ => ?_
    rw [Bool.eq_iff_iff]
    simp only [Bool.and_eq_true, decide_eq_true_eq, List.forall_mem_cons]
    exact And.comm
  · refine List.filter_congr fun r _ => ?_
    rw [Bool.eq_iff_iff]
    simp only [Bool.and_eq_true, decide_eq_true_eq, List.forall_mem_cons, hb, Option.some.injEq]
    exact And.comm

theorem removeDrafts_eq (L : List DraftAdmin) (s : DraftStore) :
    removeDrafts L s = s.without (beforeNoTable L) := by
  induction L generalizing s with
  | nil => exact without_nil.symm
  | cons b L ih =>
    cases hb : b.draftEntityName with
    | none =>
      have hstop : beforeNoTable (b :: L) = [] := by simp [beforeNoTable, hb]
      rw [hstop, without_nil, removeDrafts, hb]
    | some table =>
      have hgo : beforeNoTable (b :: L) = b :: beforeNoTable L := by simp [beforeNoTable, hb]
      rw [hgo, without_cons hb, removeDrafts, hb]
      exact ih _

theorem DraftInv.below_of_mem (h : DraftInv s) {main b : DraftAdmin}
    (hfind : s.findAdmin m = some main) (hb : b ∈ s.draftAdminList main) :
    b ∈ s.admins ∧ ∃ k ≤ 2, Below s.parentOf m k b.draftUUID := by
  obtain ⟨hmem, hid⟩ := mem_of_findAdmin hfind
  have hchild : ∀ a ∈ s.admins, ∀ p k, a.parentDraftUUID = some p → Below s.parentOf m k p →
      Below s.parentOf m (k + 1) a.draftUUID := fun a ha p k hparent hbelow =>
    Below.child hbelow ((h.parentOf_of_mem ha).trans hparent)
  rw [draftAdminList, List.mem_append, List.mem_cons] at hb
  rcases hb with (rfl | hb) | hb
  · exact ⟨hmem, 0, Nat.zero_le 2, below_zero.mpr hid⟩
  · obtain ⟨hb, hparent⟩ := List.mem_filter.mp hb
    have hparent' : b.parentDraftUUID = some m := by rw [← hid]; exact of_decide_eq_true hparent
    exact ⟨hb, 1, by decide, hchild b hb m 0 hparent' Below.root⟩
  · obtain ⟨hb, hparent⟩ := List.mem_filter.mp hb
    obtain ⟨u, hu, hparent⟩ := of_decide_eq_true hparent
    obtain ⟨a, ha, rfl⟩ := List.mem_map.mp hu
    obtain ⟨ha, haparent⟩ := List.mem_filter.mp ha
    have haparent' : a.parentDraftUUID = some m := by
      rw [← hid]
      exact of_decide_eq_true haparent
    exact ⟨hb, 2, Nat.le_refl 2, hchild b hb _ 1 hparent (hchild a ha m 0 haparent' Below.root)⟩

theorem DraftInv.mem_of_below (h : DraftInv s) {main a : DraftAdmin}
    (hfind : s.findAdmin m = some main) (ha : a ∈ s.admins)
    (hbelow : Below s.parentOf m k a.draftUUID) (hk : k ≤ 2) : a ∈ s.draftAdminList main := by
  obtain ⟨hmem, hid⟩ := mem_of_findAdmin hfind
  rw [draftAdminList, List.mem_append, List.mem_cons]
  match k, hk with
  | 0, _ =>
    have heq : a.draftUUID = main.draftUUID := (below_zero.mp hbelow).trans hid.symm
    exact Or.inl (Or.inl (List.inj_on_of_nodup_map h.nodup ha hmem heq))
  | 1, _ =>
    obtain ⟨p, hparent, hp⟩ := below_succ.mp hbelow
    obtain rfl := below_zero.mp hp
    rw [h.parentOf_of_mem ha] at hparent
    refine Or.inl (Or.inr (List.mem_filter.mpr ⟨ha, ?_⟩))
    rw [hparent, hid]
    exact decide_eq_true rfl
  | 2, _ =>
    obtain ⟨p, hparent, hp⟩ := below_succ.mp hbelow
    obtain ⟨q, hparent', hq⟩ := below_succ.mp hp
    obtain rfl := below_zero.mp hq
    rw [h.parentOf_of_mem ha] at hparent
    obtain ⟨b, hb, rfl, hbparent⟩ := exists_of_parentOf hparent'
    refine Or.inr (List.mem_filter.mpr ⟨ha, decide_eq_true ⟨b.draftUUID, ?_, hparent⟩⟩)
    refine List.mem_map_of_mem (List.mem_filter.mpr ⟨hb, ?_⟩)
    rw [hbparent, hid]
    exact decide_eq_true rfl

def removed (s : DraftStore) (main : DraftAdmin) : List DraftAdmin :=
  beforeNoTable (s.draftAdminList main)

theorem mem_of_removed {main b : DraftAdmin} (hb : b ∈ s.removed main) :
    b ∈ s.draftAdminList main ∧ b.draftEntityName ≠ none :=
  ⟨(List.takeWhile_sublist (p := fun b : DraftAdmin => b.draftEntityName.isSome)).subset hb,
    Option.isSome_iff_ne_none.mp
      (List.mem_takeWhile_imp (p := fun b : DraftAdmin => b.draftEntityName.isSome) hb)⟩

theorem clearEntityDraft_eq {main : DraftAdmin} (hfind : s.findAdmin m = some main) :
    s.clearEntityDraft m = s.without (s.removed main) := by
  rw [clearEntityDraft, hfind]
  exact removeDrafts_eq _ s

theorem findAdmin_clear_of_removed {main b : DraftAdmin} (hfind : s.findAdmin m = some main)
    (hb : b ∈ s.removed main) : (s.clearEntityDraft m).findAdmin b.draftUUID = none := by
  rw [clearEntityDraft_eq hfind]
  refine List.find?_eq_none.mpr fun a ha => ?_
  have hne := of_decide_eq_true (List.mem_filter.mp ha).2 b hb
  rw [decide_eq_true_eq]
  exact hne

theorem findAdmin_clear_of_not_removed {main : DraftAdmin} (hfind : s.findAdmin m = some main)
    (hd : ∀ b ∈ s.removed main, d ≠ b.draftUUID) :
    (s.clearEntityDraft m).findAdmin d = s.findAdmin d := by
  rw [clearEntityDraft_eq hfind, findAdmin, findAdmin, without, List.find?_filter]
  refine congrArg (fun p => s.admins.find? p) (funext fun a => ?_)
  rw [Bool.eq_iff_iff]
  simp only [decide_eq_true_eq, and_iff_right_iff_imp]
  rintro rfl
  exact hd

/-! ### The clear of a shallow session -/

theorem DraftInv.clears_of_shallow (h : DraftInv s) (hmain : s.IsMain m) (hs : Shallow s m) :
    Clears s m := by
  obtain ⟨main, hfind, -⟩ := id hmain
  have hall : s.removed main = s.draftAdminList main := by
    refine List.takeWhile_eq_self_iff.mpr fun b hb => ?_
    obtain ⟨hbmem, j, -, hbelow⟩ := h.below_of_mem hfind hb
    exact Option.isSome_iff_ne_none.mpr
      (hs.table j _ hbelow b (h.findAdmin_of_mem hbmem))
  intro k d hbelow
  obtain ⟨a, ha, rfl⟩ := exists_of_below hmain hbelow
  have hmem : a ∈ s.removed main := by
    rw [hall]
    exact h.mem_of_below hfind ha hbelow (hs.depth k _ hbelow)
  refine ⟨findAdmin_clear_of_removed hfind hmem, fun r hr hid => ?_⟩
  rw [clearEntityDraft_eq hfind] at hr
  obtain ⟨hr, hkept⟩ := List.mem_filter.mp hr
  obtain ⟨b, hb, hbid, htable⟩ := h.rows r hr
  obtain rfl : b = a := List.inj_on_of_nodup_map h.nodup hb ha (hbid.trans hid)
  exact of_decide_eq_true hkept b hmem ⟨htable.symm, hid⟩

theorem DraftInv.shallow_of_clears (h : DraftInv s) (hmain : s.IsMain m) (hc : Clears s m) :
    Shallow s m := by
  obtain ⟨main, hfind, -⟩ := id hmain
  have hroot := hmain.parentOf
  -- a record that is gone was in the list, within two levels, and names a table
  have hgone : ∀ k d a, Below s.parentOf m k d → s.findAdmin d = some a →
      k ≤ 2 ∧ a.draftEntityName ≠ none := by
    intro k d a hbelow ha
    have hremoved : ∃ b ∈ s.removed main, d = b.draftUUID := by
      by_contra hnot
      push Not at hnot
      have hsame := findAdmin_clear_of_not_removed hfind hnot
      rw [(hc k d hbelow).1, ha] at hsame
      cases hsame
    obtain ⟨b, hb, rfl⟩ := hremoved
    obtain ⟨hbmem, j, hj, hbelow'⟩ := h.below_of_mem hfind (mem_of_removed hb).1
    obtain ⟨-, rfl⟩ := hbelow.unique hroot hroot hbelow'
    rw [h.findAdmin_of_mem hbmem] at ha
    obtain rfl := Option.some.inj ha
    exact ⟨hj, (mem_of_removed hb).2⟩
  refine ⟨fun k d hbelow => ?_, fun k d hbelow a ha => (hgone k d a hbelow ha).2⟩
  obtain ⟨a, ha, rfl⟩ := exists_of_below hmain hbelow
  exact (hgone k _ a hbelow (h.findAdmin_of_mem ha)).1

theorem DraftInv.spares (h : DraftInv s) (hmain : s.IsMain m) : Spares s m := by
  obtain ⟨main, hfind, -⟩ := id hmain
  intro m' hmain' hne k d hbelow
  have hnot : ∀ b ∈ s.removed main, d ≠ b.draftUUID := by
    rintro b hb rfl
    obtain ⟨-, j, -, hbelow'⟩ := h.below_of_mem hfind (mem_of_removed hb).1
    exact hne (hbelow.unique hmain'.parentOf hmain.parentOf hbelow').1
  refine ⟨findAdmin_clear_of_not_removed hfind hnot, ?_⟩
  rintro r rfl
  rw [clearEntityDraft_eq hfind]
  refine List.mem_filter.trans (and_iff_left (decide_eq_true fun b hb => ?_))
  exact fun hkey => hnot b hb hkey.2

/-! ### The invariant -/

theorem DraftInv.without (h : DraftInv s) {L : List DraftAdmin} (hL : ∀ b ∈ L, b ∈ s.admins) :
    DraftInv (s.without L) := by
  refine ⟨h.nodup.sublist (List.filter_sublist.map _),
    fun a ha => h.bound a (List.mem_filter.mp ha).1, fun r hr => ?_, fun a ha table htable => ?_⟩
  · obtain ⟨hr, hkept⟩ := List.mem_filter.mp hr
    obtain ⟨a, ha, hid, htable⟩ := h.rows r hr
    refine ⟨a, List.mem_filter.mpr ⟨ha, decide_eq_true fun b hb heq => ?_⟩, hid, htable⟩
    obtain rfl : a = b := List.inj_on_of_nodup_map h.nodup ha (hL b hb) heq
    exact of_decide_eq_true hkept a hb ⟨htable.symm, hid.symm⟩
  · obtain ⟨ha, hkept⟩ := List.mem_filter.mp ha
    obtain ⟨r, hr, hid, hrtable⟩ := h.present a ha table htable
    refine ⟨r, List.mem_filter.mpr ⟨hr, decide_eq_true fun b hb hkey => ?_⟩, hid, hrtable⟩
    exact of_decide_eq_true hkept b hb (hid.symm.trans hkey.2)

theorem DraftInv.clearEntityDraft (h : DraftInv s) (u : DraftUUID) :
    DraftInv (s.clearEntityDraft u) := by
  cases hfind : s.findAdmin u with
  | none => rwa [DraftStore.clearEntityDraft, hfind]
  | some main =>
    rw [clearEntityDraft_eq hfind]
    exact h.without fun b hb => (h.below_of_mem hfind (mem_of_removed hb).1).1

theorem DraftInv.removeNewFkDraft (h : DraftInv s) (u : DraftUUID) :
    DraftInv (s.removeNewFkDraft u) := by
  unfold DraftStore.removeNewFkDraft
  split
  · exact h
  · next a hfind =>
    obtain ⟨ha, rfl⟩ := mem_of_findAdmin hfind
    split
    · exact h
    · next table htable =>
      rw [← without_nil (s := (s.removeByAnd table a.draftUUID).removeAdmin a.draftUUID),
        ← without_cons htable]
      exact h.without fun b hb => List.mem_singleton.mp hb ▸ ha

theorem DraftInv.clearDraft (h : DraftInv s) : DraftInv s.clearDraft := by
  refine ⟨List.nodup_nil, fun a ha => absurd ha List.not_mem_nil, fun r hr => ?_,
    fun a ha => absurd ha List.not_mem_nil⟩
  obtain ⟨hr, hkept⟩ := List.mem_filter.mp hr
  obtain ⟨a, ha, hid, htable⟩ := h.rows r hr
  exact absurd ⟨htable, hid⟩ (of_decide_eq_true hkept a ha)

theorem DraftInv.updateRow (h : DraftInv s) (table : Name) (u : DraftUUID)
    (f : DraftRow → DraftRow) : DraftInv (s.updateRow table u f) := by
  refine ⟨h.nodup, h.bound, fun r hr => ?_, fun a ha table' htable => ?_⟩
  · obtain ⟨r', hr', rfl⟩ := List.mem_map.mp hr
    obtain ⟨a, ha, hid, htable⟩ := h.rows r' hr'
    refine ⟨a, ha, ?_⟩
    split_ifs <;> exact ⟨hid, htable⟩
  · obtain ⟨r, hr, hid, hrtable⟩ := h.present a ha table' htable
    refine ⟨_, List.mem_map_of_mem hr, ?_⟩
    split_ifs <;> exact ⟨hid, hrtable⟩

theorem DraftInv.createDraft (h : DraftInv s) (parentDraftUUID : Option DraftUUID)
    (type : CsdlEntityType) (keyMap : Option FieldMap) (navigationProperty : Option Name)
    (isActiveEntity : Bool) (fields : List (Name × List Char)) :
    DraftInv (s.createDraft parentDraftUUID type keyMap navigationProperty isActiveEntity
      fields) := by
  set admin : DraftAdmin :=
    { draftUUID := s.nextUUID
      parentDraftUUID := parentDraftUUID
      originEntityName := type.ofbizEntity
      draftEntityName := type.draftEntityName
      entityType := type.fullQualifiedName
      navigationProperty := navigationProperty
      entityKeyMap := keyMap.map mapToStr } with hadmin
  have hnodup : ((s.admins ++ [admin]).map DraftAdmin.draftUUID).Nodup := by
    rw [List.map_append, List.nodup_append]
    refine ⟨h.nodup, List.nodup_singleton _, fun u hu v hv heq => ?_⟩
    obtain ⟨a, ha, rfl⟩ := List.mem_map.mp hu
    have hlt := h.bound a ha
    rw [heq, List.mem_singleton.mp hv] at hlt
    exact Nat.lt_irrefl _ hlt
  have hbound : ∀ a ∈ s.admins ++ [admin], a.draftUUID < s.nextUUID + 1 := by
    intro a ha
    rcases List.mem_append.mp ha with ha | ha
    · exact Nat.lt_succ_of_lt (h.bound a ha)
    · rw [List.mem_singleton.mp ha]
      exact Nat.lt_succ_self _
  have hrows : ∀ r ∈ s.rows, ∃ a ∈ s.admins ++ [admin], a.draftUUID = r.draftUUID ∧
      a.draftEntityName = some r.draftEntityName := by
    intro r hr
    obtain ⟨a, ha, hkey⟩ := h.rows r hr
    exact ⟨a, List.mem_append_left _ ha, hkey⟩
  unfold DraftStore.createDraft createRow
  cases htable : type.draftEntityName with
  | none =>
    refine ⟨hnodup, hbound, hrows, fun a ha table hatable => ?_⟩
    rcases List.mem_append.mp ha with ha | ha
    · exact h.present a ha table hatable
    · rw [List.mem_singleton.mp ha] at hatable
      exact absurd (htable.symm.trans hatable) (Option.some_ne_none table).symm
  | some table =>
    refine ⟨hnodup, hbound, fun r hr => ?_, fun a ha table' hatable => ?_⟩
    · rcases List.mem_append.mp hr with hr | hr
      · exact hrows r hr
      · rw [List.mem_singleton.mp hr]
        exact ⟨admin, List.mem_append_right _ (List.mem_singleton_self _), rfl, htable⟩
    · rcases List.mem_append.mp ha with ha | ha
      · obtain ⟨r, hr, hkey⟩ := h.present a ha table' hatable
        exact ⟨r, List.mem_append_left _ hr, hkey⟩
      · rw [List.mem_singleton.mp ha] at hatable ⊢
        refine ⟨_, List.mem_append_right _ (List.mem_singleton_self _), rfl, ?_⟩
        exact Option.some.inj (htable.symm.trans hatable)

theorem DraftInv.copyRelated {reader : OdataReader} {main : Option Name}
    {copyBelow : CsdlEntityType → OdataEntity → DraftUUID → DraftStore → DraftStore}
    {type : CsdlEntityType} {entity : OdataEntity} {u : DraftUUID} (h : DraftInv s)
    (hbelow : ∀ type entity u s, DraftInv s → DraftInv (copyBelow type entity u s)) :
    DraftInv (DraftStore.copyRelated provider reader main copyBelow type entity u s) := by
  refine List.foldlRecOn _ _ h fun s hs nav _ => ?_
  split_ifs
  · exact hs
  · refine List.foldlRecOn _ _ hs fun s hs related _ => ?_
    exact hbelow _ _ _ _ (hs.createDraft _ _ _ _ _ _)

theorem DraftInv.copyNavigationToDraft {reader : OdataReader} {main : Option Name} {left : ℕ}
    {type : CsdlEntityType} {entity : OdataEntity} {u : DraftUUID} (h : DraftInv s) :
    DraftInv (DraftStore.copyNavigationToDraft provider reader main left type entity u s) := by
  induction left generalizing s type entity u with
  | zero => exact h.copyRelated fun _ _ _ _ hs => hs
  | succ left ih => exact h.copyRelated fun _ _ _ _ hs => ih hs

theorem DraftInv.step {reader : OdataReader} (h : DraftInv s) (e : DraftEvent) :
    DraftInv (s.step provider reader e) := by
  cases e with
  | newAction typeFQN internalKeyMap fields => exact h.createDraft _ _ _ _ _ _
  | editAction typeFQN entity =>
    simp only [DraftStore.step, stickySessionEditAction]
    split
    · exact h
    · split
      · exact h.createDraft _ _ _ _ _ _
      · exact (h.createDraft _ _ _ _ _ _).copyNavigationToDraft
  | createNavDraftData parentDraftId primaryKey navigationName fields =>
    simp only [DraftStore.step, createNavDraftData]
    split
    · exact h
    · split
      · exact h
      · exact h.createDraft _ _ _ _ _ _
  | createEntityData mainTypeFQN mainEntity navigationName fields =>
    simp only [DraftStore.step, createEntityData]
    split_ifs
    · split
      · exact h
      · split
        · exact h
        · exact h.createDraft _ _ _ _ _ _
    · exact h
  | updateEntityData table u fields => exact h.updateRow _ _ _
  | deleteEntityData table u => exact h.updateRow _ _ _
  | clearEntityDraft u => exact h.clearEntityDraft u
  | removeNewFkDraft u => exact h.removeNewFkDraft u
  | clearDraft => exact h.clearDraft

theorem DraftInv.of_reachable (h : (draftSystem provider).Reachable s) : DraftInv s := by
  refine h.invariant ?_ ?_
  · rintro s rfl
    exact ⟨List.nodup_nil, fun a ha => absurd ha List.not_mem_nil,
      fun r hr => absurd hr List.not_mem_nil, fun a ha => absurd ha List.not_mem_nil⟩
  · rintro s e s' - hs rfl
    exact hs.step e.2

/-- **What a clear leaves**: in every state of the store that sessions lead to, the clear of a
main draft leaves nothing of it, and spares the other main drafts, exactly if no draft is deeper
than two levels below it and every record of it names a table. -/
theorem clearEntityDraft_iff (h : (draftSystem provider).Reachable s) (hmain : s.IsMain m) :
    Clears s m ∧ Spares s m ↔ Shallow s m := by
  have hinv : DraftInv s := DraftInv.of_reachable h
  constructor
  · rintro ⟨hclears, -⟩
    exact hinv.shallow_of_clears hmain hclears
  · intro hshallow
    exact ⟨hinv.clears_of_shallow hmain hshallow, hinv.spares hmain⟩

/-! ### A chain of drafts -/

def parts : EdmProvider where
  getEntityType _ :=
    { fullQualifiedName := "Part".toList
      ofbizEntity := "Part".toList
      draftEntityName := some "PartDraft".toList
      navigationProperties := [⟨"Parts".toList, "Part".toList, false, false⟩]
      nodup := List.nodup_singleton _ }

def noRelated : OdataReader := ⟨fun _ _ => []⟩

def partChain : ℕ → DraftStore
  | 0 => (⟨[], [], 0⟩ : DraftStore).step parts noRelated (.newAction "Part".toList ∅ [])
  | n + 1 => (partChain n).step parts noRelated (.createNavDraftData n ∅ "Parts".toList [])

theorem reachable_partChain (n : ℕ) : (draftSystem parts).Reachable (partChain n) := by
  induction n with
  | zero => exact (System.Reachable.init rfl).tail (e := (noRelated, _)) rfl
  | succ n ih => exact ih.tail (e := (noRelated, _)) rfl

theorem clearEntityDraft_iff_partChain :
    (Clears (partChain 2) 0 ∧ Spares (partChain 2) 0 ↔ Shallow (partChain 2) 0) ∧
      ((partChain 2).clearEntityDraft 0).admins = [] :=
  ⟨clearEntityDraft_iff (reachable_partChain 2) ⟨_, rfl, rfl⟩, by decide⟩

theorem not_clears_partChain :
    (draftSystem parts).Reachable (partChain 3) ∧ IsMain (partChain 3) 0 ∧
      ¬ Clears (partChain 3) 0 := by
  refine ⟨reachable_partChain 3, ⟨_, rfl, rfl⟩, fun h => ?_⟩
  have hbelow : Below (partChain 3).parentOf 0 3 3 :=
    Below.child (Below.child (Below.child Below.root rfl) rfl) rfl
  have hgone := (h 3 3 hbelow).1
  revert hgone
  decide

end DraftStore

end OfficeAuto.Odata
