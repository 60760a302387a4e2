import Mathlib.Data.List.Dedup
import Mathlib.Data.List.Perm.Subperm

/-!
# Passes that mark what they have seen

A pass over the items of a list treats the group of each item that is not marked, and then marks
the items of that group, and one further item of its own choice. Where this further item belongs to
another group the order of the items decides which groups are treated. `forall_perm_mem_visited_iff`
is the exact condition for a group to be treated in every order: it has an item that no other group
marks.
-/

/-- How items are grouped, and which item the treatment of a group marks besides its own. -/
structure MarkedPass (α β : Type*) where
  groupOf : α → β
  extra : β → α

namespace MarkedPass

variable {α β : Type*} (P : MarkedPass α β)

def Marks (g : β) (a : α) : Prop := P.groupOf a = g ∨ a = P.extra g

variable [DecidableEq α] [DecidableEq β]

instance (g : β) (a : α) : Decidable (P.Marks g a) := inferInstanceAs (Decidable (_ ∨ _))

/-- The groups that a pass treats, in this order, where those in the first list have been treated
before. -/
def visited (seen : List β) : List α → List β
  | [] => []
  | a :: items =>
    if ∃ g ∈ seen, P.Marks g a then visited seen items
    else P.groupOf a :: visited (seen ++ [P.groupOf a]) items

variable {P} {seen : List β} {items : List α} {a : α} {g : β}

theorem visited_cons_of_marks (h : ∃ g ∈ seen, P.Marks g a) :
    P.visited seen (a :: items) = P.visited seen items := by
  rw [visited, if_pos h]

theorem visited_cons_of_not_marks (h : ¬∃ g ∈ seen, P.Marks g a) :
    P.visited seen (a :: items) = P.groupOf a :: P.visited (seen ++ [P.groupOf a]) items := by
  rw [visited, if_neg h]

theorem exists_of_mem_visited (h : g ∈ P.visited seen items) :
    ∃ a ∈ items, P.groupOf a = g ∧ ∀ g' ∈ seen, ¬P.Marks g' a := by
  induction items generalizing seen with
  | nil => exact absurd h List.not_mem_nil
  | cons a items ih =>
    by_cases hmarks : ∃ g ∈ seen, P.Marks g a
    · rw [visited_cons_of_marks hmarks] at h
      obtain ⟨b, hb, hg⟩ := ih h
      exact ⟨b, List.mem_cons_of_mem a hb, hg⟩
    · rw [visited_cons_of_not_marks hmarks] at h
      rcases List.mem_cons.mp h with rfl | h
      · exact ⟨a, List.mem_cons_self, rfl, fun g' hg' hm => hmarks ⟨g', hg', hm⟩⟩
      · obtain ⟨b, hb, hg, hb'⟩ := ih h
        exact ⟨b, List.mem_cons_of_mem a hb, hg, fun g' hg' =>
          hb' g' (List.mem_append_left _ hg')⟩

theorem not_mem_visited_of_mem (hg : g ∈ seen) : g ∉ P.visited seen items := by
  intro h
  obtain ⟨a, -, ha, hmarks⟩ := exists_of_mem_visited h
  exact hmarks g hg (.inl ha)

/-- **No group is treated twice.** -/
theorem nodup_visited : (P.visited seen items).Nodup := by
  induction items generalizing seen with
  | nil => exact List.nodup_nil
  | cons a items ih =>
    by_cases hmarks : ∃ g ∈ seen, P.Marks g a
    · rw [visited_cons_of_marks hmarks]
      exact ih
    · rw [visited_cons_of_not_marks hmarks, List.nodup_cons]
      exact ⟨not_mem_visited_of_mem List.mem_concat_self, ih⟩

/-- **The group of an item that no other group marks is treated.** -/
theorem mem_visited_of_forall (ha : a ∈ items)
    (hseen : ∀ g ∈ seen, P.groupOf a ≠ g → a ≠ P.extra g)
    (hitems : ∀ b ∈ items, P.groupOf b ≠ P.groupOf a → a ≠ P.extra (P.groupOf b)) :
    P.groupOf a ∈ seen ∨ P.groupOf a ∈ P.visited seen items := by
  induction items generalizing seen with
  | nil => exact absurd ha List.not_mem_nil
  | cons b items ih =>
    have hrest := fun c hc => hitems c (List.mem_cons_of_mem b hc)
    by_cases hmarks : ∃ g ∈ seen, P.Marks g b
    · rw [visited_cons_of_marks hmarks]
      rcases List.mem_cons.mp ha with rfl | ha
      · -- the item itself is marked, so that its group is one of those before
        obtain ⟨g, hg, hm⟩ := hmarks
        by_cases heq : P.groupOf a = g
        · exact .inl (heq ▸ hg)
        · exact (hm.elim heq (hseen g hg heq)).elim
      · exact ih ha hseen hrest
    · rw [visited_cons_of_not_marks hmarks]
      rcases eq_or_ne (P.groupOf b) (P.groupOf a) with heq | hne
      · exact .inr (heq ▸ List.mem_cons_self)
      · have ha' : a ∈ items := (List.mem_cons.mp ha).resolve_left fun h => hne (h ▸ rfl)
        have hseen' : ∀ g ∈ seen ++ [P.groupOf b], P.groupOf a ≠ g → a ≠ P.extra g := by
          intro g hg
          rcases List.mem_append.mp hg with hg | hg
          · exact hseen g hg
          · rw [List.mem_singleton] at hg
            exact hg ▸ fun _ => hitems b List.mem_cons_self hne
        rcases ih ha' hseen' hrest with h | h
        · refine .inl ((List.mem_append.mp h).resolve_right fun h => ?_)
          exact hne (List.mem_singleton.mp h).symm
        · exact .inr (List.mem_cons_of_mem _ h)

theorem not_mem_visited_of_forall
    (h : ∀ a ∈ items, P.groupOf a = g → ∃ g' ∈ seen, P.Marks g' a) : g ∉ P.visited seen items := by
  intro hg
  obtain ⟨a, ha, hga, hmarks⟩ := exists_of_mem_visited hg
  obtain ⟨g', hg', hm⟩ := h a ha hga
  exact hmarks g' hg' hm

theorem visited_append (items' : List α) :
    P.visited seen (items ++ items') =
      P.visited seen items ++ P.visited (seen ++ P.visited seen items) items' := by
  induction items generalizing seen with
  | nil => rw [List.nil_append, visited, List.nil_append, List.append_nil]
  | cons a items ih =>
    rw [List.cons_append]
    by_cases hmarks : ∃ g ∈ seen, P.Marks g a
    · rw [visited_cons_of_marks hmarks, visited_cons_of_marks hmarks, ih]
    · rw [visited_cons_of_not_marks hmarks, visited_cons_of_not_marks hmarks, ih,
        List.append_assoc, List.singleton_append, List.cons_append]

theorem exists_perm_not_mem_visited
    (h : ∀ a ∈ items, P.groupOf a = g →
      ∃ b ∈ items, P.groupOf b ≠ g ∧ a = P.extra (P.groupOf b)) :
    ∃ items', items'.Perm items ∧ g ∉ P.visited [] items' := by
  -- the items whose groups mark items of the group `g` come first
  let first (b : α) : Bool := P.groupOf b ≠ g ∧ P.groupOf (P.extra (P.groupOf b)) = g
  refine ⟨items.filter first ++ items.filter (!first ·), items.filter_append_perm first, ?_⟩
  have hfirst : ∀ b ∈ items.filter first, P.groupOf b ≠ g ∧ P.groupOf (P.extra (P.groupOf b)) = g :=
    fun b hb => of_decide_eq_true (List.mem_filter.mp hb).2
  rw [visited_append, List.nil_append, List.mem_append, not_or]
  constructor
  · intro hg
    obtain ⟨b, hb, hbg, -⟩ := exists_of_mem_visited hg
    exact (hfirst b hb).1 hbg
  · refine not_mem_visited_of_forall fun a ha hga => ?_
    obtain ⟨b, hb, hne, rfl⟩ := h a (List.mem_of_mem_filter ha) hga
    have hb' : b ∈ items.filter first :=
      List.mem_filter.mpr ⟨hb, decide_eq_true ⟨hne, hga⟩⟩
    -- none of these items is one that their groups mark
    have hvisited : P.groupOf b ∈ P.visited [] (items.filter first) := by
      refine (mem_visited_of_forall hb' (fun g' hg' => absurd hg' List.not_mem_nil) ?_).resolve_left
        List.not_mem_nil
      rintro c hc - rfl
      exact (hfirst _ hb').1 (hfirst c hc).2
    exact ⟨P.groupOf b, hvisited, .inr rfl⟩

/-- **A group is treated in every order** exactly if it has an item that no other group marks. -/
theorem forall_perm_mem_visited_iff :
    (∀ items', items'.Perm items → g ∈ P.visited [] items') ↔
      ∃ a ∈ items, P.groupOf a = g ∧
        ∀ b ∈ items, P.groupOf b ≠ g → a ≠ P.extra (P.groupOf b) := by
  constructor
  · intro h
    by_contra hnone
    push Not at hnone
    obtain ⟨items', hperm, hg⟩ := exists_perm_not_mem_visited hnone
    exact hg (h items' hperm)
  · rintro ⟨a, ha, rfl, hitems⟩ items' hperm
    refine (mem_visited_of_forall (hperm.mem_iff.mpr ha) (fun g hg => absurd hg List.not_mem_nil)
      fun b hb => hitems b (hperm.mem_iff.mp hb)).resolve_left List.not_mem_nil

/-! ### What the groups contribute -/

def groups (P : MarkedPass α β) (items : List α) : List β := (items.map P.groupOf).dedup

omit [DecidableEq α] in
theorem mem_groups : g ∈ P.groups items ↔ ∃ a ∈ items, P.groupOf a = g := by
  rw [groups, List.mem_dedup, List.mem_map]

theorem visited_subset_groups : P.visited seen items ⊆ P.groups items := by
  intro g hg
  obtain ⟨a, ha, hga, -⟩ := exists_of_mem_visited hg
  exact mem_groups.mpr ⟨a, ha, hga⟩

omit [DecidableEq α] in
theorem groups_subset_of_perm {items' : List α} (h : items'.Perm items) :
    P.groups items' ⊆ P.groups items := by
  intro g hg
  obtain ⟨a, ha, hga⟩ := mem_groups.mp hg
  exact mem_groups.mpr ⟨a, h.mem_iff.mp ha, hga⟩

omit [DecidableEq α] [DecidableEq β] in
/-- The lists without repetitions have the same contributions up to their order exactly if the
smaller one has all members that contribute. -/
theorem perm_filterMap_iff {γ : Type*} (f : β → Option γ) {gs gs' : List β} (hgs : gs.Nodup)
    (hgs' : gs'.Nodup) (hsubset : gs ⊆ gs') :
    (gs.filterMap f).Perm (gs'.filterMap f) ↔ ∀ g ∈ gs', (f g).isSome → g ∈ gs := by
  have hfilter : ∀ l : List β, (l.filter fun g => (f g).isSome).filterMap f = l.filterMap f := by
    intro l
    rw [List.filterMap_filter]
    refine List.filterMap_congr fun g _ => ?_
    cases f g <;> rfl
  classical
  constructor
  · -- a group that contributes and is missing makes the contributions fewer by one
    intro hperm g hg hsome
    by_contra hnot
    have hsub : gs.Subperm (gs'.erase g) := by
      refine hgs.subperm fun g' hg' => (List.mem_erase_of_ne ?_).mpr (hsubset hg')
      rintro rfl
      exact hnot hg'
    obtain ⟨c, hc⟩ := Option.isSome_iff_exists.mp hsome
    obtain ⟨l, hl, hsublist⟩ := hsub
    have hle : (gs.filterMap f).length ≤ ((gs'.erase g).filterMap f).length :=
      (hl.filterMap f).length_eq ▸ (hsublist.filterMap f).length_le
    have hcons := (List.perm_cons_erase hg).filterMap f
    rw [List.filterMap_cons_some hc] at hcons
    have hlength := hperm.length_eq
    rw [hcons.length_eq, List.length_cons] at hlength
    omega
  · -- on the groups that contribute the two lists have the same members
    intro h
    rw [← hfilter gs, ← hfilter gs']
    refine List.Perm.filterMap f ((List.perm_ext_iff_of_nodup (hgs.filter _) (hgs'.filter _)).mpr
      fun g => ?_)
    rw [List.mem_filter, List.mem_filter]
    exact ⟨fun hg => ⟨hsubset hg.1, hg.2⟩, fun hg => ⟨h g hg.1 hg.2, hg.2⟩⟩

/-- **Every order has the contributions of all groups** exactly if each group with a contribution
has an item that no other group marks. -/
theorem forall_perm_filterMap_iff {γ : Type*} (f : β → Option γ) :
    (∀ items', items'.Perm items →
      ((P.visited [] items').filterMap f).Perm ((P.groups items).filterMap f)) ↔
    ∀ g ∈ P.groups items, (f g).isSome → ∃ a ∈ items, P.groupOf a = g ∧
      ∀ b ∈ items, P.groupOf b ≠ g → a ≠ P.extra (P.groupOf b) := by
  have hcontributions : ∀ items', items'.Perm items →
      (((P.visited [] items').filterMap f).Perm ((P.groups items).filterMap f) ↔
        ∀ g ∈ P.groups items, (f g).isSome → g ∈ P.visited [] items') := fun items' hperm =>
    perm_filterMap_iff f nodup_visited (List.nodup_dedup _)
      (List.Subset.trans visited_subset_groups (groups_subset_of_perm hperm))
  constructor
  · intro h g hg hsome
    exact forall_perm_mem_visited_iff.mp fun items' hperm =>
      (hcontributions items' hperm).mp (h items' hperm) g hg hsome
  · intro h items' hperm
    exact (hcontributions items' hperm).mpr fun g hg hsome =>
      forall_perm_mem_visited_iff.mpr (h g hg hsome) items' hperm

/-! ### The loop -/

/-- **A loop that looks an item up among the marked ones** is one over the groups it treats. -/
theorem foldlM_eq_foldlM_visited {ε : Type*} {σ : Type*} {treat : σ → β → Except ε σ}
    {marked : σ → α → Prop} [∀ s a, Decidable (marked s a)] {domain : List α}
    (htreat : ∀ s g s', treat s g = .ok s' → ∀ a ∈ domain, marked s' a ↔ marked s a ∨ P.Marks g a)
    (hitems : items ⊆ domain) {s : σ} (hs : ∀ a ∈ domain, marked s a ↔ ∃ g ∈ seen, P.Marks g a) :
    (items.foldlM (fun s a => if marked s a then .ok s else treat s (P.groupOf a)) s) =
      (P.visited seen items).foldlM treat s := by
  induction items generalizing seen s with
  | nil => rfl
  | cons a items ih =>
    obtain ⟨ha, hitems⟩ := List.cons_subset.mp hitems
    rw [List.foldlM_cons]
    by_cases hmarks : ∃ g ∈ seen, P.Marks g a
    · rw [if_pos ((hs a ha).mpr hmarks), visited_cons_of_marks hmarks]
      exact ih hitems hs
    · rw [if_neg fun h => hmarks ((hs a ha).mp h), visited_cons_of_not_marks hmarks,
        List.foldlM_cons]
      cases hcase : treat s (P.groupOf a) with
      | error e => rfl
      | ok s' =>
        refine ih hitems fun b hb => ?_
        rw [htreat s _ s' hcase b hb, hs b hb]
        simp only [List.mem_append, List.mem_singleton, or_and_right, exists_or, exists_eq_left]

end MarkedPass
