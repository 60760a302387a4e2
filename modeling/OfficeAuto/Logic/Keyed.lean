import Mathlib.Algebra.BigOperators.Group.List.Basic
import Mathlib.Algebra.Order.Group.Nat
import Mathlib.Algebra.Ring.Nat
import Mathlib.Data.List.Pairwise

/-!
# Collections with keys

A collection without duplicates is filled item by item. A new item may be refused, by itself
or because it cannot be compared with an item that is there; it may be merged into one that has
its key; otherwise it is appended. Lists are the case without refusal and without merging.

A filling that refuses and merges nothing keeps all items in their order
(`Keying.insertAll_of_fresh`), and for a weight that merging loses it is the only one that
keeps the total (`Keying.fresh_of_insertAll`).
-/

/-- What a collection does with a new item. In `comparable` and `merges` the new item comes
first, in `merge` the old one. -/
structure Keying (α : Type*) where
  admits : α → Bool
  comparable : α → α → Bool
  merges : α → α → Bool
  merge : α → α → α

namespace Keying

variable {α : Type*} (K : Keying α)

def place (x : α) : List α → List α
  | [] => [x]
  | y :: ys => if K.merges x y then K.merge y x :: ys else y :: place x ys

def insert (items : List α) (x : α) : Option (List α) :=
  if K.admits x && items.all (K.comparable x) then some (K.place x items) else none

def insertAll (items xs : List α) : Option (List α) := xs.foldlM K.insert items

/-- The new items are admitted, comparable with those before them and merged with none. -/
def Fresh (xs : List α) : Prop :=
  (∀ x ∈ xs, K.admits x = true) ∧
    xs.Pairwise fun y x => K.comparable x y = true ∧ K.merges x y = false

variable {K} {items xs zs : List α} {x : α}

theorem place_of_forall (h : ∀ y ∈ items, K.merges x y = false) :
    K.place x items = items ++ [x] := by
  induction items with
  | nil => rfl
  | cons y items ih =>
    rw [place, h y List.mem_cons_self, ih fun z hz => h z (List.mem_cons_of_mem y hz)]
    rfl

theorem place_lt {weight : α → ℕ} (hweight : ∀ x y, weight (K.merge y x) < weight y + weight x)
    (h : ∃ y ∈ items, K.merges x y = true) :
    ((K.place x items).map weight).sum < (items.map weight).sum + weight x := by
  induction items with
  | nil =>
    obtain ⟨y, hy, -⟩ := h
    exact absurd hy List.not_mem_nil
  | cons y items ih =>
    rw [place]
    by_cases hy : K.merges x y = true
    · have hlt := hweight x y
      simp only [if_pos hy, List.map_cons, List.sum_cons]
      omega
    · obtain ⟨z, hz, hxz⟩ := h
      have hz' : z ∈ items := (List.mem_cons.mp hz).resolve_left fun h => hy (h ▸ hxz)
      have hlt := ih ⟨z, hz', hxz⟩
      simp only [if_neg hy, List.map_cons, List.sum_cons]
      omega

theorem insert_eq_some (h : K.insert items x = some zs) :
    K.admits x = true ∧ (∀ y ∈ items, K.comparable x y = true) ∧ zs = K.place x items := by
  unfold insert at h
  split_ifs at h with hguard
  obtain ⟨hadmits, hcomparable⟩ := Bool.and_eq_true_iff.mp hguard
  exact ⟨hadmits, List.all_eq_true.mp hcomparable, (Option.some.inj h).symm⟩

theorem insert_of_forall (hadmits : K.admits x = true)
    (h : ∀ y ∈ items, K.comparable x y = true ∧ K.merges x y = false) :
    K.insert items x = some (items ++ [x]) := by
  have hall : items.all (K.comparable x) = true := List.all_eq_true.mpr fun y hy => (h y hy).1
  rw [insert, hadmits, hall, place_of_forall fun y hy => (h y hy).2]
  rfl

/-- **Fresh items are kept as they are.** -/
theorem insertAll_of_fresh (h : K.Fresh (items ++ xs)) :
    K.insertAll items xs = some (items ++ xs) := by
  induction xs generalizing items with
  | nil => simp [insertAll]
  | cons x xs ih =>
    have hpair := (List.pairwise_append.mp h.2).2.2
    have hinsert : K.insert items x = some (items ++ [x]) :=
      insert_of_forall (h.1 x (List.mem_append_right _ List.mem_cons_self))
        fun y hy => hpair y hy x List.mem_cons_self
    have hsplit : items ++ x :: xs = items ++ [x] ++ xs := by simp
    rw [hsplit] at h ⊢
    rw [insertAll, List.foldlM_cons, hinsert]
    exact ih h

theorem insert_cases {weight : α → ℕ}
    (hweight : ∀ x y, weight (K.merge y x) < weight y + weight x)
    (h : K.insert items x = some zs) :
    (zs = items ++ [x] ∧ ∀ y ∈ items, K.merges x y = false) ∨
      (zs.map weight).sum < (items.map weight).sum + weight x := by
  obtain ⟨-, -, rfl⟩ := insert_eq_some h
  by_cases hmerge : ∃ y ∈ items, K.merges x y = true
  · exact Or.inr (place_lt hweight hmerge)
  · have hnot : ∀ y ∈ items, K.merges x y = false := fun y hy =>
      Bool.eq_false_iff.mpr fun hy' => hmerge ⟨y, hy, hy'⟩
    exact Or.inl ⟨place_of_forall hnot, hnot⟩

theorem insertAll_le {weight : α → ℕ}
    (hweight : ∀ x y, weight (K.merge y x) < weight y + weight x)
    (h : K.insertAll items xs = some zs) :
    (zs.map weight).sum ≤ (items.map weight).sum + (xs.map weight).sum := by
  induction xs generalizing items with
  | nil =>
    obtain rfl : items = zs := Option.some.inj h
    simp
  | cons x xs ih =>
    obtain ⟨ys, hys, hrest⟩ := Option.bind_eq_some_iff.mp h
    have hle := ih hrest
    rw [List.map_cons, List.sum_cons]
    obtain ⟨rfl, -⟩ | hlt := insert_cases hweight hys
    · rw [List.map_append, List.sum_append, List.map_singleton, List.sum_singleton] at hle
      omega
    · omega

/-- **A filling that keeps the total has merged nothing**, and keeps the items as they are. -/
theorem fresh_of_insertAll {weight : α → ℕ}
    (hweight : ∀ x y, weight (K.merge y x) < weight y + weight x) (hitems : K.Fresh items)
    (h : K.insertAll items xs = some zs)
    (htotal : (items.map weight).sum + (xs.map weight).sum ≤ (zs.map weight).sum) :
    zs = items ++ xs ∧ K.Fresh zs := by
  induction xs generalizing items with
  | nil =>
    obtain rfl : items = zs := Option.some.inj h
    exact ⟨(List.append_nil _).symm, hitems⟩
  | cons x xs ih =>
    obtain ⟨ys, hys, hrest⟩ := Option.bind_eq_some_iff.mp h
    obtain ⟨hadmits, hcomparable, -⟩ := insert_eq_some hys
    have hle := insertAll_le hweight hrest
    rw [List.map_cons, List.sum_cons] at htotal
    obtain ⟨rfl, hmerges⟩ | hlt := insert_cases hweight hys
    · have hfresh : K.Fresh (items ++ [x]) := by
        refine ⟨fun y hy => ?_, List.pairwise_append.mpr
          ⟨hitems.2, List.pairwise_singleton _ _, fun y hy z hz => ?_⟩⟩
        · obtain hy | hy := List.mem_append.mp hy
          · exact hitems.1 y hy
          · rwa [List.mem_singleton.mp hy]
        · rw [List.mem_singleton.mp hz]
          exact ⟨hcomparable y hy, hmerges y hy⟩
      rw [List.append_cons]
      refine ih hfresh hrest ?_
      rw [List.map_append, List.sum_append, List.map_singleton, List.sum_singleton]
      omega
    · omega

theorem mem_insertAll {P : α → Prop} (hmerge : ∀ x y, P y → P x → P (K.merge y x))
    (hitems : ∀ y ∈ items, P y) (hxs : ∀ x ∈ xs, P x) (h : K.insertAll items xs = some zs) :
    ∀ z ∈ zs, P z := by
  induction xs generalizing items with
  | nil =>
    obtain rfl : items = zs := Option.some.inj h
    exact hitems
  | cons x xs ih =>
    obtain ⟨ys, hys, hrest⟩ := Option.bind_eq_some_iff.mp h
    obtain ⟨-, -, rfl⟩ := insert_eq_some hys
    have hx := hxs x List.mem_cons_self
    refine ih (fun y hy => ?_) (fun z hz => hxs z (List.mem_cons_of_mem x hz)) hrest
    clear h hys hrest ih
    induction items with
    | nil => rwa [List.mem_singleton.mp hy]
    | cons z items ihplace =>
      have hz := hitems z List.mem_cons_self
      rw [place] at hy
      split_ifs at hy
      · obtain rfl | hy := List.mem_cons.mp hy
        · exact hmerge x z hz hx
        · exact hitems y (List.mem_cons_of_mem z hy)
      · obtain rfl | hy := List.mem_cons.mp hy
        · exact hz
        · exact ihplace (fun w hw => hitems w (List.mem_cons_of_mem z hw)) hy

end Keying
