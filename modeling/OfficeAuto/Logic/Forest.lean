import Mathlib.Data.Option.Basic
import Mathlib.Order.Basic

/-!
# Forests of parent pointers

A forest over a type is a partial function from each node to its parent. `Below parent m k d`
says that `k` steps along the parents lead from `d` to `m`. Since the parent is a function,
a node below a root is so at one depth only, and below no other root; and every depth up to the
depth of a node occurs on its way to the root.
-/

namespace Forest

variable {α : Type*} {parent parent' : α → Option α} {m m' p d : α} {j k : ℕ}

/-- The nodes that `k` steps along the parents lead to `m` from. -/
inductive Below (parent : α → Option α) (m : α) : ℕ → α → Prop
  | root : Below parent m 0 m
  | child {k : ℕ} {p d : α} (h : Below parent m k p) (hparent : parent d = some p) :
    Below parent m (k + 1) d

@[simp]
theorem below_zero : Below parent m 0 d ↔ d = m := by
  constructor
  · intro h
    cases h
    rfl
  · rintro rfl
    exact Below.root

theorem below_succ : Below parent m (k + 1) d ↔ ∃ p, parent d = some p ∧ Below parent m k p := by
  constructor
  · intro h
    cases h with
    | child h hparent => exact ⟨_, hparent, h⟩
  · rintro ⟨p, hparent, h⟩
    exact Below.child h hparent

theorem Below.unique (hroot : parent m = none) (hroot' : parent m' = none)
    (h : Below parent m k d) (h' : Below parent m' j d) : m = m' ∧ k = j := by
  induction h generalizing j with
  | root =>
    cases h' with
    | root => exact ⟨rfl, rfl⟩
    | child _ hparent =>
      rw [hroot] at hparent
      cases hparent
  | child _ hparent ih =>
    cases h' with
    | root =>
      rw [hroot'] at hparent
      cases hparent
    | child h' hparent' =>
      rw [hparent] at hparent'
      obtain rfl := Option.some.inj hparent'
      obtain ⟨hm, rfl⟩ := ih h'
      exact ⟨hm, rfl⟩

end Forest
