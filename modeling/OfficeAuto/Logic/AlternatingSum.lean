import Mathlib.Algebra.BigOperators.Group.List.Basic
import Mathlib.Algebra.Group.Nat.Even
import Mathlib.Algebra.Order.Monoid.Defs
import Mathlib.Tactic.Abel

/-!
# Sums with alternating weights

The members of a list are weighed by two functions in turn, and the weights are added. The place of
a member decides by which function it is weighed; so a list that is one longer at the front is
weighed the other way round, and both ways together weigh every member by both functions
(`alternatingSum_add_swap`).

Such a sum is a check on a list. It changes by the difference of two weights when one member is
replaced (`exists_alternatingSum_replace`), and by the difference of two differences when two
neighbours change places (`exists_alternatingSum_exchange`).
-/

variable {α M : Type*} [AddCommGroup M]

/-- The sum of a list whose members are weighed by `u` and by `v` in turn. -/
def alternatingSum (u v : α → M) : List α → M
  | [] => 0
  | a :: l => u a + alternatingSum v u l

namespace AlternatingSum

variable {u v : α → M} {a b : α} {l l' : List α}

theorem alternatingSum_append :
    alternatingSum u v (l ++ l') = alternatingSum u v l +
      if Even l.length then alternatingSum u v l' else alternatingSum v u l' := by
  induction l generalizing u v with
  | nil => simp [alternatingSum]
  | cons a l ih =>
    rw [List.cons_append, alternatingSum, alternatingSum, ih, add_assoc, List.length_cons]
    by_cases heven : Even l.length
    · rw [if_pos heven, if_neg (by rwa [Nat.even_add_one, not_not])]
    · rw [if_neg heven, if_pos (by rwa [Nat.even_add_one])]

theorem alternatingSum_add_swap :
    alternatingSum u v l + alternatingSum v u l = (l.map fun a => u a + v a).sum := by
  induction l generalizing u v with
  | nil => exact add_zero 0
  | cons a l ih =>
    rw [alternatingSum, alternatingSum, add_add_add_comm, ih, List.map_cons, List.sum_cons]
    congr 2
    exact List.map_congr_left fun b _ => add_comm _ _

theorem exists_alternatingSum_replace (u v : α → M) (l l' : List α) (a b : α) :
    ∃ w, (w = u ∨ w = v) ∧ alternatingSum u v (l ++ b :: l') =
      alternatingSum u v (l ++ a :: l') + (w b - w a) := by
  rw [alternatingSum_append, alternatingSum_append]
  split_ifs
  · refine ⟨u, Or.inl rfl, ?_⟩
    rw [alternatingSum, alternatingSum]
    abel
  · refine ⟨v, Or.inr rfl, ?_⟩
    rw [alternatingSum, alternatingSum]
    abel

/-- Two neighbours that change places: the sum changes by the difference of what they weigh more
by one function than by the other. -/
theorem exists_alternatingSum_exchange (u v : α → M) (l l' : List α) (a b : α) :
    ∃ w w', (w = u ∧ w' = v ∨ w = v ∧ w' = u) ∧ alternatingSum u v (l ++ b :: a :: l') =
      alternatingSum u v (l ++ a :: b :: l') + ((w b - w' b) - (w a - w' a)) := by
  rw [alternatingSum_append, alternatingSum_append]
  split_ifs
  · refine ⟨u, v, Or.inl ⟨rfl, rfl⟩, ?_⟩
    simp only [alternatingSum]
    abel
  · refine ⟨v, u, Or.inr ⟨rfl, rfl⟩, ?_⟩
    simp only [alternatingSum]
    abel

section Order

variable [PartialOrder M] [IsOrderedAddMonoid M]

theorem alternatingSum_nonneg (hu : ∀ a ∈ l, 0 ≤ u a) (hv : ∀ a ∈ l, 0 ≤ v a) :
    0 ≤ alternatingSum u v l := by
  induction l generalizing u v with
  | nil => exact le_rfl
  | cons a l ih =>
    rw [List.forall_mem_cons] at hu hv
    exact add_nonneg hu.1 (ih hv.2 hu.2)

theorem alternatingSum_le {m : M} (hu : ∀ a ∈ l, u a ≤ m) (hv : ∀ a ∈ l, v a ≤ m) :
    alternatingSum u v l ≤ l.length • m := by
  induction l generalizing u v with
  | nil => exact (zero_nsmul m).ge
  | cons a l ih =>
    rw [List.forall_mem_cons] at hu hv
    rw [alternatingSum, List.length_cons, succ_nsmul']
    exact add_le_add hu.1 (ih hv.2 hu.2)

end Order

end AlternatingSum
