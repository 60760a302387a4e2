import Mathlib.Logic.Basic

/-!
# Tests that may throw

A test returns a truth value or throws. `Decides x p` says that the test `x` returns whether `p`
holds; it composes along the operator `&&`, which runs its second test only after a true one, and
along a comparison of lists element by element.
-/

namespace OfficeAuto

variable {α β ε : Type*}

def andThen (x y : Except ε Bool) : Except ε Bool := do
  if ← x then y else pure false

theorem andThen_true (x : Except ε Bool) : andThen x (.ok true) = x := by
  rcases x with e | r
  · rfl
  · cases r <;> rfl

def Decides (x : Except ε Bool) (p : Prop) : Prop :=
  ∃ r, x = .ok r ∧ (r = true ↔ p)

section Decides

variable {x y : Except ε Bool} {p p' : Prop}

theorem Decides.congr (h : Decides x p) (hp : p ↔ p') : Decides x p' := by
  obtain ⟨r, rfl, hr⟩ := h
  exact ⟨r, rfl, hr.trans hp⟩

theorem Decides.ok (r : Bool) (h : r = true ↔ p) : Decides (.ok r : Except ε Bool) p :=
  ⟨r, rfl, h⟩

theorem Decides.no (h : ¬ p) : Decides (.ok false : Except ε Bool) p :=
  ⟨false, rfl, by simp [h]⟩

theorem Decides.andThen (hx : Decides x p) (hy : Decides y p') :
    Decides (andThen x y) (p ∧ p') := by
  obtain ⟨r, rfl, hr⟩ := hx
  by_cases hp : p
  · obtain rfl : r = true := hr.mpr hp
    exact hy.congr (by simp [hp])
  · obtain rfl : r = false := by simpa [hp] using hr
    exact ⟨false, rfl, by simp [hp]⟩

theorem Decides.eq_true_iff (h : Decides x p) : x = .ok true ↔ p := by
  obtain ⟨r, rfl, hr⟩ := h
  rw [← hr, Except.ok.injEq]

theorem Decides.returns (h : Decides x p) : ∃ r, x = .ok r := by
  obtain ⟨r, h, -⟩ := h
  exact ⟨r, h⟩

theorem Decides.unique (hx : Decides x p) (hy : Decides y p) : x = y := by
  obtain ⟨r, rfl, hr⟩ := hx
  obtain ⟨s, rfl, hs⟩ := hy
  rw [Bool.eq_iff_iff.mpr (hr.trans hs.symm)]

end Decides

/-! ### Lists -/

/-- The comparison of two lists that stops at the first elements that are not equal. -/
def equalsAll (eq : α → α → Except ε Bool) : List α → List α → Except ε Bool
  | [], [] => .ok true
  | x :: xs, y :: ys => andThen (eq x y) (equalsAll eq xs ys)
  | _, _ => .ok false

theorem decides_equalsAll {eq : α → α → Except ε Bool} {q : α → β} {xs ys : List α}
    (h : ∀ x ∈ xs, ∀ y ∈ ys, Decides (eq x y) (q x = q y)) :
    Decides (equalsAll eq xs ys) (xs.map q = ys.map q) := by
  induction xs generalizing ys with
  | nil =>
    cases ys with
    | nil => exact .ok true (by simp)
    | cons y ys => exact .no (by simp)
  | cons x xs ih =>
    cases ys with
    | nil => exact .no (by simp)
    | cons y ys =>
      have hhead := h x List.mem_cons_self y List.mem_cons_self
      have htail := ih fun x hx y hy =>
        h x (List.mem_cons_of_mem _ hx) y (List.mem_cons_of_mem _ hy)
      exact (hhead.andThen htail).congr (by simp)

end OfficeAuto
