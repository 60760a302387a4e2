import Mathlib.Order.Basic
import OfficeAuto.Logic.CallTree

/-!
# Loops

A loop whose body either goes on with a new state or leaves with a result, evaluated on a
budget for the number of its passes. The body may itself use up a budget or throw.

A result of the loop is explained by an invariant (`of_loop_eq_done`), and a loop whose body
keeps an invariant without ever leaving has no result on any budget (`loop_ne_done`).

A larger budget keeps what a smaller one has come to. This is an order on outcomes
(`Outcome.Le`) that sequencing and loops respect (`Le.bind`, `loop_le`).
-/

namespace Outcome

variable {σ β : Type*}

def loop (body : σ → Outcome (σ ⊕ β)) : ℕ → σ → Outcome β
  | 0, _ => .timeout
  | n + 1, s => (body s).bind fun r =>
    match r with
    | .inl s' => loop body n s'
    | .inr b => .done b

variable {body : σ → Outcome (σ ⊕ β)} {n : ℕ} {s t : σ} {b : β}

theorem loop_succ_of_inl (h : body s = .done (.inl t)) :
    loop body (n + 1) s = loop body n t := by
  rw [loop, h]
  rfl

theorem loop_succ_of_inr (h : body s = .done (.inr b)) : loop body (n + 1) s = .done b := by
  rw [loop, h]
  rfl

theorem loop_succ_eq_done :
    loop body (n + 1) s = .done b ↔
      body s = .done (.inr b) ∨ ∃ s', body s = .done (.inl s') ∧ loop body n s' = .done b := by
  rw [loop, bind_eq_done]
  constructor
  · rintro ⟨r, hr, hb⟩
    cases r with
    | inl s' => exact Or.inr ⟨s', hr, hb⟩
    | inr c =>
      obtain rfl : c = b := by simpa using hb
      exact Or.inl hr
  · rintro (hr | ⟨s', hr, hb⟩)
    · exact ⟨.inr b, hr, rfl⟩
    · exact ⟨.inl s', hr, hb⟩

/-- **A result of a loop comes from a state that its invariant allows.** -/
theorem of_loop_eq_done {I : σ → Prop} {Q : β → Prop}
    (hstep : ∀ s s', I s → body s = .done (.inl s') → I s')
    (hleave : ∀ s b, I s → body s = .done (.inr b) → Q b)
    (hs : I s) (h : loop body n s = .done b) : Q b := by
  -- The induction is on the passes; the invariant moves to the next state.
  induction n generalizing s with
  | zero => exact absurd h (by simp [loop])
  | succ n ih =>
    obtain hb | ⟨s', hb, hrest⟩ := loop_succ_eq_done.mp h
    · exact hleave s b hs hb
    · exact ih (hstep s s' hs hb) hrest

/-- **A loop that keeps an invariant without leaving has no result.** -/
theorem loop_ne_done {I : σ → Prop}
    (hstep : ∀ s r, I s → body s = .done r → ∃ s', r = .inl s' ∧ I s') (hs : I s) :
    loop body n s ≠ .done b := by
  intro h
  refine of_loop_eq_done (Q := fun _ => False) (fun s s' hI hb => ?_) (fun s c hI hb => ?_) hs h
  · obtain ⟨t, ht, hI'⟩ := hstep s _ hI hb
    obtain rfl : s' = t := Sum.inl.inj ht
    exact hI'
  · obtain ⟨t, ht, -⟩ := hstep s _ hI hb
    exact absurd ht (by simp)

/-! ### Larger budgets -/

/-- The second outcome is the first one, unless the budget of the first one was used up. -/
def Le {α : Type*} (r s : Outcome α) : Prop := r = .timeout ∨ r = s

section Le

variable {α γ : Type*} {r r' : Outcome α} {f f' : α → Outcome γ}

theorem Le.refl (r : Outcome α) : Le r r := Or.inr rfl

theorem Le.eq_done {a : α} (h : Le r r') (hr : r = .done a) : r' = .done a := by
  obtain h | h := h
  · exact absurd (h.symm.trans hr) (by simp)
  · exact h.symm.trans hr

theorem Le.bind (h : Le r r') (hf : ∀ a, Le (f a) (f' a)) : Le (r.bind f) (r'.bind f') := by
  obtain rfl | rfl := h
  · exact Or.inl rfl
  · cases r with
    | timeout => exact Or.inl rfl
    | threw => exact Or.inr rfl
    | done a => exact hf a

theorem Le.ite {b : Bool} {s s' : Outcome α} (hr : Le r r') (hs : Le s s') :
    Le (if b then r else s) (if b then r' else s') := by
  cases b with
  | true => exact hr
  | false => exact hs

/-- **More passes, each on a larger budget, keep the result of a loop.** -/
theorem loop_le {body' : σ → Outcome (σ ⊕ β)} {m : ℕ} (hbody : ∀ s, Le (body s) (body' s))
    (hnm : n ≤ m) : Le (loop body n s) (loop body' m s) := by
  induction n generalizing m s with
  | zero => exact Or.inl rfl
  | succ n ih =>
    obtain ⟨k, rfl⟩ : ∃ k, m = k + 1 := ⟨m - 1, by omega⟩
    refine (hbody s).bind fun r => ?_
    cases r with
    | inl s' => exact ih (by omega)
    | inr b => exact Le.refl _

end Le

end Outcome
