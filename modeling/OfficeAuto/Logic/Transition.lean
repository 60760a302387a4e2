import Mathlib.Logic.Basic

/-!
# Labelled transition systems

A system is a predicate of initial states and a step relation whose steps carry labels. A
state is reachable when a run of steps leads to it from an initial state, and what holds
initially and is preserved by every step holds in every reachable state
(`Reachable.invariant`).

A run whose steps all meet a condition is a run of the restricted system
(`System.restrict`), so a property of such runs is an invariant of that system. Folding a
step function over a list of labels gives what its system (`System.ofStep`) reaches
(`Reachable.foldlM`).
-/

/-- A transition system over the states `σ` with steps labelled by `ε`. -/
structure System (σ ε : Type*) where
  init : σ → Prop
  step : σ → ε → σ → Prop

namespace System

variable {σ ε : Type*} {S : System σ ε}

/-- The states that runs from initial states lead to. -/
inductive Reachable (S : System σ ε) : σ → Prop
  | init {s : σ} (h : S.init s) : Reachable S s
  | tail {s s' : σ} {e : ε} (h : Reachable S s) (hstep : S.step s e s') : Reachable S s'

/-- **The invariant rule**: what holds initially, and is preserved by every step from a
reachable state, holds in every reachable state. -/
theorem Reachable.invariant {P : σ → Prop} (hinit : ∀ s, S.init s → P s)
    (hstep : ∀ s e s', S.Reachable s → P s → S.step s e s' → P s') {s : σ}
    (h : S.Reachable s) : P s := by
  induction h with
  | init h => exact hinit _ h
  | tail hreach hlast ih => exact hstep _ _ _ hreach ih hlast

def restrict (S : System σ ε) (ok : σ → ε → Prop) : System σ ε where
  init := S.init
  step s e s' := S.step s e s' ∧ ok s e

/-- The system of a step function. A label without an outcome is not enabled. -/
def ofStep (init : σ → Prop) (step : σ → ε → Option σ) : System σ ε where
  init := init
  step s e s' := step s e = some s'

theorem Reachable.foldlM {step : σ → ε → Option σ} {s s' : σ} {es : List ε}
    (h : S.Reachable s) (hstep : ∀ e ∈ es, ∀ t t', step t e = some t' → S.step t e t')
    (hrun : es.foldlM step s = some s') : S.Reachable s' := by
  induction es generalizing s with
  | nil =>
    rw [List.foldlM_nil] at hrun
    exact Option.some.inj hrun ▸ h
  | cons e es ih =>
    rw [List.foldlM_cons] at hrun
    obtain ⟨t, hfirst, hrest⟩ := Option.bind_eq_some_iff.mp hrun
    exact ih (h.tail (hstep e List.mem_cons_self s t hfirst))
      (fun e' he' => hstep e' (List.mem_cons_of_mem e he')) hrest

end System
