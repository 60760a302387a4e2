import Mathlib.Data.List.Basic

/-!
# Computations that throw and keep their state

A computation on a state ends normally or with an exception; what it has done to the state until
then stays. `Run` has the statements of such programs, among them a `finally` that is run in both
cases and whose own exception wins.

**The frame rule.** A reflexive and transitive relation between the states before and after that
the parts of a program keep is kept by the program (`Keeps`).

**Logs.** Where the state keeps a log, a statement about two states may hold only if the entries
that were added in between are good (`Logged`). The log itself grows in any case, and such
statements compose.
-/

abbrev Run (ε σ : Type) := σ → Option ε × σ

namespace Run

variable {ε σ τ : Type}

def skip : Run ε σ := fun s => (none, s)

def raise (e : ε) : Run ε σ := fun s => (some e, s)

def modify (f : σ → σ) : Run ε σ := fun s => (none, f s)

def andThen (a b : Run ε σ) : Run ε σ := fun s =>
  match (a s).1 with
  | none => b (a s).2
  | some e => (some e, (a s).2)

def tryCatch (a : Run ε σ) (handler : ε → Run ε σ) : Run ε σ := fun s =>
  match (a s).1 with
  | none => (none, (a s).2)
  | some e => handler e (a s).2

/-- The second computation is run in any case, and its exception comes first. -/
def tryFinally (a f : Run ε σ) : Run ε σ := fun s =>
  ((f (a s).2).1.or (a s).1, (f (a s).2).2)

def look (a : σ → Run ε σ) : Run ε σ := fun s => a s s

def when (p : σ → Bool) (a : Run ε σ) : Run ε σ := fun s => if p s then a s else (none, s)

/-! ### Relations that are kept -/

def Keeps (R : σ → σ → Prop) (a : Run ε σ) : Prop := ∀ s, R s (a s).2

variable {R : σ → σ → Prop} {a b : Run ε σ}

theorem keeps_raise [Std.Refl R] (e : ε) : Keeps R (raise e) := fun s => Std.Refl.refl s

theorem keeps_modify {f : σ → σ} (h : ∀ s, R s (f s)) : Keeps R (modify f : Run ε σ) := h

theorem Keeps.andThen [IsTrans σ R] (ha : Keeps R a) (hb : Keeps R b) :
    Keeps R (a.andThen b) := by
  intro s
  rw [Run.andThen]
  split
  · exact IsTrans.trans _ _ _ (ha s) (hb _)
  · exact ha s

theorem Keeps.tryCatch [IsTrans σ R] (ha : Keeps R a) {handler : ε → Run ε σ}
    (hhandler : ∀ e, Keeps R (handler e)) : Keeps R (a.tryCatch handler) := by
  intro s
  rw [Run.tryCatch]
  split
  · exact ha s
  · exact IsTrans.trans _ _ _ (ha s) (hhandler _ _)

theorem keeps_look {a : σ → Run ε σ} (h : ∀ s, Keeps R (a s)) : Keeps R (look a) :=
  fun s => h s s

theorem Keeps.when [Std.Refl R] (ha : Keeps R a) (p : σ → Bool) :
    Keeps R (Run.when p a) := by
  intro s
  rw [Run.when]
  split
  · exact ha s
  · exact Std.Refl.refl s

def Same {β : Type} (part : σ → β) (s s' : σ) : Prop := part s' = part s

instance {β : Type} {part : σ → β} : Std.Refl (Same part) where
  refl _ := rfl

instance {β : Type} {part : σ → β} : IsTrans σ (Same part) where
  trans _ _ _ h h' := Eq.trans h' h

def Post (P : σ → Prop) (a : Run ε σ) : Prop := ∀ s, (a s).1 = none → P (a s).2

theorem Post.andThen {P : σ → Prop} (hb : Post P b) : Post P (a.andThen b) := by
  intro s hnone
  rw [Run.andThen] at hnone ⊢
  cases ha : (a s).1 with
  | none =>
    rw [ha] at hnone
    exact hb _ hnone
  | some e =>
    rw [ha] at hnone
    exact absurd hnone (Option.some_ne_none e)

end Run

/-! ### What holds under a condition on the log -/

section Log

variable {σ ρ : Type} {log : σ → List ρ} {Good : ρ → Prop} {P Q C : Prop} {s s' s'' : σ}

/-- The log has grown, and the statement holds if all that was added is good. -/
def Logged (log : σ → List ρ) (Good : ρ → Prop) (s s' : σ) (P : Prop) : Prop :=
  ∃ new, log s' = new ++ log s ∧ ((∀ r ∈ new, Good r) → P)

theorem Logged.of_eq (hlog : log s' = log s) (h : P) : Logged log Good s s' P :=
  ⟨[], hlog, fun _ => h⟩

theorem Logged.comp (h : Logged log Good s s' P) (h' : Logged log Good s' s'' Q)
    (hcomp : P → Q → C) : Logged log Good s s'' C := by
  obtain ⟨new, hnew, hp⟩ := h
  obtain ⟨new', hnew', hq⟩ := h'
  refine ⟨new' ++ new, by rw [hnew', hnew, List.append_assoc], fun hall => ?_⟩
  exact hcomp (hp fun r hr => hall r (List.mem_append_right _ hr))
    (hq fun r hr => hall r (List.mem_append_left _ hr))

theorem Logged.mono (h : Logged log Good s s' P) (himp : P → Q) : Logged log Good s s' Q := by
  obtain ⟨new, hnew, hp⟩ := h
  exact ⟨new, hnew, fun hall => himp (hp hall)⟩

variable {R : σ → σ → Prop}

instance [Std.Refl R] : Std.Refl fun s s' => Logged log Good s s' (R s s') where
  refl s := .of_eq rfl (Std.Refl.refl s)

instance [IsTrans σ R] : IsTrans σ fun s s' => Logged log Good s s' (R s s') where
  trans _ _ _ h h' := h.comp h' (IsTrans.trans _ _ _)

end Log
