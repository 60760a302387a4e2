import Mathlib.Data.List.Basic

/-!
# Alternatives that are tried in turn

Alternatives that may fail are tried one after the other until one of them succeeds. Only some
failures let the next one have its turn; the others end the whole. `firstOk_append_eq_ok_iff` says
when the success of one alternative is what is returned, after others that fail.
-/

namespace Fallback

variable {ε α σ : Type*}

/-- The result of alternatives with these results, where `last` is the failure if all of them
fail. -/
def firstOk (caught : ε → Bool) (last : ε) : List (Except ε α) → Except ε α
  | [] => .error last
  | .ok a :: _ => .ok a
  | .error e :: rs => if caught e then firstOk caught last rs else .error e

def run (caught : ε → Bool) (last : ε) : List (σ → Except ε α × σ) → σ → Except ε α × σ
  | [], s => (.error last, s)
  | a :: as, s =>
    match (a s).1 with
    | .ok b => (.ok b, (a s).2)
    | .error e => if caught e then run caught last as (a s).2 else (.error e, (a s).2)

variable {caught : ε → Bool} {last : ε}

theorem run_map {ι : Type*} {P : σ → Prop} {alternative : ι → σ → Except ε α × σ}
    {result : ι → Except ε α}
    (h : ∀ i s, P s → (alternative i s).1 = result i ∧ P (alternative i s).2) (is : List ι) {s : σ}
    (hs : P s) :
    (run caught last (is.map alternative) s).1 = firstOk caught last (is.map result) ∧
      P (run caught last (is.map alternative) s).2 := by
  induction is generalizing s with
  | nil => exact ⟨rfl, hs⟩
  | cons i is ih =>
    obtain ⟨hresult, hP⟩ := h i s hs
    rw [List.map_cons, List.map_cons, run, hresult]
    cases result i with
    | ok a => exact ⟨rfl, hP⟩
    | error e =>
      dsimp only [firstOk]
      split_ifs
      · exact ih hP
      · exact ⟨rfl, hP⟩

/-- **A success after failures is returned** exactly if they are all caught. -/
theorem firstOk_append_eq_ok_iff {before after : List (Except ε α)} {a : α}
    (h : ∀ r ∈ before, ∃ e, r = .error e) :
    firstOk caught last (before ++ .ok a :: after) = .ok a ↔
      ∀ e, .error e ∈ before → caught e = true := by
  induction before with
  | nil => exact ⟨fun _ e he => absurd he List.not_mem_nil, fun _ => rfl⟩
  | cons r before ih =>
    obtain ⟨e, rfl⟩ := h r List.mem_cons_self
    have hbefore := fun r' hr' => h r' (List.mem_cons_of_mem _ hr')
    rw [List.cons_append, firstOk]
    by_cases hcaught : caught e = true
    · rw [if_pos hcaught, ih hbefore]
      constructor
      · intro hall e' he'
        rcases List.mem_cons.mp he' with heq | he'
        · cases heq
          exact hcaught
        · exact hall e' he'
      · exact fun hall e' he' => hall e' (List.mem_cons_of_mem _ he')
    · rw [if_neg hcaught]
      exact iff_of_false (fun heq => by cases heq) fun hall => hcaught (hall e List.mem_cons_self)

end Fallback
