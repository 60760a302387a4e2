import Mathlib.Data.List.Basic

/-!
# Series of calls

The members of a list are called one after the other. The answer of a member changes the state in
which the next one is called, and may end the series. `UpToFirst` says what calls a series has that
ends at the first answer of a kind: those of `series` (`upToFirst_series`). A series that ends at
less than these answers has them exactly if it meets none of the other answers before the last
member (`upToFirst_series_iff`).
-/

namespace Series

variable {ι α σ : Type*}

/-! ### Calls up to the first answer of a kind -/

section UpToFirst

variable {stop : α → Prop} {i : ι} {is : List ι} {a : α} {calls : List (ι × α)}

/-- The members are called in order, and all of them unless an answer ends the series. -/
inductive UpToFirst (stop : α → Prop) : List ι → List (ι × α) → Prop
  | nil : UpToFirst stop [] []
  | last {i : ι} {is : List ι} {a : α} (h : stop a) : UpToFirst stop (i :: is) [(i, a)]
  | next {i : ι} {is : List ι} {a : α} {calls : List (ι × α)} (h : ¬stop a)
      (hcalls : UpToFirst stop is calls) : UpToFirst stop (i :: is) ((i, a) :: calls)

theorem upToFirst_cons_of_stop (h : stop a) :
    UpToFirst stop (i :: is) ((i, a) :: calls) ↔ calls = [] := by
  constructor
  · intro hcalls
    cases hcalls with
    | last _ => rfl
    | next hnot _ => exact absurd h hnot
  · rintro rfl
    exact .last h

theorem upToFirst_cons_of_not (h : ¬stop a) :
    UpToFirst stop (i :: is) ((i, a) :: calls) ↔ UpToFirst stop is calls := by
  constructor
  · intro hcalls
    cases hcalls with
    | last hstop => exact absurd hstop h
    | next _ hcalls => exact hcalls
  · exact .next h

end UpToFirst

/-! ### The series -/

variable {stop stop' : α → Prop} [DecidablePred stop] [DecidablePred stop']

/-- The calls of the members with their answers, up to the first answer that ends the series. -/
def series (stop : α → Prop) [DecidablePred stop] (call : ι → σ → α × σ) :
    List ι → σ → List (ι × α)
  | [], _ => []
  | i :: is, s =>
    if stop (call i s).1 then [(i, (call i s).1)]
    else (i, (call i s).1) :: series stop call is (call i s).2

variable {call : ι → σ → α × σ} {is : List ι} {s : σ}

theorem upToFirst_series : UpToFirst stop is (series stop call is s) := by
  induction is generalizing s with
  | nil => exact .nil
  | cons i is ih =>
    rw [series]
    split_ifs with hstop
    · exact .last hstop
    · exact .next hstop ih

theorem series_eq_nil_iff : series stop call is s = [] ↔ is = [] := by
  cases is with
  | nil => exact iff_of_true rfl rfl
  | cons i is =>
    refine iff_of_false ?_ (List.cons_ne_nil i is)
    rw [series]
    by_cases hstop : stop (call i s).1
    · rw [if_pos hstop]
      exact List.cons_ne_nil _ _
    · rw [if_neg hstop]
      exact List.cons_ne_nil _ _

/-- **A series that goes on after some of the answers** has the right calls exactly if only the
last member gives such an answer. -/
theorem upToFirst_series_iff (hle : ∀ a, stop' a → stop a) :
    UpToFirst stop is (series stop' call is s) ↔
      ∀ c ∈ series stop call is s, stop c.2 → stop' c.2 ∨
        (series stop call is s).length = is.length := by
  induction is generalizing s with
  | nil => exact iff_of_true .nil fun c hc => absurd hc List.not_mem_nil
  | cons i is ih =>
    by_cases hstop : stop (call i s).1
    · have hcalls : series stop call (i :: is) s = [(i, (call i s).1)] := by
        rw [series, if_pos hstop]
      rw [hcalls, List.forall_mem_singleton, forall_prop_of_true hstop, series]
      split_ifs with hstop'
      · exact iff_of_true (.last hstop) (.inl hstop')
      · rw [or_iff_right hstop', upToFirst_cons_of_stop hstop, series_eq_nil_iff,
          List.length_singleton, List.length_cons, ← List.length_eq_zero_iff]
        omega
    · have hstop' : ¬stop' (call i s).1 := fun h => hstop (hle _ h)
      have hcalls : series stop call (i :: is) s =
          (i, (call i s).1) :: series stop call is (call i s).2 := by
        rw [series, if_neg hstop]
      rw [hcalls, List.forall_mem_cons, and_iff_right (fun h => absurd h hstop), List.length_cons,
        List.length_cons, Nat.add_right_cancel_iff, ← ih, series, if_neg hstop',
        upToFirst_cons_of_not hstop]

end Series
