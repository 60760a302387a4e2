import Mathlib.Data.List.Basic
import Mathlib.Order.Defs.PartialOrder

/-!
# Recursive procedures over data

A procedure that recurs over data makes calls of its own, one after the other, and may throw.
What its recursion does is the tree of its calls, each with a label; it need not be finite.

`Procedure.run` evaluates a call on a budget. A call whose calls are well-founded ends
(`exists_run_of_acc`), and the paths of the tree that it builds are the label sequences of the
recursion: all of them are (`reaches_of_path`), and without an exception there are no others
(`path_of_reaches`). So a property of all paths is a property of the sequences
(`Meets.of_acc`, `Meets.forall_reaches`).
-/

/-- What a call comes to: the budget is used up, an exception, or a result. -/
inductive Outcome (α : Type*)
  | timeout
  | threw
  | done (a : α)
  deriving DecidableEq

namespace Outcome

variable {α β : Type*}

def bind (r : Outcome α) (f : α → Outcome β) : Outcome β :=
  match r with
  | timeout => timeout
  | threw => threw
  | done a => f a

theorem bind_eq_done {r : Outcome α} {f : α → Outcome β} {b : β} :
    r.bind f = done b ↔ ∃ a, r = done a ∧ f a = done b := by
  cases r <;> simp [bind]

theorem bind_ne_timeout {r : Outcome α} {f : α → Outcome β} :
    r.bind f ≠ timeout ↔ r ≠ timeout ∧ ∀ a, r = done a → f a ≠ timeout := by
  cases r <;> simp [bind]

end Outcome

/-- The tree of the calls that a call has made. -/
inductive CallTree (ℓ : Type*)
  | node (children : List (ℓ × CallTree ℓ))

/-- A path from the root, by its labels. -/
inductive CallTree.Path {ℓ : Type*} : CallTree ℓ → List ℓ → Prop
  | nil (t : CallTree ℓ) : Path t []
  | cons {l : ℓ} {t : CallTree ℓ} {children : List (ℓ × CallTree ℓ)} {ls : List ℓ}
      (hmem : (l, t) ∈ children) (h : Path t ls) : Path (node children) (l :: ls)

/-- A procedure: the calls that a call makes in turn, and whether it throws after them. -/
structure Procedure (κ ℓ : Type*) where
  calls : κ → List (ℓ × κ)
  throws : κ → Bool

namespace Procedure

variable {κ ℓ : Type*} {P : Procedure κ ℓ}

/-! ### Evaluation -/

def runCalls (r : κ → Outcome (CallTree ℓ)) :
    List (ℓ × κ) → Outcome (List (ℓ × CallTree ℓ))
  | [] => .done []
  | (l, k) :: rest =>
    (r k).bind fun t => (runCalls r rest).bind fun ts => .done ((l, t) :: ts)

/-- The evaluation of a call, on a budget for the depth of the recursion. -/
def run (P : Procedure κ ℓ) : ℕ → κ → Outcome (CallTree ℓ)
  | 0, _ => .timeout
  | n + 1, k =>
    (runCalls (P.run n) (P.calls k)).bind fun ts =>
      if P.throws k then .threw else .done (.node ts)

theorem run_succ_ne_timeout {n : ℕ} {k : κ} :
    P.run (n + 1) k ≠ .timeout ↔ runCalls (P.run n) (P.calls k) ≠ .timeout := by
  rw [run, Outcome.bind_ne_timeout, and_iff_left_iff_imp]
  intro _ ts _
  cases P.throws k <;> simp

theorem runCalls_congr {r r' : κ → Outcome (CallTree ℓ)} {calls : List (ℓ × κ)}
    (h : ∀ c ∈ calls, r c.2 ≠ .timeout → r' c.2 = r c.2)
    (hend : runCalls r calls ≠ .timeout) : runCalls r' calls = runCalls r calls := by
  induction calls with
  | nil => rfl
  | cons c rest ih =>
    obtain ⟨l, k⟩ := c
    rw [runCalls, Outcome.bind_ne_timeout] at hend
    obtain ⟨hk, hrest⟩ := hend
    rw [runCalls, runCalls, h (l, k) List.mem_cons_self hk]
    cases hr : r k with
    | timeout => rfl
    | threw => rfl
    | done t =>
      have hrest' := (Outcome.bind_ne_timeout.mp (hrest t hr)).1
      simp only [Outcome.bind, ih (fun c hc => h c (List.mem_cons_of_mem _ hc)) hrest']

theorem run_mono {n m : ℕ} (hnm : n ≤ m) {k : κ} (h : P.run n k ≠ .timeout) :
    P.run m k = P.run n k := by
  induction n generalizing m k with
  | zero => exact absurd rfl h
  | succ n ih =>
    obtain ⟨m, rfl⟩ := Nat.exists_eq_succ_of_ne_zero (Nat.ne_of_gt (Nat.lt_of_lt_of_le
      (Nat.succ_pos n) hnm))
    have hcalls := runCalls_congr (fun c _ hc => ih (Nat.le_of_succ_le_succ hnm) hc)
      (run_succ_ne_timeout.mp h)
    rw [run, run, hcalls]

theorem exists_runCalls {calls : List (ℓ × κ)}
    (h : ∀ c ∈ calls, ∃ n, P.run n c.2 ≠ .timeout) :
    ∃ n, runCalls (P.run n) calls ≠ .timeout := by
  induction calls with
  | nil => exact ⟨0, by simp [runCalls]⟩
  | cons c rest ih =>
    obtain ⟨l, k⟩ := c
    obtain ⟨n, hn⟩ := h (l, k) List.mem_cons_self
    obtain ⟨m, hm⟩ := ih fun c hc => h c (List.mem_cons_of_mem _ hc)
    have hk : P.run (max n m) k ≠ .timeout := by
      rw [run_mono (Nat.le_max_left n m) hn]
      exact hn
    have hrest : runCalls (P.run (max n m)) rest ≠ .timeout := by
      rw [runCalls_congr (fun c _ hc => run_mono (Nat.le_max_right n m) hc) hm]
      exact hm
    refine ⟨max n m, ?_⟩
    rw [runCalls, Outcome.bind_ne_timeout]
    refine ⟨hk, fun t _ => ?_⟩
    rw [Outcome.bind_ne_timeout]
    exact ⟨hrest, fun ts _ => by simp⟩

def Sub (P : Procedure κ ℓ) (k' k : κ) : Prop := ∃ l, (l, k') ∈ P.calls k

/-- **A call that cannot recur forever ends.** -/
theorem exists_run_of_acc {k : κ} (h : Acc P.Sub k) : ∃ n, P.run n k ≠ .timeout := by
  induction h with
  | intro k _ ih =>
    have hcalls : ∀ c ∈ P.calls k, ∃ n, P.run n c.2 ≠ .timeout := fun c hc => ih c.2 ⟨c.1, hc⟩
    obtain ⟨n, hn⟩ := exists_runCalls hcalls
    exact ⟨n + 1, run_succ_ne_timeout.mpr hn⟩

/-! ### Paths of the tree and sequences of labels -/

/-- A call leads to another through calls with these labels. -/
inductive Reaches (P : Procedure κ ℓ) : κ → List ℓ → κ → Prop
  | nil (k : κ) : Reaches P k [] k
  | cons {k k' k'' : κ} {l : ℓ} {ls : List ℓ} (hmem : (l, k') ∈ P.calls k)
      (h : Reaches P k' ls k'') : Reaches P k (l :: ls) k''

theorem Reaches.trans {k k' k'' : κ} {ls ls' : List ℓ} (h : P.Reaches k ls k')
    (h' : P.Reaches k' ls' k'') : P.Reaches k (ls ++ ls') k'' := by
  induction h with
  | nil k => exact h'
  | cons hmem _ ih => exact Reaches.cons hmem (ih h')

theorem mem_runCalls {r : κ → Outcome (CallTree ℓ)} {calls : List (ℓ × κ)}
    {ts : List (ℓ × CallTree ℓ)} (h : runCalls r calls = .done ts) {l : ℓ} {t : CallTree ℓ}
    (hmem : (l, t) ∈ ts) : ∃ k, (l, k) ∈ calls ∧ r k = .done t := by
  induction calls generalizing ts with
  | nil =>
    rw [runCalls, Outcome.done.injEq] at h
    rw [← h] at hmem
    cases hmem
  | cons c rest ih =>
    obtain ⟨l', k'⟩ := c
    rw [runCalls, Outcome.bind_eq_done] at h
    obtain ⟨t', ht', h⟩ := h
    obtain ⟨ts', hts', h⟩ := Outcome.bind_eq_done.mp h
    obtain rfl := Outcome.done.inj h
    obtain heq | hmem := List.mem_cons.mp hmem
    · obtain ⟨rfl, rfl⟩ := Prod.mk.inj heq
      exact ⟨k', List.mem_cons_self, ht'⟩
    · obtain ⟨k, hk, hr⟩ := ih hts' hmem
      exact ⟨k, List.mem_cons_of_mem _ hk, hr⟩

theorem reaches_of_path {n : ℕ} {k : κ} {t : CallTree ℓ} (h : P.run n k = .done t)
    {ls : List ℓ} (hpath : t.Path ls) : ∃ k', P.Reaches k ls k' := by
  induction hpath generalizing n k with
  | nil t => exact ⟨k, Reaches.nil k⟩
  | cons hmem _ ih =>
    cases n with
    | zero => cases h
    | succ n =>
      rw [run, Outcome.bind_eq_done] at h
      obtain ⟨ts, hts, h⟩ := h
      cases hthrows : P.throws k with
      | true => simp [hthrows] at h
      | false =>
        simp only [hthrows, Bool.false_eq_true, if_false, Outcome.done.injEq,
          CallTree.node.injEq] at h
        obtain ⟨k', hk', hrun⟩ := mem_runCalls hts (h.symm ▸ hmem)
        obtain ⟨k'', hreaches⟩ := ih hrun
        exact ⟨k'', Reaches.cons hk' hreaches⟩

def NoThrow (P : Procedure κ ℓ) (k : κ) : Prop :=
  ∀ ls k', P.Reaches k ls k' → P.throws k' = false

theorem NoThrow.sub {k k' : κ} {l : ℓ} (h : P.NoThrow k) (hmem : (l, k') ∈ P.calls k) :
    P.NoThrow k' :=
  fun ls k'' hreaches => h (l :: ls) k'' (Reaches.cons hmem hreaches)

theorem exists_runCalls_done {r : κ → Outcome (CallTree ℓ)} {calls : List (ℓ × κ)}
    (hend : runCalls r calls ≠ .timeout)
    (hdone : ∀ c ∈ calls, r c.2 ≠ .timeout → ∃ t, r c.2 = .done t) :
    ∃ ts, runCalls r calls = .done ts ∧
      ∀ c ∈ calls, ∃ t, r c.2 = .done t ∧ (c.1, t) ∈ ts := by
  induction calls with
  | nil => exact ⟨[], rfl, fun c hc => by cases hc⟩
  | cons c rest ih =>
    obtain ⟨l, k⟩ := c
    rw [runCalls, Outcome.bind_ne_timeout] at hend
    obtain ⟨t, ht⟩ := hdone (l, k) List.mem_cons_self hend.1
    have hrest := (Outcome.bind_ne_timeout.mp (hend.2 t ht)).1
    obtain ⟨ts, hts, hall⟩ := ih hrest fun c hc => hdone c (List.mem_cons_of_mem _ hc)
    refine ⟨(l, t) :: ts, ?_, fun c hc => ?_⟩
    · rw [runCalls, Outcome.bind_eq_done]
      refine ⟨t, ht, ?_⟩
      rw [Outcome.bind_eq_done]
      exact ⟨ts, hts, rfl⟩
    · obtain rfl | hc := List.mem_cons.mp hc
      · exact ⟨t, ht, List.mem_cons_self⟩
      · obtain ⟨t', ht', hmem⟩ := hall c hc
        exact ⟨t', ht', List.mem_cons_of_mem _ hmem⟩

/-- **Without an exception, the tree has all that the recursion goes through.** -/
theorem path_of_reaches {n : ℕ} {k : κ} (hthrow : P.NoThrow k) (hend : P.run n k ≠ .timeout) :
    ∃ t, P.run n k = .done t ∧ ∀ ls k', P.Reaches k ls k' → t.Path ls := by
  induction n generalizing k with
  | zero => exact absurd rfl hend
  | succ n ih =>
    have hcalls := run_succ_ne_timeout.mp hend
    obtain ⟨ts, hts, hall⟩ := exists_runCalls_done hcalls fun c hc hrun => by
      obtain ⟨t, ht, -⟩ := ih (hthrow.sub hc) hrun
      exact ⟨t, ht⟩
    have hno : P.throws k = false := hthrow [] k (Reaches.nil k)
    refine ⟨.node ts, ?_, fun ls k' hreaches => ?_⟩
    · rw [run, hts, Outcome.bind, hno]
      rfl
    · cases hreaches with
      | nil => exact CallTree.Path.nil _
      | @cons _ k₁ _ l ls hmem hrest =>
        obtain ⟨t, ht, htmem⟩ := hall (l, k₁) hmem
        have hne : P.run n k₁ ≠ .timeout := by simp [ht]
        obtain ⟨t', ht', hpath⟩ := ih (hthrow.sub hmem) hne
        obtain rfl : t = t' := Outcome.done.inj (ht.symm.trans ht')
        exact CallTree.Path.cons htmem (hpath ls k' hrest)

/-! ### Properties of all paths -/

/-- The call ends, and the paths of its tree, if it returns, have a property. -/
def Meets (P : Procedure κ ℓ) (good : List ℓ → Prop) (k : κ) : Prop :=
  ∃ n, P.run n k ≠ .timeout ∧ ∀ t, P.run n k = .done t → ∀ ls, t.Path ls → good ls

variable {good : List ℓ → Prop} {k : κ}

theorem Meets.of_acc (hacc : Acc P.Sub k)
    (hgood : ∀ ls k', P.Reaches k ls k' → good ls) : P.Meets good k := by
  obtain ⟨n, hn⟩ := exists_run_of_acc hacc
  refine ⟨n, hn, fun t ht ls hpath => ?_⟩
  obtain ⟨k', hreaches⟩ := reaches_of_path ht hpath
  exact hgood ls k' hreaches

theorem Meets.forall_reaches (h : P.Meets good k) (hthrow : P.NoThrow k) {ls : List ℓ} {k' : κ}
    (hreaches : P.Reaches k ls k') : good ls := by
  obtain ⟨n, hn, hall⟩ := h
  obtain ⟨t, ht, hpath⟩ := path_of_reaches hthrow hn
  exact hall t ht ls (hpath ls k' hreaches)

end Procedure
