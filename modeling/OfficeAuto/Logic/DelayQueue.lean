import Mathlib.Algebra.Order.Group.Int
import Mathlib.Data.List.Perm.Basic

/-!
# Queues of delayed elements

A queue gives out the element that is due first, once it is due. Elements count as equal if they
are due at the same time, so that the removal of an element may take another one out.

The order in which a queue keeps its elements is its own: `DelayQueue` has the operations with what
they do up to it. `DelayQueue.ofList` is the queue that adds at the front of a list.
-/

/-- The operations of a queue whose elements are due at some time. -/
structure DelayQueue {α : Type*} (due : α → ℤ) where
  add : α → List α → List α
  remove : α → List α → List α
  poll : List α → Option (α × List α)
  add_perm : ∀ (a : α) (queue : List α), (add a queue).Perm (a :: queue)
  /-- One of the elements that count as equal is removed. -/
  remove_of_exists : ∀ (a : α) (queue : List α), (∃ b ∈ queue, due b = due a) →
    ∃ b, due b = due a ∧ queue.Perm (b :: remove a queue)
  remove_of_forall : ∀ (a : α) (queue : List α), (∀ b ∈ queue, due b ≠ due a) →
    (remove a queue).Perm queue
  poll_eq_none : ∀ queue, poll queue = none → queue = []
  /-- The element that is due first, and the rest. -/
  poll_eq_some : ∀ (queue : List α) (a : α) (rest : List α), poll queue = some (a, rest) →
    queue.Perm (a :: rest) ∧ ∀ b ∈ queue, due a ≤ due b

namespace DelayQueue

variable {α : Type*} {due : α → ℤ} (Q : DelayQueue due)

def take (now : ℤ) (queue : List α) : Option (α × List α) :=
  (Q.poll queue).filter fun first => due first.1 - now ≤ 0

variable {Q} {a b x : α} {queue rest : List α} {now : ℤ}

theorem mem_add : b ∈ Q.add a queue ↔ b = a ∨ b ∈ queue := by
  rw [(Q.add_perm a queue).mem_iff, List.mem_cons]

theorem mem_of_mem_remove (h : b ∈ Q.remove a queue) : b ∈ queue := by
  by_cases hex : ∃ c ∈ queue, due c = due a
  · obtain ⟨c, -, hperm⟩ := Q.remove_of_exists a queue hex
    exact hperm.mem_iff.mpr (List.mem_cons_of_mem _ h)
  · exact (Q.remove_of_forall a queue fun c hc heq => hex ⟨c, hc, heq⟩).mem_iff.mp h

theorem mem_remove_of_ne (hb : b ∈ queue) (hne : due a ≠ due b) : b ∈ Q.remove a queue := by
  by_cases hex : ∃ c ∈ queue, due c = due a
  · obtain ⟨c, hc, hperm⟩ := Q.remove_of_exists a queue hex
    rcases List.mem_cons.mp (hperm.mem_iff.mp hb) with rfl | hmem
    · exact absurd hc.symm hne
    · exact hmem
  · exact (Q.remove_of_forall a queue fun c hc heq => hex ⟨c, hc, heq⟩).mem_iff.mpr hb

theorem exists_mem_remove_add (hx : x ∈ queue) (h : due a = due x → due b = due x) :
    ∃ y ∈ Q.remove a (Q.add b queue), due y = due x := by
  have hmem : x ∈ Q.add b queue := mem_add.mpr (.inr hx)
  by_cases hne : due a = due x
  swap
  · exact ⟨x, mem_remove_of_ne hmem hne, rfl⟩
  -- there are two elements before, and one goes
  obtain ⟨c, -, hperm⟩ := Q.remove_of_exists a _ ⟨x, hmem, hne.symm⟩
  have hcount := (hperm.symm.trans (Q.add_perm b queue)).countP_eq fun y => due y = due x
  have hqueue : 0 < queue.countP fun y => due y = due x :=
    List.countP_pos_iff.mpr ⟨x, hx, by simp⟩
  have hrest : 0 < (Q.remove a (Q.add b queue)).countP fun y => due y = due x := by
    rw [List.countP_cons, List.countP_cons_of_pos (by simpa using h hne)] at hcount
    split_ifs at hcount <;> omega
  obtain ⟨y, hy, hdue⟩ := List.countP_pos_iff.mp hrest
  exact ⟨y, hy, by simpa using hdue⟩

theorem take_eq_some (h : Q.take now queue = some (a, rest)) :
    due a ≤ now ∧ queue.Perm (a :: rest) := by
  obtain ⟨hpoll, hdue⟩ := Option.filter_eq_some_iff.mp h
  refine ⟨?_, (Q.poll_eq_some queue a rest hpoll).1⟩
  have : due a - now ≤ 0 := by simpa using hdue
  omega

/-! ### Lists -/

def pollList (due : α → ℤ) : List α → Option (α × List α)
  | [] => none
  | a :: queue =>
    match pollList due queue with
    | none => some (a, queue)
    | some (b, rest) => if due b < due a then some (b, a :: rest) else some (a, queue)

theorem pollList_eq_none (h : pollList due queue = none) : queue = [] := by
  cases queue with
  | nil => rfl
  | cons a queue =>
    rw [pollList] at h
    split at h
    · cases h
    · split_ifs at h

theorem pollList_eq_some (h : pollList due queue = some (a, rest)) :
    queue.Perm (a :: rest) ∧ ∀ b ∈ queue, due a ≤ due b := by
  induction queue generalizing a rest with
  | nil => cases h
  | cons c queue ih =>
    rw [pollList] at h
    rcases hpoll : pollList due queue with _ | ⟨b, rest'⟩
    · rw [hpoll] at h
      obtain ⟨rfl, rfl⟩ := Prod.mk.inj (Option.some.inj h)
      rw [pollList_eq_none hpoll]
      exact ⟨.refl _, by simp⟩
    · rw [hpoll] at h
      obtain ⟨hperm, hle⟩ := ih hpoll
      dsimp only at h
      split_ifs at h with hlt
      · obtain ⟨rfl, rfl⟩ := Prod.mk.inj (Option.some.inj h)
        exact ⟨(hperm.cons c).trans (.swap _ _ _), List.forall_mem_cons.mpr ⟨hlt.le, hle⟩⟩
      · obtain ⟨rfl, rfl⟩ := Prod.mk.inj (Option.some.inj h)
        refine ⟨.refl _, List.forall_mem_cons.mpr ⟨le_rfl, fun d hd => ?_⟩⟩
        exact (not_lt.mp hlt).trans (hle d hd)

def ofList (due : α → ℤ) : DelayQueue due where
  add a queue := a :: queue
  remove a queue := queue.eraseP fun b => due b = due a
  poll := pollList due
  add_perm _ _ := .refl _
  remove_of_exists a queue h := by
    obtain ⟨b, hb, hdue⟩ := h
    obtain ⟨c, l₁, l₂, -, hc, hqueue, herase⟩ :=
      List.exists_of_eraseP (p := fun b => decide (due b = due a)) hb (by simpa using hdue)
    refine ⟨c, by simpa using hc, ?_⟩
    rw [herase, hqueue]
    exact List.perm_middle
  remove_of_forall a queue h := by
    rw [List.eraseP_of_forall_not fun b hb => by simpa using h b hb]
  poll_eq_none _ h := pollList_eq_none h
  poll_eq_some _ _ _ h := pollList_eq_some h

/-- A list from which one element is removed rather than the others that count as equal to it. -/
noncomputable def removing (due : α → ℤ) (b : α) : DelayQueue due := by
  classical
  exact {
    ofList due with
    remove := fun a queue =>
      if b ∈ queue ∧ due b = due a then queue.erase b else (ofList due).remove a queue
    remove_of_exists := fun a queue h => by
      split_ifs with hb
      · exact ⟨b, hb.2, List.perm_cons_erase hb.1⟩
      · exact (ofList due).remove_of_exists a queue h
    remove_of_forall := fun a queue h => by
      rw [if_neg fun hb => h b hb.1 hb.2]
      exact (ofList due).remove_of_forall a queue h }

theorem remove_removing (h : b ∈ queue) (hdue : due b = due a) :
    queue.Perm (b :: (removing due b).remove a queue) := by
  classical
  rw [removing]
  simp only [if_pos (And.intro h hdue)]
  exact List.perm_cons_erase h

end DelayQueue
