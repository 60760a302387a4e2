import Mathlib.Data.List.Nodup

/-!
# Transaction managers

The transactions of one thread, as a manager keeps them: at most one is current, any number are
suspended, and what a transaction writes reaches the database when it is committed. A
transaction can be marked, and a marked one is never committed. A manager may also fail to
commit one that is not marked; how a commit ends is its answer (`Answer`).

**Askers.** A party that works in a transaction may ask that it be rolled back. `Sound` is what
holds while every such wish has been heard: what has been asked for is marked as long as it
lives, so that nothing in the database belongs to it.

**Frames.** An operation touches no transaction but the current one (`Untouched`).
-/

/-- The transactions of a thread, each with its number. An entry of the database carries the
number of its transaction, or none where it was written without one. -/
structure TransactionManager (α : Type*) where
  current : Option ℕ
  suspended : List ℕ
  marked : ℕ → Bool
  effects : ℕ → List α
  next : ℕ
  database : List (Option ℕ × α)

namespace TransactionManager

variable {α : Type*}

inductive Status
  | noTransaction
  | active
  | markedRollback
  deriving DecidableEq

/-- How a manager ends the commit of a transaction that is not marked. A mixed end keeps some of
the effects. -/
inductive Answer (α : Type*)
  | committed
  | rolledBack
  | heuristicRollback
  | heuristicMixed (kept : α → Bool)

/-- What the caller of a commit sees. -/
inductive Completion
  | committed
  | rollbackException
  | heuristicRollbackException
  | heuristicMixedException
  | illegalStateException

def empty : TransactionManager α := ⟨none, [], fun _ => false, fun _ => [], 0, []⟩

def status (m : TransactionManager α) : Status :=
  match m.current with
  | none => .noTransaction
  | some t => if m.marked t then .markedRollback else .active

def begin (m : TransactionManager α) : TransactionManager α :=
  { m with
    current := some m.next
    marked := Function.update m.marked m.next false
    effects := Function.update m.effects m.next []
    next := m.next + 1 }

/-- A write joins the current transaction, or goes to the database at once. -/
def write (a : α) (m : TransactionManager α) : TransactionManager α :=
  match m.current with
  | none => { m with database := m.database ++ [(none, a)] }
  | some t => { m with effects := Function.update m.effects t (m.effects t ++ [a]) }

def setRollbackOnly (m : TransactionManager α) : TransactionManager α :=
  match m.current with
  | none => m
  | some t => { m with marked := Function.update m.marked t true }

/-- The current transaction ends, and some of its effects become permanent. -/
def complete (t : ℕ) (kept : α → Bool) (m : TransactionManager α) : TransactionManager α :=
  { m with
    current := none
    database := m.database ++ ((m.effects t).filter kept).map fun a => (some t, a) }

def rollback (m : TransactionManager α) : TransactionManager α := { m with current := none }

def commit (answer : Answer α) (m : TransactionManager α) : Completion × TransactionManager α :=
  match m.current with
  | none => (.illegalStateException, m)
  | some t =>
    -- what the manager answers does not matter for a transaction that is marked
    if m.marked t then (.rollbackException, m.rollback)
    else
      match answer with
      | .committed => (.committed, m.complete t fun _ => true)
      | .rolledBack => (.rollbackException, m.rollback)
      | .heuristicRollback => (.heuristicRollbackException, m.rollback)
      | .heuristicMixed kept => (.heuristicMixedException, m.complete t kept)

def suspend (m : TransactionManager α) : TransactionManager α :=
  { m with current := none, suspended := m.current.toList ++ m.suspended }

def resume (t : ℕ) (m : TransactionManager α) : TransactionManager α :=
  { m with current := some t, suspended := m.suspended.erase t }

def live (m : TransactionManager α) : List ℕ := m.current.toList ++ m.suspended

/-! ### Soundness -/

/-- The numbers are those of a run, and no transaction that someone asked to roll back has left
anything in the database. -/
structure Sound (m : TransactionManager α) (asked : List ℕ) : Prop where
  nodup : m.live.Nodup
  lt : ∀ t ∈ m.live, t < m.next
  asked_lt : ∀ t ∈ asked, t < m.next
  marked : ∀ t ∈ asked, t ∈ m.live → m.marked t = true
  ended : ∀ t a, (some t, a) ∈ m.database → t < m.next ∧ t ∉ m.live
  respected : ∀ t a, (some t, a) ∈ m.database → t ∉ asked

variable {m : TransactionManager α} {asked : List ℕ} {t : ℕ}

theorem sound_empty : Sound (empty : TransactionManager α) [] where
  nodup := List.nodup_nil
  lt _ h := nomatch h
  asked_lt _ h := nomatch h
  marked _ h := nomatch h
  ended _ _ h := nomatch h
  respected _ _ h := nomatch h

theorem mem_live_of_current (h : m.current = some t) : t ∈ m.live := by
  rw [live, h]
  exact List.mem_cons_self

theorem mem_live_of_suspended (h : t ∈ m.suspended) : t ∈ m.live := List.mem_append_right _ h

theorem Sound.ne_of_mem_suspended (hm : m.Sound asked) {u : ℕ} (hcurrent : m.current = some t)
    (hu : u ∈ m.suspended) : u ≠ t := by
  rintro rfl
  have hnodup := hm.nodup
  rw [live, hcurrent] at hnodup
  exact (List.nodup_cons.mp hnodup).1 hu

theorem Sound.of_sublist (hm : m.Sound asked) {m' : TransactionManager α}
    (hlive : m'.live.Sublist m.live) (hmarked : ∀ t, m.marked t = true → m'.marked t = true)
    (hnext : m'.next = m.next)
    (hdatabase : ∀ t a, (some t, a) ∈ m'.database →
      (some t, a) ∈ m.database ∨ (t < m.next ∧ t ∉ m'.live ∧ t ∉ asked)) :
    m'.Sound asked where
  nodup := hm.nodup.sublist hlive
  lt t ht := hnext ▸ hm.lt t (hlive.subset ht)
  asked_lt t ht := hnext ▸ hm.asked_lt t ht
  marked t ht hmem := hmarked t (hm.marked t ht (hlive.subset hmem))
  ended t a h := by
    obtain hold | ⟨hlt, hnot, -⟩ := hdatabase t a h
    · exact ⟨hnext ▸ (hm.ended t a hold).1,
        fun hmem => (hm.ended t a hold).2 (hlive.subset hmem)⟩
    · exact ⟨hnext ▸ hlt, hnot⟩
  -- an effect was in the database before, or is one of a transaction nobody asked to roll back
  respected t a h := by
    obtain hold | ⟨-, -, hnot⟩ := hdatabase t a h
    · exact hm.respected t a hold
    · exact hnot

theorem Sound.begin (hm : m.Sound asked) (hcurrent : m.current = none) :
    m.begin.Sound asked := by
  have hlive : m.live = m.suspended := by
    rw [live, hcurrent]
    rfl
  have hfresh : m.next ∉ m.live := fun h => Nat.lt_irrefl _ (hm.lt _ h)
  have hnew : m.begin.live = m.next :: m.live := by
    rw [hlive]
    rfl
  have hne (t : ℕ) (ht : t < m.next) : Function.update m.marked m.next false t = m.marked t :=
    Function.update_of_ne (Nat.ne_of_lt ht) _ _
  refine ⟨?_, ?_, ?_, ?_, ?_, hm.respected⟩
  · rw [hnew]
    exact List.nodup_cons.mpr ⟨hfresh, hm.nodup⟩
  · intro t ht
    rw [hnew] at ht
    obtain rfl | ht := List.mem_cons.mp ht
    · exact Nat.lt_succ_self _
    · exact Nat.lt_succ_of_lt (hm.lt t ht)
  · exact fun t ht => Nat.lt_succ_of_lt (hm.asked_lt t ht)
  · intro t ht hmem
    have hlt := hm.asked_lt t ht
    rw [hnew] at hmem
    obtain rfl | hmem := List.mem_cons.mp hmem
    · exact absurd hlt (Nat.lt_irrefl _)
    · exact (hne t hlt).trans (hm.marked t ht hmem)
  · intro t a h
    obtain ⟨hlt, hnot⟩ := hm.ended t a h
    refine ⟨Nat.lt_succ_of_lt hlt, ?_⟩
    rw [hnew]
    exact fun hmem => (List.mem_cons.mp hmem).elim (Nat.ne_of_lt hlt) hnot

theorem Sound.write (hm : m.Sound asked) (a : α) : (m.write a).Sound asked := by
  rw [TransactionManager.write]
  split
  · refine hm.of_sublist (List.Sublist.refl _) (fun _ h => h) rfl fun t b h => .inl ?_
    obtain h | h := List.mem_append.mp h
    · exact h
    · cases List.mem_singleton.mp h
  · exact hm.of_sublist (List.Sublist.refl _) (fun _ h => h) rfl fun _ _ h => .inl h

theorem marked_setRollbackOnly (hcurrent : m.current = some t) :
    m.setRollbackOnly.marked t = true := by
  rw [setRollbackOnly, hcurrent]
  exact Function.update_self t true m.marked

theorem Sound.setRollbackOnly (hm : m.Sound asked) : m.setRollbackOnly.Sound asked := by
  rw [TransactionManager.setRollbackOnly]
  split
  · exact hm
  · refine hm.of_sublist (List.Sublist.refl _) (fun t h => ?_) rfl fun _ _ h => .inl h
    show Function.update m.marked _ true t = true
    rw [Function.update_apply]
    split
    · rfl
    · exact h

theorem live_of_ended (m : TransactionManager α) : m.rollback.live.Sublist m.live :=
  List.sublist_append_right _ _

theorem Sound.rollback (hm : m.Sound asked) : m.rollback.Sound asked :=
  hm.of_sublist (live_of_ended m) (fun _ h => h) rfl fun _ _ h => .inl h

theorem Sound.complete (hm : m.Sound asked) (hcurrent : m.current = some t) (hnot : t ∉ asked)
    (kept : α → Bool) : (m.complete t kept).Sound asked := by
  refine hm.of_sublist (live_of_ended m) (fun _ h => h) rfl fun u a h => ?_
  obtain h | h := List.mem_append.mp h
  · exact .inl h
  · obtain ⟨_, -, heq⟩ := List.mem_map.mp h
    obtain rfl : t = u := Option.some.inj (Prod.mk.inj heq).1
    exact .inr ⟨hm.lt t (mem_live_of_current hcurrent),
      fun hmem => hm.ne_of_mem_suspended hcurrent hmem rfl, hnot⟩

/-- **A commit respects what was asked for.** -/
theorem Sound.commit (hm : m.Sound asked) (answer : Answer α) :
    (m.commit answer).2.Sound asked := by
  rw [TransactionManager.commit]
  split
  · exact hm
  · rename_i t hcurrent
    split
    · exact hm.rollback
    · rename_i hmarked
      have hnot : t ∉ asked := fun ht => hmarked (hm.marked t ht (mem_live_of_current hcurrent))
      cases answer with
      | committed => exact hm.complete hcurrent hnot _
      | rolledBack => exact hm.rollback
      | heuristicRollback => exact hm.rollback
      | heuristicMixed kept => exact hm.complete hcurrent hnot kept

theorem Sound.suspend (hm : m.Sound asked) : m.suspend.Sound asked :=
  hm.of_sublist (List.Sublist.refl _) (fun _ h => h) rfl fun _ _ h => .inl h

theorem Sound.resume (hm : m.Sound asked) (hcurrent : m.current = none) (ht : t ∈ m.suspended) :
    (m.resume t).Sound asked := by
  have hlive : m.live = m.suspended := by
    rw [live, hcurrent]
    rfl
  have hperm : (m.resume t).live.Perm m.live := by
    rw [hlive]
    exact (List.perm_cons_erase ht).symm
  exact
    { nodup := hperm.nodup_iff.mpr hm.nodup
      lt := fun u hu => hm.lt u (hperm.mem_iff.mp hu)
      asked_lt := hm.asked_lt
      marked := fun u hu hmem => hm.marked u hu (hperm.mem_iff.mp hmem)
      ended := fun u a h => ⟨(hm.ended u a h).1,
        fun hmem => (hm.ended u a h).2 (hperm.mem_iff.mp hmem)⟩
      respected := hm.respected }

theorem Sound.ask (hm : m.Sound asked) (hcurrent : m.current = some t)
    (hmarked : m.marked t = true) : m.Sound (t :: asked) where
  nodup := hm.nodup
  lt := hm.lt
  asked_lt u hu := by
    obtain rfl | hu := List.mem_cons.mp hu
    · exact hm.lt u (mem_live_of_current hcurrent)
    · exact hm.asked_lt u hu
  marked u hu hmem := by
    obtain rfl | hu := List.mem_cons.mp hu
    · exact hmarked
    · exact hm.marked u hu hmem
  ended := hm.ended
  respected u a h hu := by
    obtain rfl | hu := List.mem_cons.mp hu
    · exact (hm.ended u a h).2 (mem_live_of_current hcurrent)
    · exact hm.respected u a h hu

theorem Sound.rollback_ask (hm : m.Sound asked) (hcurrent : m.current = some t) :
    m.rollback.Sound (t :: asked) where
  nodup := hm.rollback.nodup
  lt := hm.rollback.lt
  asked_lt u hu := by
    obtain rfl | hu := List.mem_cons.mp hu
    · exact hm.lt u (mem_live_of_current hcurrent)
    · exact hm.asked_lt u hu
  marked u hu hmem := by
    obtain rfl | hu := List.mem_cons.mp hu
    · exact absurd rfl (hm.ne_of_mem_suspended hcurrent hmem)
    · exact hm.rollback.marked u hu hmem
  ended := hm.rollback.ended
  respected u a h hu := by
    obtain rfl | hu := List.mem_cons.mp hu
    · exact (hm.ended u a h).2 (mem_live_of_current hcurrent)
    · exact hm.respected u a h hu

/-! ### Transactions that an operation does not touch -/

/-- The transaction has the same effects, and is marked or committed if it was before. -/
structure Untouched (t : ℕ) (m m' : TransactionManager α) : Prop where
  marked : m'.marked t = m.marked t
  effects : m'.effects t = m.effects t
  database : ∀ a, (some t, a) ∈ m'.database ↔ (some t, a) ∈ m.database

theorem Untouched.refl (t : ℕ) (m : TransactionManager α) : Untouched t m m :=
  ⟨rfl, rfl, fun _ => Iff.rfl⟩

theorem Untouched.trans {m m' m'' : TransactionManager α} (h : Untouched t m m')
    (h' : Untouched t m' m'') : Untouched t m m'' :=
  ⟨h'.marked.trans h.marked, h'.effects.trans h.effects,
    fun a => (h'.database a).trans (h.database a)⟩

theorem untouched_begin (h : t ≠ m.next) : Untouched t m m.begin :=
  ⟨Function.update_of_ne h _ _, Function.update_of_ne h _ _, fun _ => Iff.rfl⟩

theorem untouched_write (h : m.current ≠ some t) (a : α) : Untouched t m (m.write a) := by
  rw [write]
  split
  · refine ⟨rfl, rfl, fun b => ?_⟩
    simp
  · rename_i u hu
    have hne : t ≠ u := fun htu => h (htu ▸ hu)
    exact ⟨rfl, Function.update_of_ne hne _ _, fun _ => Iff.rfl⟩

theorem untouched_setRollbackOnly (h : m.current ≠ some t) : Untouched t m m.setRollbackOnly := by
  rw [setRollbackOnly]
  split
  · exact Untouched.refl t m
  · rename_i u hu
    have hne : t ≠ u := fun htu => h (htu ▸ hu)
    exact ⟨Function.update_of_ne hne _ _, rfl, fun _ => Iff.rfl⟩

theorem untouched_rollback : Untouched t m m.rollback := ⟨rfl, rfl, fun _ => Iff.rfl⟩

theorem untouched_complete {u : ℕ} (h : t ≠ u) (kept : α → Bool) :
    Untouched t m (m.complete u kept) := by
  refine ⟨rfl, rfl, fun a => ⟨fun hmem => ?_, fun hmem => List.mem_append_left _ hmem⟩⟩
  obtain hmem | hmem := List.mem_append.mp hmem
  · exact hmem
  · obtain ⟨_, -, heq⟩ := List.mem_map.mp hmem
    exact absurd (Option.some.inj (Prod.mk.inj heq).1).symm h

theorem untouched_commit (h : m.current ≠ some t) (answer : Answer α) :
    Untouched t m (m.commit answer).2 := by
  rw [commit]
  split
  · exact Untouched.refl t m
  · rename_i u hu
    have hne : t ≠ u := fun htu => h (htu ▸ hu)
    split
    · exact untouched_rollback
    · cases answer with
      | committed => exact untouched_complete hne _
      | rolledBack => exact untouched_rollback
      | heuristicRollback => exact untouched_rollback
      | heuristicMixed kept => exact untouched_complete hne kept

theorem untouched_suspend : Untouched t m m.suspend := ⟨rfl, rfl, fun _ => Iff.rfl⟩

theorem untouched_resume {u : ℕ} : Untouched t m (m.resume u) := ⟨rfl, rfl, fun _ => Iff.rfl⟩

/-! ### What an operation leaves of the other fields -/

@[simp]
theorem suspended_write (a : α) : (m.write a).suspended = m.suspended := by
  rw [write]
  split <;> rfl

@[simp]
theorem current_write (a : α) : (m.write a).current = m.current := by
  rw [write]
  split <;> rfl

@[simp]
theorem next_write (a : α) : (m.write a).next = m.next := by
  rw [write]
  split <;> rfl

@[simp]
theorem suspended_setRollbackOnly : m.setRollbackOnly.suspended = m.suspended := by
  rw [setRollbackOnly]
  split <;> rfl

@[simp]
theorem current_setRollbackOnly : m.setRollbackOnly.current = m.current := by
  rw [setRollbackOnly]
  split <;> rfl

@[simp]
theorem next_setRollbackOnly : m.setRollbackOnly.next = m.next := by
  rw [setRollbackOnly]
  split <;> rfl

theorem commit_fields (m : TransactionManager α) (answer : Answer α) :
    (m.commit answer).2.current = none ∧ (m.commit answer).2.suspended = m.suspended ∧
      (m.commit answer).2.next = m.next := by
  rw [commit]
  split
  · rename_i h
    exact ⟨h, rfl, rfl⟩
  · split
    · exact ⟨rfl, rfl, rfl⟩
    · cases answer <;> exact ⟨rfl, rfl, rfl⟩

end TransactionManager
