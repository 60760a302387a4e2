import OfficeAuto.Logic.Transition
import OfficeAuto.Logic.TransactionManager

/-!
# Transactions of a thread

`TransactionUtil` adds to the transaction manager what a thread remembers: where its
transaction began, why it was marked, when it started, and the same of every transaction that is
suspended. Units of work nest. A unit joins the current transaction or begins one of its own,
and only the unit that began a transaction commits it; every other can no more than mark it.

**Programs.** A program is a run of units and suspensions that are properly nested, with
exceptions (`Program`). Whatever it does, no transaction is committed that one of its units asked
to roll back, and every saved stack has its old contents afterwards (`exec_nesting`); a
transaction that it suspends is not touched.
-/

namespace OfficeAuto.Entity

open TransactionManager (Status Answer Completion Sound Untouched)

/-! ### Exceptions -/

inductive Throwable.Kind
  | error
  | runtime
  | genericEntity
  | checked
  deriving DecidableEq

/-- A throwable, by its text, with the one that it wraps. -/
inductive Throwable
  | mk (kind : Throwable.Kind) (text : String) (cause : Option Throwable)

namespace Throwable

def toString : Throwable → String
  | mk _ text _ => text

def kind : Throwable → Kind
  | mk kind _ _ => kind

def rootCause : Throwable → Throwable
  | mk kind text none => mk kind text none
  | mk _ _ (some cause) => cause.rootCause

def transaction (text : String) (cause : Option Throwable) : Throwable :=
  mk .genericEntity text cause

end Throwable

structure RollbackOnlyCause where
  causeMessage : String
  causeThrowable : Option Throwable

def RollbackOnlyCause.getCauseMessage (roc : RollbackOnlyCause) : String :=
  roc.causeMessage ++ (roc.causeThrowable.map Throwable.toString).getD ""

/-! ### The state of a thread -/

/-- The thread-locals over a transaction manager. A placeholder of a call stack is the number of
the exception that was made for it. `stampClearSync` are the transactions with a registered
`StampClearSync`; `asked` records, for the statements, the transactions that some unit asked to
roll back. -/
structure Thread (α : Type) where
  tm : TransactionManager α
  suspendedTxStack : List ℕ
  suspendedTxLocationStack : List ℕ
  transactionBeginStack : Option ℕ
  transactionBeginStackSave : List (Option ℕ)
  setRollbackOnlyCause : Option RollbackOnlyCause
  setRollbackOnlyCauseSave : List (Option RollbackOnlyCause)
  transactionStartStamp : Option ℕ
  transactionLastNowStamp : Option ℕ
  suspendedTxStartStamps : List (ℕ × ℕ)
  stampClearSync : ℕ → Bool
  nowTimestamp : ℕ
  placeholders : ℕ
  asked : List ℕ

variable {α : Type}

namespace Thread

def initial : Thread α where
  tm := TransactionManager.empty
  suspendedTxStack := []
  suspendedTxLocationStack := []
  transactionBeginStack := none
  transactionBeginStackSave := []
  setRollbackOnlyCause := none
  setRollbackOnlyCauseSave := []
  transactionStartStamp := none
  transactionLastNowStamp := none
  suspendedTxStartStamps := []
  stampClearSync := fun _ => false
  nowTimestamp := 0
  placeholders := 0
  asked := []

/-! ### Stamps, placeholders and causes -/

def clearTransactionStamps (s : Thread α) : Thread α :=
  { s with transactionStartStamp := none, transactionLastNowStamp := none }

def getTransactionStartStamp (s : Thread α) : Thread α :=
  match s.transactionStartStamp with
  | some _ => s
  | none =>
    { s with
      transactionStartStamp := some s.nowTimestamp
      stampClearSync :=
        match s.tm.current with
        | none => s.stampClearSync
        | some t => Function.update s.stampClearSync t (!s.tm.marked t || s.stampClearSync t) }

def getTransactionUniqueNowStamp (s : Thread α) : Thread α :=
  { s with
    transactionLastNowStamp :=
      match s.transactionLastNowStamp with
      | none => some s.nowTimestamp
      | some last => some (if s.nowTimestamp ≤ last then last + 1 else s.nowTimestamp) }

def afterCompletion (t : ℕ) (s : Thread α) : Thread α :=
  if s.stampClearSync t then s.clearTransactionStamps else s

def setTransactionBeginStack (s : Thread α) : Thread α :=
  { s with transactionBeginStack := some s.placeholders, placeholders := s.placeholders + 1 }

def clearTransactionBeginStack (s : Thread α) : Thread α :=
  { s with transactionBeginStack := none }

def clearSetRollbackOnlyCause (s : Thread α) : Thread α :=
  { s with setRollbackOnlyCause := none }

def ask (s : Thread α) : Thread α := { s with asked := s.tm.current.toList ++ s.asked }

/-! ### Begin, commit and rollback -/

/-- `UserTransaction.commit`, with the synchronization of the transaction. -/
def utCommit (answer : Answer α) (s : Thread α) : Completion × Thread α :=
  let ended := { s with tm := (s.tm.commit answer).2 }
  ((s.tm.commit answer).1,
    match s.tm.current with
    | none => ended
    | some t => ended.afterCompletion t)

/-- `UserTransaction.rollback`, with the synchronization of the transaction. -/
def utRollback (s : Thread α) : Thread α :=
  let ended := { s with tm := s.tm.rollback }
  match s.tm.current with
  | none => ended
  | some t => ended.afterCompletion t

def begin (s : Thread α) : Except Throwable Bool × Thread α :=
  match s.tm.status with
  | .active => (.ok false, s)
  | .markedRollback =>
    match s.setRollbackOnlyCause with
    | some roc =>
      (.error (.transaction ("The current transaction is marked for rollback, not beginning a " ++
        "new transaction and aborting current operation; the rollbackOnly was caused by: " ++
        roc.getCauseMessage) roc.causeThrowable), s)
    | none => (.ok false, s)
  | .noTransaction =>
    let begun := { s with tm := s.tm.begin }
    (.ok true,
      begun.clearTransactionStamps.getTransactionStartStamp.setTransactionBeginStack)

def commitCurrent (answer : Answer α) (s : Thread α) : Option Throwable × Thread α :=
  if s.tm.status = .noTransaction then (none, s)
  else
    let ended := (s.utCommit answer).2
    let cleared := ended.clearTransactionStamps.clearTransactionBeginStack.clearSetRollbackOnlyCause
    match (s.utCommit answer).1 with
    | .committed => (none, cleared)
    | .rollbackException =>
      match ended.setRollbackOnlyCause with
      | some rollbackOnlyCause =>
        (some (.transaction ("Roll back error, could not commit transaction, was rolled back " ++
          "instead because of: " ++ rollbackOnlyCause.getCauseMessage)
          rollbackOnlyCause.causeThrowable), cleared)
      | none =>
        (some (.transaction ("Roll back error (with no rollbackOnly cause found), could not " ++
          "commit transaction, was rolled back instead: RollbackException")
          (some (.mk .checked "RollbackException" none))), ended)
    | .heuristicMixedException =>
      (some (.transaction ("Could not commit transaction, HeuristicMixed exception: " ++
        "HeuristicMixedException") (some (.mk .checked "HeuristicMixedException" none))), ended)
    | .heuristicRollbackException =>
      (some (.transaction ("Could not commit transaction, HeuristicRollback exception: " ++
        "HeuristicRollbackException") (some (.mk .checked "HeuristicRollbackException" none))),
        ended)
    | .illegalStateException =>
      (some (.transaction ("Could not commit transaction, IllegalStateException exception: " ++
        "IllegalStateException") (some (.mk .runtime "IllegalStateException" none))), ended)

def commit (beganTransaction : Bool) (answer : Answer α) (s : Thread α) :
    Option Throwable × Thread α :=
  if beganTransaction then s.commitCurrent answer else (none, s)

def rollbackCurrent (s : Thread α) : Thread α :=
  if s.tm.status = .noTransaction then s
  else
    s.ask.clearTransactionStamps.clearTransactionBeginStack.clearSetRollbackOnlyCause.utRollback

def setRollbackOnly (causeMessage : String) (causeThrowable : Option Throwable)
    (s : Thread α) : Thread α :=
  match s.tm.status with
  | .noTransaction => s
  | .markedRollback => s.ask
  | .active =>
    { s.ask with
      tm := s.tm.setRollbackOnly
      setRollbackOnlyCause := some ⟨causeMessage, causeThrowable⟩ }

def rollback (beganTransaction : Bool) (causeMessage : String)
    (causeThrowable : Option Throwable) (s : Thread α) : Thread α :=
  if beganTransaction then s.rollbackCurrent else s.setRollbackOnly causeMessage causeThrowable

/-! ### Suspend and resume -/

/-- `map.put` of a map that keeps the order of its keys. -/
def putStamp (map : List (ℕ × ℕ)) (t stamp : ℕ) : List (ℕ × ℕ) :=
  if map.any (·.1 == t) then map.map fun entry => if entry.1 = t then (t, stamp) else entry
  else map ++ [(t, stamp)]

def pushTransactionStartStamp (t : ℕ) (s : Thread α) : Thread α :=
  match s.transactionStartStamp with
  | some stamp => { s with suspendedTxStartStamps := putStamp s.suspendedTxStartStamps t stamp }
  | none => s

def popTransactionStartStamp (t : ℕ) (s : Thread α) : Thread α :=
  if s.suspendedTxStartStamps.isEmpty then s
  else
    { s with
      transactionStartStamp :=
        some ((s.suspendedTxStartStamps.lookup t).getD s.nowTimestamp)
      suspendedTxStartStamps := s.suspendedTxStartStamps.eraseP (·.1 == t) }

def pushSuspendedTransaction (t : ℕ) (s : Thread α) : Thread α :=
  pushTransactionStartStamp t
    { s with
      suspendedTxStack := t :: s.suspendedTxStack
      suspendedTxLocationStack := s.placeholders :: s.suspendedTxLocationStack
      placeholders := s.placeholders + 1 }

def removeSuspendedTransaction (t : ℕ) (s : Thread α) : Thread α :=
  if s.suspendedTxStack.isEmpty then s
  else
    popTransactionStartStamp t
      { s with
        suspendedTxStack := s.suspendedTxStack.erase t
        suspendedTxLocationStack := s.suspendedTxLocationStack.tail }

def suspend (s : Thread α) : Option ℕ × Thread α :=
  match s.tm.current with
  | none => (none, s)
  | some t =>
    (some t,
      pushSuspendedTransaction t
        { s with
          tm := s.tm.suspend
          transactionBeginStack := none
          transactionBeginStackSave := s.transactionBeginStack :: s.transactionBeginStackSave
          setRollbackOnlyCause := none
          setRollbackOnlyCauseSave := s.setRollbackOnlyCause :: s.setRollbackOnlyCauseSave })

/-- `resume`: the manager takes a transaction that is suspended, in a thread without one. -/
def resume (parentTx : Option ℕ) (s : Thread α) : Option Throwable × Thread α :=
  match parentTx with
  | none => (none, s)
  | some t =>
    let popped :=
      { s with
        transactionBeginStack := s.transactionBeginStackSave.head?.join
        transactionBeginStackSave := s.transactionBeginStackSave.tail
        setRollbackOnlyCause := s.setRollbackOnlyCauseSave.head?.join
        setRollbackOnlyCauseSave := s.setRollbackOnlyCauseSave.tail }
    if s.tm.current ≠ none then (some (.mk .runtime "IllegalStateException" none), popped)
    else if t ∈ s.tm.suspended then
      (none, removeSuspendedTransaction t { popped with tm := s.tm.resume t })
    else
      (some (.transaction "System error, could not resume transaction"
        (some (.mk .checked "InvalidTransactionException" none))), popped)

/-! ### Operations and programs -/

/-- What a thread can do next. `timeout` is the manager marking the current transaction. -/
inductive Operation (α : Type)
  | begin
  | commit (beganTransaction : Bool) (answer : Answer α)
  | rollback (beganTransaction : Bool) (causeMessage : String)
      (causeThrowable : Option Throwable)
  | setRollbackOnly (causeMessage : String) (causeThrowable : Option Throwable)
  | suspend
  | resume (parentTx : Option ℕ)
  | write (a : α)
  | startStamp
  | nowStamp
  | wait (ticks : ℕ)
  | timeout

def apply (s : Thread α) : Operation α → Thread α
  | .begin => s.begin.2
  | .commit beganTransaction answer => (s.commit beganTransaction answer).2
  | .rollback beganTransaction causeMessage causeThrowable =>
    s.rollback beganTransaction causeMessage causeThrowable
  | .setRollbackOnly causeMessage causeThrowable => s.setRollbackOnly causeMessage causeThrowable
  | .suspend => s.suspend.2
  | .resume parentTx => (s.resume parentTx).2
  | .write a => { s with tm := s.tm.write a }
  | .startStamp => s.getTransactionStartStamp
  | .nowStamp => s.getTransactionUniqueNowStamp
  | .wait ticks => { s with nowTimestamp := s.nowTimestamp + ticks }
  | .timeout => { s with tm := s.tm.setRollbackOnly }

def system : System (Thread α) (Operation α) where
  init s := s = initial
  step s operation s' := s.apply operation = s'

end Thread

/-- How a unit ends: it commits, it rolls back, or it rolls back if the commit throws. -/
inductive Finish
  | commit
  | rollback
  | commitOrRollback

/-- A run of properly nested units: loops are unrolled and the branches are those that are taken.
An operation that is not part of a unit stands for a call of the code inside it; the answer of a
unit is what the manager says if the unit has a transaction to commit. -/
inductive Program (α : Type)
  | skip
  | write (a : α)
  | startStamp
  | nowStamp
  | wait (ticks : ℕ)
  | timeout
  | setRollbackOnly (causeMessage : String) (causeThrowable : Option Throwable)
  | throw (e : Throwable)
  | seq (p q : Program α)
  | tryCatch (p q : Program α)
  | unit (body : Program α) (onReturn onThrow : Finish) (causeMessage : String)
      (answer : Answer α)
  | suspended (body : Program α)
  | inTransaction (body : Program α) (ifErrorMessage : String) (answer : Answer α)
  | noTransaction (body : Program α)

def Finish.run (finish : Finish) (began : Bool) (causeMessage : String)
    (thrown : Option Throwable) (answer : Answer α) (s : Thread α) :
    Option Throwable × Thread α :=
  match finish with
  | .commit => s.commit began answer
  | .rollback => (none, s.rollback began causeMessage thrown)
  | .commitOrRollback =>
    match (s.commit began answer).1 with
    | none => s.commit began answer
    | some e => (none, (s.commit began answer).2.rollback began causeMessage (some e))

def thrownInTransaction (t : Throwable) : Throwable :=
  match t.rootCause.kind with
  | .error => t.rootCause
  | .runtime => t.rootCause
  | _ => .mk .genericEntity "GenericEntityException" (some t.rootCause)

def thrownNoTransaction (t : Throwable) : Throwable :=
  match t.rootCause.kind with
  | .checked => .mk .genericEntity "GenericEntityException" (some t.rootCause)
  | _ => t.rootCause

namespace Program

def exec : Program α → Thread α → Option Throwable × Thread α
  | skip, s => (none, s)
  | write a, s => (none, s.apply (.write a))
  | startStamp, s => (none, s.apply .startStamp)
  | nowStamp, s => (none, s.apply .nowStamp)
  | wait ticks, s => (none, s.apply (.wait ticks))
  | timeout, s => (none, s.apply .timeout)
  | setRollbackOnly causeMessage causeThrowable, s =>
    (none, s.apply (.setRollbackOnly causeMessage causeThrowable))
  | throw e, s => (some e, s)
  | seq p q, s =>
    match (p.exec s).1 with
    | none => q.exec (p.exec s).2
    | some e => (some e, (p.exec s).2)
  | tryCatch p q, s =>
    match (p.exec s).1 with
    | none => (none, (p.exec s).2)
    | some _ => q.exec (p.exec s).2
  | unit body onReturn onThrow causeMessage answer, s =>
    match s.begin.1 with
    | .error e => (some e, s.begin.2)
    | .ok began =>
      let ran := body.exec s.begin.2
      let finish := if ran.1.isNone then onReturn else onThrow
      let ended := finish.run began causeMessage ran.1 answer ran.2
      (ended.1.or ran.1, ended.2)
  | suspended body, s =>
    let ran := body.exec s.suspend.2
    let resumed := ran.2.resume s.suspend.1
    (resumed.1.or ran.1, resumed.2)
  | inTransaction body ifErrorMessage answer, s =>
    match s.begin.1 with
    | .error e => (some e, s.begin.2)
    | .ok tx =>
      let ran := body.exec s.begin.2
      match ran.1 with
      | none => ran.2.commit tx answer
      | some t =>
        (some (thrownInTransaction t), ran.2.rollback tx ifErrorMessage (some t.rootCause))
  | noTransaction body, s =>
    let ran := body.exec s.suspend.2
    let resumed := ran.2.resume s.suspend.1
    (resumed.1.or (ran.1.map thrownNoTransaction), resumed.2)

def doTransaction (body : Program α) (ifErrorMessage : String) (answer : Answer α) : Program α :=
  inTransaction body ifErrorMessage answer

def doNewTransaction (body : Program α) (ifErrorMessage : String) (answer : Answer α) :
    Program α :=
  noTransaction (inTransaction body ifErrorMessage answer)

end Program

/-! ### Every thread is well formed -/

namespace Thread

/-- The saved stacks of a thread are about the transactions that its manager has suspended, and
a thread in a transaction has a start stamp. -/
structure WellFormed (s : Thread α) : Prop where
  sound : s.tm.Sound s.asked
  suspendedTxStack : s.suspendedTxStack = s.tm.suspended
  stamps : s.suspendedTxStartStamps.map Prod.fst = s.tm.suspended.reverse
  stamped : s.tm.current ≠ none → s.transactionStartStamp ≠ none

theorem wellFormed_initial : (initial : Thread α).WellFormed where
  sound := TransactionManager.sound_empty
  suspendedTxStack := rfl
  stamps := rfl
  stamped h := absurd rfl h

variable {s : Thread α}

theorem WellFormed.congr (hs : s.WellFormed) {s' : Thread α} (hsound : s'.tm.Sound s'.asked)
    (hstack : s'.suspendedTxStack = s.suspendedTxStack)
    (hsuspended : s'.tm.suspended = s.tm.suspended)
    (hstamps : s'.suspendedTxStartStamps = s.suspendedTxStartStamps)
    (hstamped : s'.tm.current ≠ none → s'.transactionStartStamp ≠ none) : s'.WellFormed where
  sound := hsound
  suspendedTxStack := by rw [hstack, hsuspended, hs.suspendedTxStack]
  stamps := by rw [hstamps, hsuspended, hs.stamps]
  stamped := hstamped

/-- The saved stacks are the same. -/
structure SameStacks (s s' : Thread α) : Prop where
  suspendedTxStack : s'.suspendedTxStack = s.suspendedTxStack
  suspendedTxLocationStack : s'.suspendedTxLocationStack = s.suspendedTxLocationStack
  transactionBeginStackSave : s'.transactionBeginStackSave = s.transactionBeginStackSave
  setRollbackOnlyCauseSave : s'.setRollbackOnlyCauseSave = s.setRollbackOnlyCauseSave
  suspendedTxStartStamps : s'.suspendedTxStartStamps = s.suspendedTxStartStamps

theorem SameStacks.refl (s : Thread α) : SameStacks s s := ⟨rfl, rfl, rfl, rfl, rfl⟩

theorem SameStacks.trans {s s' s'' : Thread α} (h : SameStacks s s') (h' : SameStacks s' s'') :
    SameStacks s s'' :=
  ⟨h'.1.trans h.1, h'.2.trans h.2, h'.3.trans h.3, h'.4.trans h.4, h'.5.trans h.5⟩

/-- The saved stacks and the suspended transactions are the same, and those transactions are not
touched. -/
structure Keeps (s s' : Thread α) : Prop where
  saved : SameStacks s s'
  suspended : s'.tm.suspended = s.tm.suspended
  untouched : ∀ t ∈ s.tm.suspended, Untouched t s.tm s'.tm

theorem Keeps.refl (s : Thread α) : Keeps s s :=
  ⟨SameStacks.refl s, rfl, fun t _ => Untouched.refl t s.tm⟩

theorem Keeps.trans {s s' s'' : Thread α} (h : Keeps s s') (h' : Keeps s' s'') : Keeps s s'' :=
  ⟨h.saved.trans h'.saved, h'.suspended.trans h.suspended,
    fun t ht => (h.untouched t ht).trans (h'.untouched t (h.suspended ▸ ht))⟩

theorem Keeps.of_tm_eq {s s' : Thread α} (hstacks : SameStacks s s') (htm : s'.tm = s.tm) :
    Keeps s s' :=
  ⟨hstacks, by rw [htm], fun t _ => by rw [htm]; exact Untouched.refl t s.tm⟩

theorem WellFormed.of_tm_eq (hs : s.WellFormed) {s' : Thread α} (hstacks : SameStacks s s')
    (htm : s'.tm = s.tm) (hasked : s'.asked = s.asked)
    (hstamped : s.tm.current ≠ none → s'.transactionStartStamp ≠ none) : s'.WellFormed :=
  hs.congr (by rw [htm, hasked]; exact hs.sound) hstacks.1 (by rw [htm]) hstacks.5
    (by rw [htm]; exact hstamped)

theorem WellFormed.ne_of_suspended (hs : s.WellFormed) {t : ℕ} (ht : t ∈ s.tm.suspended) :
    s.tm.current ≠ some t :=
  fun hcurrent => hs.sound.ne_of_mem_suspended hcurrent ht rfl

/-! ### Operations inside a transaction -/

/-- What an operation inside a transaction, or inside none, leaves as it is. -/
structure Restores (s s' : Thread α) : Prop extends Keeps s s' where
  current : s'.tm.current = s.tm.current
  own : s.tm.current ≠ none → s'.transactionBeginStack = s.transactionBeginStack ∧
    s'.transactionStartStamp = s.transactionStartStamp

theorem Restores.refl (s : Thread α) : Restores s s := ⟨Keeps.refl s, rfl, fun _ => ⟨rfl, rfl⟩⟩

theorem Restores.trans {s s' s'' : Thread α} (h : Restores s s') (h' : Restores s' s'') :
    Restores s s'' := by
  refine ⟨h.toKeeps.trans h'.toKeeps, h'.current.trans h.current, fun hcurrent => ?_⟩
  obtain ⟨hbegin, hstamp⟩ := h.own hcurrent
  obtain ⟨hbegin', hstamp'⟩ := h'.own (h.current ▸ hcurrent)
  exact ⟨hbegin'.trans hbegin, hstamp'.trans hstamp⟩

theorem write_restores (hs : s.WellFormed) (a : α) :
    (s.apply (.write a)).WellFormed ∧ Restores s (s.apply (.write a)) := by
  have hcurrent : (s.tm.write a).current = s.tm.current := TransactionManager.current_write a
  have hsuspended : (s.tm.write a).suspended = s.tm.suspended :=
    TransactionManager.suspended_write a
  refine ⟨hs.congr (hs.sound.write a) rfl hsuspended rfl fun h => hs.stamped (hcurrent ▸ h),
    ⟨⟨⟨rfl, rfl, rfl, rfl, rfl⟩, hsuspended, fun t ht => ?_⟩, hcurrent, fun _ => ⟨rfl, rfl⟩⟩⟩
  exact TransactionManager.untouched_write (hs.ne_of_suspended ht) a

theorem getTransactionStartStamp_restores (hs : s.WellFormed) :
    s.getTransactionStartStamp.WellFormed ∧ Restores s s.getTransactionStartStamp := by
  rw [getTransactionStartStamp]
  split
  · exact ⟨hs, Restores.refl s⟩
  · rename_i hstamp
    have hstacks : SameStacks s { s with
        transactionStartStamp := some s.nowTimestamp
        stampClearSync :=
          match s.tm.current with
          | none => s.stampClearSync
          | some t => Function.update s.stampClearSync t (!s.tm.marked t || s.stampClearSync t) } :=
      ⟨rfl, rfl, rfl, rfl, rfl⟩
    exact ⟨hs.of_tm_eq hstacks rfl rfl fun _ => Option.some_ne_none _,
      Keeps.of_tm_eq hstacks rfl, rfl, fun h => absurd hstamp (hs.stamped h)⟩

theorem timeout_restores (hs : s.WellFormed) :
    (s.apply .timeout).WellFormed ∧ Restores s (s.apply .timeout) := by
  have hcurrent : s.tm.setRollbackOnly.current = s.tm.current :=
    TransactionManager.current_setRollbackOnly
  have hsuspended : s.tm.setRollbackOnly.suspended = s.tm.suspended :=
    TransactionManager.suspended_setRollbackOnly
  refine ⟨hs.congr hs.sound.setRollbackOnly rfl hsuspended rfl
      fun h => hs.stamped (hcurrent ▸ h),
    ⟨⟨⟨rfl, rfl, rfl, rfl, rfl⟩, hsuspended, fun t ht => ?_⟩, hcurrent, fun _ => ⟨rfl, rfl⟩⟩⟩
  exact TransactionManager.untouched_setRollbackOnly (hs.ne_of_suspended ht)

/-- **A joined unit that asks for the end.** The current transaction is marked before the wish
is recorded. -/
theorem setRollbackOnly_restores (hs : s.WellFormed) (causeMessage : String)
    (causeThrowable : Option Throwable) :
    (s.setRollbackOnly causeMessage causeThrowable).WellFormed ∧
      Restores s (s.setRollbackOnly causeMessage causeThrowable) := by
  rw [setRollbackOnly]
  cases hcurrent : s.tm.current with
  | none =>
    rw [TransactionManager.status, hcurrent]
    exact ⟨hs, Restores.refl s⟩
  | some t =>
    rw [TransactionManager.status, hcurrent]
    by_cases hmarked : s.tm.marked t
    · have hasked : s.ask.asked = t :: s.asked := by
        rw [ask, hcurrent]
        rfl
      simp only [if_pos hmarked]
      refine ⟨hs.congr ?_ rfl rfl rfl hs.stamped,
        Keeps.of_tm_eq ⟨rfl, rfl, rfl, rfl, rfl⟩ rfl, rfl, fun _ => ⟨rfl, rfl⟩⟩
      rw [hasked]
      exact hs.sound.ask hcurrent hmarked
    · have hasked : s.ask.asked = t :: s.asked := by
        rw [ask, hcurrent]
        rfl
      obtain ⟨hmarks, hkeeps⟩ := timeout_restores hs
      simp only [if_neg hmarked]
      refine ⟨hmarks.congr ?_ rfl rfl rfl hmarks.stamped,
        ⟨⟨⟨rfl, rfl, rfl, rfl, rfl⟩, hkeeps.suspended, hkeeps.untouched⟩, hkeeps.current,
          fun _ => ⟨rfl, rfl⟩⟩⟩
      show s.tm.setRollbackOnly.Sound s.ask.asked
      rw [hasked]
      exact hmarks.sound.ask
        (TransactionManager.current_setRollbackOnly.trans hcurrent)
        (TransactionManager.marked_setRollbackOnly hcurrent)

/-! ### The end of a transaction -/

/-- The transaction of the thread has ended. -/
structure Ends (s s' : Thread α) : Prop extends Keeps s s' where
  current : s'.tm.current = none

theorem clear_ends (hs : s.WellFormed) (hcurrent : s.tm.current = none) :
    s.clearTransactionStamps.clearTransactionBeginStack.clearSetRollbackOnlyCause.WellFormed ∧
      Ends s s.clearTransactionStamps.clearTransactionBeginStack.clearSetRollbackOnlyCause :=
  ⟨hs.of_tm_eq ⟨rfl, rfl, rfl, rfl, rfl⟩ rfl rfl fun h => absurd hcurrent h,
    Keeps.of_tm_eq ⟨rfl, rfl, rfl, rfl, rfl⟩ rfl, hcurrent⟩

theorem afterCompletion_ends (hs : s.WellFormed) (hcurrent : s.tm.current = none) (t : ℕ) :
    (s.afterCompletion t).WellFormed ∧ Ends s (s.afterCompletion t) := by
  rw [afterCompletion]
  split
  · exact ⟨hs.of_tm_eq ⟨rfl, rfl, rfl, rfl, rfl⟩ rfl rfl fun h => absurd hcurrent h,
      Keeps.of_tm_eq ⟨rfl, rfl, rfl, rfl, rfl⟩ rfl, hcurrent⟩
  · exact ⟨hs, Keeps.refl s, hcurrent⟩

theorem Ends.trans {s s' s'' : Thread α} (h : Ends s s') (h' : Ends s' s'') : Ends s s'' :=
  ⟨h.toKeeps.trans h'.toKeeps, h'.current⟩

theorem utCommit_ends (hs : s.WellFormed) (answer : Answer α) :
    (s.utCommit answer).2.WellFormed ∧ Ends s (s.utCommit answer).2 := by
  obtain ⟨hcurrent, hsuspended, -⟩ := TransactionManager.commit_fields s.tm answer
  have hended : WellFormed { s with tm := (s.tm.commit answer).2 } :=
    hs.congr (hs.sound.commit answer) rfl hsuspended rfl fun h => absurd hcurrent h
  have hends : Ends s { s with tm := (s.tm.commit answer).2 } :=
    ⟨⟨⟨rfl, rfl, rfl, rfl, rfl⟩, hsuspended,
      fun t ht => TransactionManager.untouched_commit (hs.ne_of_suspended ht) answer⟩, hcurrent⟩
  rw [utCommit]
  cases s.tm.current with
  | none => exact ⟨hended, hends⟩
  | some t =>
    obtain ⟨hafter, hafterEnds⟩ := afterCompletion_ends hended hcurrent t
    exact ⟨hafter, hends.trans hafterEnds⟩

theorem commitCurrent_ends (hs : s.WellFormed) (answer : Answer α) :
    (s.commitCurrent answer).2.WellFormed ∧ Ends s (s.commitCurrent answer).2 := by
  rw [commitCurrent]
  split
  · rename_i hstatus
    refine ⟨hs, Keeps.refl s, ?_⟩
    rw [TransactionManager.status] at hstatus
    split at hstatus
    · assumption
    · split at hstatus <;> cases hstatus
  · obtain ⟨hended, hends⟩ := utCommit_ends hs answer
    obtain ⟨hcleared, hclears⟩ := clear_ends hended hends.current
    dsimp only
    split
    · exact ⟨hcleared, hends.trans hclears⟩
    · split
      · exact ⟨hcleared, hends.trans hclears⟩
      · exact ⟨hended, hends⟩
    · exact ⟨hended, hends⟩
    · exact ⟨hended, hends⟩
    · exact ⟨hended, hends⟩

/-- **The owner asks for the end.** The transaction is over. -/
theorem rollbackCurrent_ends (hs : s.WellFormed) :
    s.rollbackCurrent.WellFormed ∧ Ends s s.rollbackCurrent := by
  rw [rollbackCurrent]
  cases hcurrent : s.tm.current with
  | none =>
    rw [TransactionManager.status, hcurrent]
    exact ⟨hs, Keeps.refl s, hcurrent⟩
  | some t =>
    have hstatus : s.tm.status ≠ .noTransaction := by
      rw [TransactionManager.status, hcurrent]
      dsimp only
      split <;> exact Status.noConfusion
    rw [if_neg hstatus]
    let cleared : Thread α :=
      s.ask.clearTransactionStamps.clearTransactionBeginStack.clearSetRollbackOnlyCause
    have hasked : cleared.asked = t :: s.asked := by
      show s.tm.current.toList ++ s.asked = _
      rw [hcurrent]
      rfl
    have hended : WellFormed { cleared with tm := s.tm.rollback } := by
      refine hs.congr ?_ rfl rfl rfl fun h => absurd rfl h
      show s.tm.rollback.Sound cleared.asked
      rw [hasked]
      exact hs.sound.rollback_ask hcurrent
    have hends : Ends s { cleared with tm := s.tm.rollback } :=
      ⟨⟨⟨rfl, rfl, rfl, rfl, rfl⟩, rfl, fun _ _ => TransactionManager.untouched_rollback⟩, rfl⟩
    have hroll : cleared.utRollback =
        ({ cleared with tm := s.tm.rollback } : Thread α).afterCompletion t := by
      have hcleared : cleared.tm.current = some t := hcurrent
      rw [utRollback, hcleared]
      rfl
    obtain ⟨hafter, hafterEnds⟩ := afterCompletion_ends hended rfl t
    show cleared.utRollback.WellFormed ∧ Ends s cleared.utRollback
    rw [hroll]
    exact ⟨hafter, hends.trans hafterEnds⟩

/-! ### The beginning of a transaction -/

theorem begin_of_current (h : s.tm.current ≠ none) :
    s.begin.2 = s ∧ ∀ began, s.begin.1 = .ok began → began = false := by
  rw [begin]
  cases hstatus : s.tm.status with
  | noTransaction =>
    rw [TransactionManager.status] at hstatus
    split at hstatus
    · contradiction
    · split at hstatus <;> cases hstatus
  | active => exact ⟨rfl, fun began hbegan => (Except.ok.inj hbegan).symm⟩
  | markedRollback =>
    dsimp only
    split
    · exact ⟨rfl, fun began hbegan => nomatch hbegan⟩
    · exact ⟨rfl, fun began hbegan => (Except.ok.inj hbegan).symm⟩

theorem begin_of_none (hs : s.WellFormed) (h : s.tm.current = none) :
    s.begin.1 = .ok true ∧ s.begin.2.WellFormed ∧ Keeps s s.begin.2 := by
  have hstatus : s.tm.status = .noTransaction := by
    rw [TransactionManager.status, h]
  rw [begin, hstatus]
  refine ⟨rfl, hs.congr (hs.sound.begin h) rfl rfl rfl fun _ => Option.some_ne_none _,
    ⟨⟨rfl, rfl, rfl, rfl, rfl⟩, rfl, fun t ht => ?_⟩⟩
  exact TransactionManager.untouched_begin
    (Nat.ne_of_lt (hs.sound.lt t (TransactionManager.mem_live_of_suspended ht)))

/-! ### The end of a unit -/

theorem run_restores (hs : s.WellFormed) (finish : Finish) (causeMessage : String)
    (thrown : Option Throwable) (answer : Answer α) :
    (finish.run false causeMessage thrown answer s).2.WellFormed ∧
      Restores s (finish.run false causeMessage thrown answer s).2 := by
  cases finish with
  | commit => exact ⟨hs, Restores.refl s⟩
  | rollback => exact setRollbackOnly_restores hs causeMessage thrown
  | commitOrRollback => exact ⟨hs, Restores.refl s⟩

theorem run_ends (hs : s.WellFormed) (finish : Finish) (causeMessage : String)
    (thrown : Option Throwable) (answer : Answer α) :
    (finish.run true causeMessage thrown answer s).2.WellFormed ∧
      Ends s (finish.run true causeMessage thrown answer s).2 := by
  obtain ⟨hcommitted, hcommits⟩ := commitCurrent_ends hs answer
  cases finish with
  | commit => exact ⟨hcommitted, hcommits⟩
  | rollback => exact rollbackCurrent_ends hs
  | commitOrRollback =>
    rw [Finish.run]
    split
    · exact ⟨hcommitted, hcommits⟩
    · obtain ⟨hrolled, hrolls⟩ := rollbackCurrent_ends hcommitted
      exact ⟨hrolled, hcommits.trans hrolls⟩

/-! ### Suspension -/

theorem putStamp_of_notMem {map : List (ℕ × ℕ)} {t : ℕ} (h : t ∉ map.map Prod.fst) (stamp : ℕ) :
    putStamp map t stamp = map ++ [(t, stamp)] := by
  have hany : map.any (·.1 == t) = false := by
    rw [List.any_eq_false]
    intro entry hentry heq
    exact h (List.mem_map.mpr ⟨entry, hentry, beq_iff_eq.mp heq⟩)
  rw [putStamp, hany]
  rfl

theorem lookup_of_notMem {map : List (ℕ × ℕ)} {t : ℕ} (h : t ∉ map.map Prod.fst) (stamp : ℕ) :
    (map ++ [(t, stamp)]).lookup t = some stamp := by
  induction map with
  | nil => simp
  | cons entry map ih =>
    rw [List.map_cons, List.mem_cons, not_or] at h
    have hne : (t == entry.1) = false := beq_false_of_ne h.1
    rw [List.cons_append, List.lookup_cons, hne]
    exact ih h.2

theorem eraseP_of_notMem {map : List (ℕ × ℕ)} {t : ℕ} (h : t ∉ map.map Prod.fst) (stamp : ℕ) :
    (map ++ [(t, stamp)]).eraseP (·.1 == t) = map := by
  have hnone : ∀ entry ∈ map, ¬(entry.1 == t) = true := fun entry hentry heq =>
    h (List.mem_map.mpr ⟨entry, hentry, beq_iff_eq.mp heq⟩)
  rw [List.eraseP_append_right _ hnone]
  simp

theorem WellFormed.notMem_stamps (hs : s.WellFormed) {t : ℕ} (hcurrent : s.tm.current = some t) :
    t ∉ s.suspendedTxStartStamps.map Prod.fst := by
  rw [hs.stamps, List.mem_reverse]
  exact fun ht => hs.ne_of_suspended ht hcurrent

theorem suspend_eq (hs : s.WellFormed) {t stamp : ℕ} (hcurrent : s.tm.current = some t)
    (hstamp : s.transactionStartStamp = some stamp) :
    s.suspend = (some t,
      { s with
        tm := s.tm.suspend
        suspendedTxStack := t :: s.suspendedTxStack
        suspendedTxLocationStack := s.placeholders :: s.suspendedTxLocationStack
        transactionBeginStack := none
        transactionBeginStackSave := s.transactionBeginStack :: s.transactionBeginStackSave
        setRollbackOnlyCause := none
        setRollbackOnlyCauseSave := s.setRollbackOnlyCause :: s.setRollbackOnlyCauseSave
        suspendedTxStartStamps := s.suspendedTxStartStamps ++ [(t, stamp)]
        placeholders := s.placeholders + 1 }) := by
  rw [suspend, hcurrent]
  dsimp only
  rw [pushSuspendedTransaction, pushTransactionStartStamp]
  dsimp only
  rw [hstamp]
  dsimp only
  rw [putStamp_of_notMem (hs.notMem_stamps hcurrent)]

theorem suspend_wellFormed (hs : s.WellFormed) : s.suspend.2.WellFormed := by
  cases hcurrent : s.tm.current with
  | none =>
    rw [suspend, hcurrent]
    exact hs
  | some t =>
    have hstamped := hs.stamped (hcurrent ▸ Option.some_ne_none t)
    obtain ⟨stamp, hstamp⟩ := Option.ne_none_iff_exists'.mp hstamped
    rw [suspend_eq hs hcurrent hstamp]
    have hsuspended : s.tm.suspend.suspended = t :: s.tm.suspended := by
      rw [TransactionManager.suspend, hcurrent]
      rfl
    refine ⟨hs.sound.suspend, ?_, ?_, fun h => absurd rfl h⟩
    · show t :: s.suspendedTxStack = s.tm.suspend.suspended
      rw [hsuspended, hs.suspendedTxStack]
    · show (s.suspendedTxStartStamps ++ [(t, stamp)]).map Prod.fst = s.tm.suspend.suspended.reverse
      rw [hsuspended, List.map_append, hs.stamps, List.reverse_cons]
      rfl

theorem resume_wellFormed (hs : s.WellFormed) (parentTx : Option ℕ) :
    (s.resume parentTx).2.WellFormed := by
  cases parentTx with
  | none => exact hs
  | some t =>
    rw [resume]
    dsimp only
    split_ifs with hcurrent ht
    · exact hs.congr hs.sound rfl rfl rfl hs.stamped
    · have hnone : s.tm.current = none := not_not.mp hcurrent
      have hnonempty : s.suspendedTxStack ≠ [] := by
        rw [hs.suspendedTxStack]
        exact List.ne_nil_of_mem ht
      have hkeys : t ∈ s.suspendedTxStartStamps.map Prod.fst := by
        rw [hs.stamps, List.mem_reverse]
        exact ht
      have hstamps : s.suspendedTxStartStamps ≠ [] := by
        rintro hnil
        rw [hnil] at hkeys
        cases hkeys
      have hnodup : s.tm.suspended.Nodup := by
        have hlive := hs.sound.nodup
        rw [TransactionManager.live, hnone] at hlive
        exact hlive
      rw [removeSuspendedTransaction, if_neg (by simpa using hnonempty),
        popTransactionStartStamp, if_neg (by simpa using hstamps)]
      refine ⟨hs.sound.resume hnone ht, ?_, ?_, fun _ => Option.some_ne_none _⟩
      · show s.suspendedTxStack.erase t = s.tm.suspended.erase t
        rw [hs.suspendedTxStack]
      · show (s.suspendedTxStartStamps.eraseP (·.1 == t)).map Prod.fst =
          (s.tm.suspended.erase t).reverse
        have hmap : (s.suspendedTxStartStamps.eraseP (·.1 == t)).map Prod.fst =
            (s.suspendedTxStartStamps.map Prod.fst).erase t := by
          rw [List.erase_eq_eraseP', List.eraseP_map]
          rfl
        rw [hmap, hs.stamps, (List.nodup_reverse.mpr hnodup).erase_eq_filter,
          hnodup.erase_eq_filter, List.filter_reverse]
    · exact hs.congr hs.sound rfl rfl rfl hs.stamped

/-- What a suspension leaves as it is, the transaction that it suspends included. -/
structure Resumes (s s' : Thread α) : Prop extends Restores s s' where
  untouchedCurrent : ∀ t, s.tm.current = some t → Untouched t s.tm s'.tm
  cause : s.tm.current ≠ none → s'.setRollbackOnlyCause = s.setRollbackOnlyCause

/-- **A suspension around a body that leaves the saved stacks alone.** -/
theorem resume_resumes (hs : s.WellFormed) {t : ℕ} (hcurrent : s.tm.current = some t)
    {r : Thread α} (hr : Restores s.suspend.2 r) :
    (r.resume s.suspend.1).1 = none ∧ Resumes s (r.resume s.suspend.1).2 := by
  have hstamped := hs.stamped (hcurrent ▸ Option.some_ne_none t)
  obtain ⟨stamp, hstamp⟩ := Option.ne_none_iff_exists'.mp hstamped
  rw [suspend_eq hs hcurrent hstamp] at hr ⊢
  have hnot := hs.notMem_stamps hcurrent
  have hsuspended : r.tm.suspended = t :: s.tm.suspended := by
    rw [hr.suspended]
    show s.tm.current.toList ++ s.tm.suspended = _
    rw [hcurrent]
    rfl
  have hnone : r.tm.current = none := hr.current
  have hstack : r.suspendedTxStack = t :: s.suspendedTxStack := hr.saved.1
  have hstamps : r.suspendedTxStartStamps = s.suspendedTxStartStamps ++ [(t, stamp)] :=
    hr.saved.5
  have huntouched (u : ℕ) (hu : u ∈ t :: s.tm.suspended) : Untouched u s.tm r.tm := by
    refine TransactionManager.untouched_suspend.trans (hr.untouched u ?_)
    show u ∈ s.tm.current.toList ++ s.tm.suspended
    rw [hcurrent]
    exact hu
  -- each stack has what the suspension has pushed on top, and `resume` pops it
  have hresume : r.resume (some t) = (none,
      { r with
        tm := r.tm.resume t
        suspendedTxStack := s.suspendedTxStack
        suspendedTxLocationStack := s.suspendedTxLocationStack
        transactionBeginStack := s.transactionBeginStack
        transactionBeginStackSave := s.transactionBeginStackSave
        setRollbackOnlyCause := s.setRollbackOnlyCause
        setRollbackOnlyCauseSave := s.setRollbackOnlyCauseSave
        transactionStartStamp := some stamp
        suspendedTxStartStamps := s.suspendedTxStartStamps }) := by
    have hlocations : r.suspendedTxLocationStack = s.placeholders :: s.suspendedTxLocationStack :=
      hr.saved.2
    have hbegins : r.transactionBeginStackSave =
        s.transactionBeginStack :: s.transactionBeginStackSave := hr.saved.3
    have hcauses : r.setRollbackOnlyCauseSave =
        s.setRollbackOnlyCause :: s.setRollbackOnlyCauseSave := hr.saved.4
    have hmem : t ∈ r.tm.suspended := hsuspended ▸ List.mem_cons_self
    have hnonempty : (s.suspendedTxStartStamps ++ [(t, stamp)]).isEmpty = false := by simp
    rw [resume]
    dsimp only
    rw [if_neg (not_not.mpr hnone), if_pos hmem, removeSuspendedTransaction]
    dsimp only
    rw [hstack, popTransactionStartStamp]
    dsimp only
    rw [hstamps, hnonempty, lookup_of_notMem hnot, eraseP_of_notMem hnot, hlocations, hbegins,
      hcauses, List.erase_cons_head]
    rfl
  rw [hresume]
  refine ⟨rfl, ⟨⟨⟨⟨rfl, rfl, rfl, rfl, rfl⟩, ?_, fun u hu => ?_⟩, hcurrent.symm, fun _ => ?_⟩,
    fun u hu => ?_, fun _ => rfl⟩⟩
  · show r.tm.suspended.erase t = s.tm.suspended
    rw [hsuspended, List.erase_cons_head]
  · exact (huntouched u (List.mem_cons_of_mem t hu)).trans TransactionManager.untouched_resume
  · exact ⟨rfl, hstamp.symm⟩
  · obtain rfl : t = u := Option.some.inj (hcurrent.symm.trans hu)
    exact (huntouched t List.mem_cons_self).trans TransactionManager.untouched_resume

theorem suspension_restores (hs : s.WellFormed) {r : Thread α} (hr : r.WellFormed)
    (hrestores : Restores s.suspend.2 r) :
    (r.resume s.suspend.1).2.WellFormed ∧ Restores s (r.resume s.suspend.1).2 := by
  refine ⟨resume_wellFormed hr _, ?_⟩
  cases hcurrent : s.tm.current with
  | none =>
    have hsuspend : s.suspend = (none, s) := by
      rw [suspend, hcurrent]
    rw [hsuspend] at hrestores ⊢
    exact hrestores
  | some t => exact (resume_resumes hs hcurrent hrestores).2.toRestores

theorem unit_restores (hs : s.WellFormed) {r : Thread α}
    (hr : s.begin.2.WellFormed → r.WellFormed ∧ Restores s.begin.2 r) {began : Bool}
    (hbegan : s.begin.1 = .ok began) (finish : Finish) (causeMessage : String)
    (thrown : Option Throwable) (answer : Answer α) :
    (finish.run began causeMessage thrown answer r).2.WellFormed ∧
      Restores s (finish.run began causeMessage thrown answer r).2 := by
  by_cases hcurrent : s.tm.current = none
  · obtain ⟨htrue, hbegun, hkeeps⟩ := begin_of_none hs hcurrent
    obtain rfl : began = true := Except.ok.inj (hbegan.symm.trans htrue)
    obtain ⟨hran, hrestores⟩ := hr hbegun
    obtain ⟨hended, hends⟩ := run_ends hran finish causeMessage thrown answer
    exact ⟨hended, (hkeeps.trans hrestores.toKeeps).trans hends.toKeeps,
      hends.current.trans hcurrent.symm, fun h => absurd hcurrent h⟩
  · obtain ⟨hsame, hfalse⟩ := begin_of_current hcurrent
    obtain rfl := hfalse began hbegan
    rw [hsame] at hr
    obtain ⟨hran, hrestores⟩ := hr hs
    obtain ⟨hended, hends⟩ := run_restores hran finish causeMessage thrown answer
    exact ⟨hended, hrestores.trans hends⟩

theorem begin_of_error (hs : s.WellFormed) {e : Throwable} (h : s.begin.1 = .error e) :
    s.begin.2 = s :=
  (begin_of_current fun hnone => nomatch h.symm.trans (begin_of_none hs hnone).1).1

end Thread

/-! ### Programs -/

namespace Program

open Thread

variable {s : Thread α}

/-- **Every program restores the thread.** The induction is on the program; a unit that begins a
transaction also ends it, and a suspension pops what it has pushed. -/
theorem exec_restores (p : Program α) (hs : s.WellFormed) :
    (p.exec s).2.WellFormed ∧ Restores s (p.exec s).2 := by
  induction p generalizing s with
  | skip => exact ⟨hs, Restores.refl s⟩
  | write a => exact write_restores hs a
  | startStamp => exact getTransactionStartStamp_restores hs
  | nowStamp =>
    exact ⟨hs.of_tm_eq ⟨rfl, rfl, rfl, rfl, rfl⟩ rfl rfl hs.stamped,
      Keeps.of_tm_eq ⟨rfl, rfl, rfl, rfl, rfl⟩ rfl, rfl, fun _ => ⟨rfl, rfl⟩⟩
  | wait ticks =>
    exact ⟨hs.of_tm_eq ⟨rfl, rfl, rfl, rfl, rfl⟩ rfl rfl hs.stamped,
      Keeps.of_tm_eq ⟨rfl, rfl, rfl, rfl, rfl⟩ rfl, rfl, fun _ => ⟨rfl, rfl⟩⟩
  | timeout => exact timeout_restores hs
  | setRollbackOnly causeMessage causeThrowable =>
    exact setRollbackOnly_restores hs causeMessage causeThrowable
  | throw e => exact ⟨hs, Restores.refl s⟩
  | seq p q ihp ihq =>
    obtain ⟨hp, hpr⟩ := ihp hs
    rw [exec]
    split
    · obtain ⟨hq, hqr⟩ := ihq hp
      exact ⟨hq, hpr.trans hqr⟩
    · exact ⟨hp, hpr⟩
  | tryCatch p q ihp ihq =>
    obtain ⟨hp, hpr⟩ := ihp hs
    rw [exec]
    split
    · exact ⟨hp, hpr⟩
    · obtain ⟨hq, hqr⟩ := ihq hp
      exact ⟨hq, hpr.trans hqr⟩
  | unit body onReturn onThrow causeMessage answer ih =>
    rw [exec]
    split
    · rename_i e hthrows
      rw [begin_of_error hs hthrows]
      exact ⟨hs, Restores.refl s⟩
    · rename_i began hbegan
      exact unit_restores hs (fun hs => ih hs) hbegan _ causeMessage _ answer
  | suspended body ih =>
    obtain ⟨hran, hrestores⟩ := ih (suspend_wellFormed hs)
    exact suspension_restores hs hran hrestores
  | inTransaction body ifErrorMessage answer ih =>
    -- it commits if the body returns and rolls back if it throws
    rw [exec]
    split
    · rename_i e hthrows
      rw [begin_of_error hs hthrows]
      exact ⟨hs, Restores.refl s⟩
    · rename_i tx hbegan
      dsimp only
      split
      · exact unit_restores hs (fun hs => ih hs) hbegan .commit ifErrorMessage none answer
      · exact unit_restores hs (fun hs => ih hs) hbegan .rollback ifErrorMessage _ answer
  | noTransaction body ih =>
    obtain ⟨hran, hrestores⟩ := ih (suspend_wellFormed hs)
    exact suspension_restores hs hran hrestores

end Program

/-! ### Reachable threads -/

namespace Thread

variable {s : Thread α}

/-- **One operation keeps a thread well formed.** -/
theorem apply_wellFormed (hs : s.WellFormed) (operation : Operation α) :
    (s.apply operation).WellFormed := by
  cases operation with
  | begin =>
    by_cases hcurrent : s.tm.current = none
    · exact (begin_of_none hs hcurrent).2.1
    · rw [apply, (begin_of_current hcurrent).1]
      exact hs
  | commit beganTransaction answer =>
    cases beganTransaction with
    | true => exact (commitCurrent_ends hs answer).1
    | false => exact hs
  | rollback beganTransaction causeMessage causeThrowable =>
    cases beganTransaction with
    | true => exact (rollbackCurrent_ends hs).1
    | false => exact (setRollbackOnly_restores hs causeMessage causeThrowable).1
  | setRollbackOnly causeMessage causeThrowable =>
    exact (setRollbackOnly_restores hs causeMessage causeThrowable).1
  | suspend => exact suspend_wellFormed hs
  | resume parentTx => exact resume_wellFormed hs parentTx
  | write a => exact (write_restores hs a).1
  | startStamp => exact (getTransactionStartStamp_restores hs).1
  | nowStamp => exact hs.of_tm_eq ⟨rfl, rfl, rfl, rfl, rfl⟩ rfl rfl hs.stamped
  | wait ticks => exact hs.of_tm_eq ⟨rfl, rfl, rfl, rfl, rfl⟩ rfl rfl hs.stamped
  | timeout => exact (timeout_restores hs).1

theorem wellFormed_of_reachable (h : (system (α := α)).Reachable s) : s.WellFormed := by
  refine h.invariant ?_ ?_
  · rintro _ rfl
    exact wellFormed_initial
  · rintro s operation _ - hs rfl
    exact apply_wellFormed hs operation

end Thread

namespace Program

open Thread

variable {s : Thread α}

/-- **Nested units of work.** For every program, in every thread that the operations lead to:
nothing in the database belongs to a transaction that a unit asked to roll back, and the saved
stacks, the suspended transactions, and all that a suspension around the program leaves alone are as
they were. -/
theorem exec_nesting (h : (Thread.system (α := α)).Reachable s) (p : Program α) :
    (∀ t a, (some t, a) ∈ (p.exec s).2.tm.database → t ∉ (p.exec s).2.asked) ∧
    (p.exec s).2.suspendedTxStack = s.suspendedTxStack ∧
    (p.exec s).2.suspendedTxLocationStack = s.suspendedTxLocationStack ∧
    (p.exec s).2.transactionBeginStackSave = s.transactionBeginStackSave ∧
    (p.exec s).2.setRollbackOnlyCauseSave = s.setRollbackOnlyCauseSave ∧
    (p.exec s).2.suspendedTxStartStamps = s.suspendedTxStartStamps ∧
    (∀ t ∈ s.suspendedTxStack, Untouched t s.tm (p.exec s).2.tm) ∧
    ∀ t, s.tm.current = some t →
      ((suspended p).exec s).2.tm.current = some t ∧
      Untouched t s.tm ((suspended p).exec s).2.tm ∧
      ((suspended p).exec s).2.transactionBeginStack = s.transactionBeginStack ∧
      ((suspended p).exec s).2.setRollbackOnlyCause = s.setRollbackOnlyCause ∧
      ((suspended p).exec s).2.transactionStartStamp = s.transactionStartStamp := by
  have hs := wellFormed_of_reachable h
  obtain ⟨hp, hrestores⟩ := exec_restores p hs
  refine ⟨hp.sound.respected, hrestores.saved.1, hrestores.saved.2, hrestores.saved.3,
    hrestores.saved.4, hrestores.saved.5,
    fun t ht => hrestores.untouched t (hs.suspendedTxStack ▸ ht), fun t hcurrent => ?_⟩
  have hsome : s.tm.current ≠ none := hcurrent ▸ Option.some_ne_none t
  have hresumes := (resume_resumes hs hcurrent (exec_restores p (suspend_wellFormed hs)).2).2
  exact ⟨hresumes.current.trans hcurrent, hresumes.untouchedCurrent t hcurrent,
    (hresumes.own hsome).1, hresumes.cause hsome, (hresumes.own hsome).2⟩

/-- A unit of its own, inside the transaction of another: its write is committed, and the outer
transaction is not touched. -/
theorem exec_nesting_new :
    Untouched 0 (initial.apply (.begin : Operation ℕ)).tm
      ((doNewTransaction (write 7) "" .committed).exec (initial.apply .begin)).2.tm ∧
    ((doNewTransaction (write 7) "" .committed).exec (initial.apply .begin)).2.tm.database =
      [(some 1, 7)] := by
  have hreach : (Thread.system (α := ℕ)).Reachable (initial.apply .begin) :=
    (System.Reachable.init rfl).tail (e := .begin) rfl
  have houter := (exec_nesting hreach (inTransaction (write 7) "" .committed)).2.2.2.2.2.2.2 0 rfl
  exact ⟨houter.2.1, rfl⟩

end Program

end OfficeAuto.Entity
