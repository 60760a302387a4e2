import Mathlib.Algebra.Ring.Int.Defs
import Mathlib.Algebra.Ring.Nat
import OfficeAuto.Logic.Transition

/-!
# Service semaphores

`ServiceSemaphore`: a service call that must run alone inserts a row under the name of the
service, and removes it when it is done. A caller is a service call with its own
`ServiceSemaphore` object; callers run in any number of threads and servers and share the
table `ServiceSemaphore`, whose primary key is the name of the service.

One step is one statement or one transaction call of one caller. A row inserted and not yet
committed keeps its key but is not read by other transactions, and a row removed and not yet
committed is still read. A statement that meets the uncommitted row of another transaction
waits: its success has no outcome in that state, while its failure always has.

`dbWrite` reports a failed statement, and a transaction that it may not begin, with a
`SemaphoreFailException`. An exception of `begin` or of a call before it, and one of `commit`, is
logged only: then `checkLockNeedToWait` says that the lock is owned though no row has been stored.
`exclusive_of_secure` proves mutual exclusion for the runs without such a loss.
-/

set_option linter.unusedSectionVars false

namespace OfficeAuto.Service

/-! ### The semaphore of a service call -/

/-- The attributes of a service that its semaphore reads. -/
structure SemaphoreModel where
  name : String
  semaphore : String
  semaphoreWait : ℤ
  semaphoreSleep : ℤ

inductive SemaphoreMode
  | fail
  | wait
  | none
  deriving DecidableEq

def SemaphoreModel.mode (model : SemaphoreModel) : SemaphoreMode :=
  if model.semaphore = "wait" then .wait
  else if model.semaphore = "fail" then .fail
  else .none

/-- `(model.semaphoreWait * 1000) / model.semaphoreSleep` on 32 bits, with no value for a
division by zero. -/
def SemaphoreModel.maxWaitCount (model : SemaphoreModel) : Option ℤ :=
  if model.semaphoreSleep = 0 then none
  else some ((((model.semaphoreWait * 1000).bmod (2 ^ 32)).tdiv model.semaphoreSleep).bmod
    (2 ^ 32))

/-- A caller: a service on a thread of a server. -/
structure SemaphoreCaller where
  model : SemaphoreModel
  instanceId : String
  threadName : String

/-- A value of the entity `ServiceSemaphore`. -/
structure SemaphoreValue where
  serviceName : String
  lockedByInstanceId : String
  lockThread : String
  lockTime : ℤ
  deriving DecidableEq

/-- Where a caller is within `acquire` and `release`: the statement that comes next. -/
inductive SemaphorePc
  | idle
  /-- `checkLockNeedToWait` is about to read the row. -/
  | checking
  /-- `dbWrite(value, delete)` is about to begin its own transaction. -/
  | beginning (value : SemaphoreValue) (delete : Bool)
  | creating (value : SemaphoreValue)
  | refreshing (value : SemaphoreValue)
  | removing (value : SemaphoreValue)
  /-- `dbWrite` is about to commit. -/
  | committing (delete : Bool)
  /-- `waitOrFail` sleeps before the next check. -/
  | sleeping
  deriving DecidableEq

/-- The fields of a `ServiceSemaphore`, the statement that comes next, and whether the caller
believes that it holds the lock: `acquire` has returned and `release` is not called yet. -/
structure Semaphore where
  lock : Option SemaphoreValue
  wait : ℕ
  lockTime : ℤ
  pc : SemaphorePc
  held : Bool

def Semaphore.new : Semaphore := ⟨none, 0, 0, .idle, false⟩

/-! ### The table -/

section System

variable {ι : Type} [DecidableEq ι]

/-- How far the transaction is that has last written the row. -/
inductive RowPhase (ι : Type)
  | inserting
  | stored
  | removing (remover : ι)
  deriving DecidableEq

/-- A row, with the caller that has inserted it. -/
structure SemaphoreRow (ι : Type) where
  value : SemaphoreValue
  creator : ι
  phase : RowPhase ι
  deriving DecidableEq

/-- The table by its primary key, the semaphores of all callers, and the removals so far: who
has removed a row and who had inserted it. -/
structure SemaphoreState (ι : Type) where
  table : String → Option (SemaphoreRow ι)
  sem : ι → Semaphore
  removals : List (ι × ι)

namespace SemaphoreState

variable (s : SemaphoreState ι) (c : ι)

def committed (name : String) : Option (SemaphoreRow ι) :=
  (s.table name).filter fun row => row.phase ≠ .inserting

def setSem (m : Semaphore) : SemaphoreState ι :=
  { s with sem := Function.update s.sem c m }

def setRow (name : String) (row : Option (SemaphoreRow ι)) : SemaphoreState ι :=
  { s with table := Function.update s.table name row }

def finish : SemaphoreState ι :=
  s.setSem c { s.sem c with pc := .idle }

def acquired : SemaphoreState ι :=
  s.setSem c { s.sem c with pc := .idle, held := true }

end SemaphoreState

/-! ### Statements and transaction calls -/

/-- The outcome of the calls that lead to an own transaction: `isTransactionInPlace`,
`suspend` or `begin` has thrown, or what `begin` has returned. -/
inductive BeginOutcome
  | threw
  | returned (beganTx : Bool)
  deriving DecidableEq

/-- A step of a caller. A Boolean says whether the statement or call succeeds. -/
inductive SemaphoreAct
  | acquire (nowTimestamp : ℤ)
  | query (ok : Bool)
  | sleep
  | begin (outcome : BeginOutcome)
  | create (ok : Bool)
  | refresh (ok : Bool)
  | remove (ok : Bool)
  | commit (ok : Bool)
  | release
  deriving DecidableEq

variable (callers : ι → SemaphoreCaller) (s : SemaphoreState ι) (c : ι)

/-- `checkLockNeedToWait` has returned true: `waitOrFail` throws, or sleeps once more. -/
def waitOrFail : SemaphoreState ι :=
  let sem := s.sem c
  match (callers c).model.mode with
  | .fail => s.finish c
  | .wait =>
    match (callers c).model.maxWaitCount with
    | none => s.finish c
    | some maxWaitCount =>
      if (sem.wait : ℤ) < maxWaitCount then
        s.setSem c { sem with wait := sem.wait + 1, pc := .sleeping }
      else s.finish c
  | .none => s.acquired c

def makeValue : SemaphoreValue :=
  ⟨(callers c).model.name, (callers c).instanceId, (callers c).threadName, (s.sem c).lockTime⟩

def acquire (nowTimestamp : ℤ) : SemaphoreState ι :=
  if (callers c).model.mode = .none then s
  else s.setSem c { s.sem c with lockTime := nowTimestamp, pc := .checking }

def release : SemaphoreState ι :=
  let sem := { s.sem c with held := false }
  if (callers c).model.mode = .none then s.setSem c sem
  else
    match sem.lock with
    | none => s.setSem c sem
    | some value => s.setSem c { sem with pc := .beginning value true }

def query (ok : Bool) : SemaphoreState ι :=
  if ok then
    match s.committed (callers c).model.name with
    | none => s.setSem c { s.sem c with pc := .beginning (makeValue callers s c) false }
    | some _ => waitOrFail callers s c
  else s.finish c

/-- The start of `dbWrite`. An exception is caught and logged, and `dbWrite` returns; without
a transaction of its own it throws a `SemaphoreFailException`, which `checkLockNeedToWait`
takes for a lock and `release` passes on. -/
def begin (value : SemaphoreValue) (delete : Bool) : BeginOutcome → SemaphoreState ι
  | .threw => if delete then s.finish c else s.acquired c
  | .returned false => if delete then s.finish c else waitOrFail callers s c
  | .returned true =>
    s.setSem c { s.sem c with pc := if delete then .refreshing value else .creating value }

def create (value : SemaphoreValue) (ok : Bool) : Option (SemaphoreState ι) :=
  if ok then
    match s.table value.serviceName with
    | none => some ((s.setRow value.serviceName (some ⟨value, c, .inserting⟩)).setSem c
        { s.sem c with lock := some value, pc := .committing false })
    | some _ => none
  else some (waitOrFail callers s c)

/-- `value.refresh()`, where `value` is the object in the field `lock`. It fails when there is
no row. -/
def refresh (value : SemaphoreValue) (ok : Bool) : SemaphoreState ι :=
  if ok then
    match s.committed value.serviceName with
    | none => s.finish c
    | some row => s.setSem c { s.sem c with lock := some row.value, pc := .removing row.value }
  else s.finish c

/-- `value.remove()` by the primary key, and `lock = null`. -/
def remove (value : SemaphoreValue) (ok : Bool) : Option (SemaphoreState ι) :=
  if ok then
    let s' := s.setSem c { s.sem c with lock := none, pc := .committing true }
    match s.table value.serviceName with
    | none => some s'
    | some row =>
      if row.phase = .stored then
        some { s'.setRow value.serviceName (some { row with phase := .removing c }) with
          removals := (c, row.creator) :: s.removals }
      else none
  else some (s.finish c)

/-- What the end of the transaction makes of a row: the one that it has written is stored or
removed, or else is as before. -/
def endTransaction (delete ok : Bool) (row : SemaphoreRow ι) : Option (SemaphoreRow ι) :=
  if delete then
    if row.phase = .removing c then
      if ok then none else some { row with phase := .stored }
    else some row
  else if row.phase = .inserting ∧ row.creator = c then
    if ok then some { row with phase := .stored } else none
  else some row

/-- The end of `dbWrite`. The exception of a commit that fails is logged. -/
def commit (delete ok : Bool) : SemaphoreState ι :=
  let name := (callers c).model.name
  let s' := s.setRow name ((s.table name).bind (endTransaction c delete ok))
  if delete then s'.finish c else s'.acquired c

/-- The step of a caller: which act it can make is decided by where it is. -/
def semaphoreStep (s : SemaphoreState ι) : ι × SemaphoreAct → Option (SemaphoreState ι)
  | (c, act) =>
    match (s.sem c).pc, act with
    | .idle, .acquire now => some (acquire callers s c now)
    | .idle, .release => some (release callers s c)
    | .checking, .query ok => some (query callers s c ok)
    | .sleeping, .sleep =>
      if (callers c).model.semaphoreSleep < 0 then some (s.finish c)
      else some (s.setSem c { s.sem c with pc := .checking })
    | .beginning value delete, .begin outcome => some (begin callers s c value delete outcome)
    | .creating value, .create ok => create callers s c value ok
    | .refreshing value, .refresh ok => some (refresh s c value ok)
    | .removing value, .remove ok => remove s c value ok
    | .committing delete, .commit ok => some (commit callers s c delete ok)
    | _, _ => none

def SemaphoreState.start : SemaphoreState ι := ⟨fun _ => none, fun _ => .new, []⟩

def semaphores : System (SemaphoreState ι) (ι × SemaphoreAct) :=
  .ofStep (· = .start) (semaphoreStep callers)

/-! ### What a caller relies on -/

variable {callers s c}

/-- Two callers of one service do not both believe that they hold its lock. -/
def Exclusive (callers : ι → SemaphoreCaller) (s : SemaphoreState ι) : Prop :=
  ∀ c d, (callers c).model.name = (callers d).model.name →
    (s.sem c).held = true → (s.sem d).held = true → c = d

def OwnRemovals (s : SemaphoreState ι) : Prop :=
  ∀ removal ∈ s.removals, removal.1 = removal.2

def Owns (callers : ι → SemaphoreCaller) (table : String → Option (SemaphoreRow ι)) (c : ι)
    (phase : RowPhase ι) : Prop :=
  ∃ row, table (callers c).model.name = some row ∧ row.creator = c ∧ row.phase = phase

/-- **What a caller relies on**: its own row is in the table while it believes that it holds
the lock, and while the field `lock` is set; what it is about to remove is that row. -/
structure Relies (callers : ι → SemaphoreCaller) (table : String → Option (SemaphoreRow ι))
    (c : ι) (m : Semaphore) : Prop where
  mode : m.pc ≠ .idle → (callers c).model.mode ≠ .none
  held : m.held = true → Owns callers table c .stored
  name : ∀ value, m.lock = some value → value.serviceName = (callers c).model.name
  lock : m.pc ≠ .committing false → ∀ value, m.lock = some value → Owns callers table c .stored
  inserted : m.pc = .committing false → Owns callers table c .inserting
  made : ∀ value, m.pc = .beginning value false ∨ m.pc = .creating value →
    value.serviceName = (callers c).model.name
  removes : ∀ value, m.pc = .beginning value true ∨ m.pc = .refreshing value ∨
    m.pc = .removing value → m.lock = some value ∧ m.held = false

/-- The invariant of the runs without a loss. -/
structure SemaphoreInv (callers : ι → SemaphoreCaller) (s : SemaphoreState ι) : Prop where
  relies : ∀ c, Relies callers s.table c (s.sem c)
  keyed : ∀ name row, s.table name = some row → row.value.serviceName = name
  own : OwnRemovals s

@[simp]
theorem setSem_table (m : Semaphore) : (s.setSem c m).table = s.table :=
  rfl

@[simp]
theorem setSem_removals (m : Semaphore) : (s.setSem c m).removals = s.removals :=
  rfl

@[simp]
theorem setSem_sem_self (m : Semaphore) : (s.setSem c m).sem c = m := by
  simp [SemaphoreState.setSem]

theorem setSem_sem_of_ne {d : ι} (h : d ≠ c) (m : Semaphore) :
    (s.setSem c m).sem d = s.sem d := by
  simp [SemaphoreState.setSem, h]

@[simp]
theorem setRow_sem (name : String) (row : Option (SemaphoreRow ι)) :
    (s.setRow name row).sem = s.sem :=
  rfl

@[simp]
theorem setRow_removals (name : String) (row : Option (SemaphoreRow ι)) :
    (s.setRow name row).removals = s.removals :=
  rfl

@[simp]
theorem setRow_table_self (name : String) (row : Option (SemaphoreRow ι)) :
    (s.setRow name row).table name = row := by
  simp [SemaphoreState.setRow]

/-! ### Steps that leave the table as it is -/

theorem SemaphoreInv.setSem (h : SemaphoreInv callers s) {m : Semaphore}
    (hm : Relies callers s.table c m) : SemaphoreInv callers (s.setSem c m) := by
  refine ⟨fun d => ?_, h.keyed, h.own⟩
  by_cases hd : d = c
  · subst hd
    rw [setSem_sem_self]
    exact hm
  · rw [setSem_sem_of_ne hd]
    exact h.relies d

theorem SemaphoreInv.finish (h : SemaphoreInv callers s)
    (hpc : (s.sem c).pc ≠ .committing false) : SemaphoreInv callers (s.finish c) := by
  have hc := h.relies c
  refine h.setSem ⟨fun hidle => absurd rfl hidle, hc.held, hc.name, fun _ => hc.lock hpc,
    ?_, ?_, ?_⟩ <;> simp

theorem SemaphoreInv.within (h : SemaphoreInv callers s) {pc : SemaphorePc} {wait : ℕ}
    {lockTime : ℤ} (hmode : (callers c).model.mode ≠ .none)
    (hpc : (s.sem c).pc ≠ .committing false) (hcommit : pc ≠ .committing false)
    (hmade : ∀ value, pc = .beginning value false ∨ pc = .creating value →
      value.serviceName = (callers c).model.name)
    (hremoves : ∀ value, pc = .beginning value true ∨ pc = .refreshing value ∨
      pc = .removing value → (s.sem c).lock = some value ∧ (s.sem c).held = false) :
    SemaphoreInv callers
      (s.setSem c { s.sem c with wait := wait, lockTime := lockTime, pc := pc }) := by
  have hc := h.relies c
  exact h.setSem ⟨fun _ => hmode, hc.held, hc.name, fun _ => hc.lock hpc,
    fun heq => absurd heq hcommit, hmade, hremoves⟩

theorem SemaphoreInv.waitOrFail (h : SemaphoreInv callers s) (hidle : (s.sem c).pc ≠ .idle)
    (hpc : (s.sem c).pc ≠ .committing false) :
    SemaphoreInv callers (waitOrFail callers s c) := by
  have hmode := (h.relies c).mode hidle
  rw [Service.waitOrFail]
  split
  · exact h.finish hpc
  · split
    · exact h.finish hpc
    · split
      · exact h.within hmode hpc (by simp) (by simp) (by simp)
      · exact h.finish hpc
  · next heq => exact absurd heq hmode

theorem SemaphoreInv.acquire (h : SemaphoreInv callers s) (hpc : (s.sem c).pc = .idle)
    (now : ℤ) : SemaphoreInv callers (acquire callers s c now) := by
  rw [Service.acquire]
  split
  · exact h
  · next hmode => exact h.within hmode (by simp [hpc]) (by simp) (by simp) (by simp)

theorem SemaphoreInv.release (h : SemaphoreInv callers s) (hpc : (s.sem c).pc = .idle) :
    SemaphoreInv callers (release callers s c) := by
  have hc := h.relies c
  have hne : (s.sem c).pc ≠ .committing false := by simp [hpc]
  have hreleased : Relies callers s.table c { s.sem c with held := false } :=
    ⟨hc.mode, by simp, hc.name, hc.lock, hc.inserted, hc.made,
      fun value hv => ⟨(hc.removes value hv).1, rfl⟩⟩
  rw [Service.release]
  split
  · exact h.setSem hreleased
  · next hmode =>
    split
    · exact h.setSem hreleased
    · next value hlock =>
      refine h.setSem ⟨fun _ => hmode, by simp, hc.name, fun _ => hc.lock hne, by simp,
        by simp, ?_⟩
      intro v hv
      have hval : value = v := by simpa using hv
      exact ⟨hval ▸ hlock, rfl⟩

theorem SemaphoreInv.query (h : SemaphoreInv callers s) (hpc : (s.sem c).pc = .checking)
    (ok : Bool) : SemaphoreInv callers (query callers s c ok) := by
  have hidle : (s.sem c).pc ≠ .idle := by simp [hpc]
  have hne : (s.sem c).pc ≠ .committing false := by simp [hpc]
  rw [Service.query]
  split
  · split
    · refine h.within ((h.relies c).mode hidle) hne (by simp) ?_ (by simp)
      rintro value (heq | heq)
      · cases heq
        rfl
      · cases heq
    · exact h.waitOrFail hidle hne
  · exact h.finish hne

/-- A step loses a lock if `dbWrite` returns after it without a stored row: an exception before
the row is created, or a commit of the row that fails. -/
def Loses (s : SemaphoreState ι) : ι × SemaphoreAct → Prop
  | (c, .begin .threw) => ∃ value, (s.sem c).pc = .beginning value false
  | (c, .commit false) => (s.sem c).pc = .committing false
  | _ => False

theorem SemaphoreInv.begin (h : SemaphoreInv callers s) {value : SemaphoreValue}
    {delete : Bool} (hpc : (s.sem c).pc = .beginning value delete) {outcome : BeginOutcome}
    (hsafe : ¬ Loses s (c, .begin outcome)) :
    SemaphoreInv callers (begin callers s c value delete outcome) := by
  have hidle : (s.sem c).pc ≠ .idle := by simp [hpc]
  have hne : (s.sem c).pc ≠ .committing false := by simp [hpc]
  have hc := h.relies c
  cases delete with
  | false =>
    cases outcome with
    | threw => exact absurd ⟨value, hpc⟩ hsafe
    | returned beganTx =>
      cases beganTx with
      | false => exact h.waitOrFail hidle hne
      | true =>
        refine h.within (hc.mode hidle) hne (by simp) ?_ (by simp)
        rintro v (heq | heq)
        · cases heq
        · cases heq
          exact hc.made value (Or.inl hpc)
  | true =>
    cases outcome with
    | threw => exact h.finish hne
    | returned beganTx =>
      cases beganTx with
      | false => exact h.finish hne
      | true =>
        refine h.within (hc.mode hidle) hne (by simp) (by simp) ?_
        intro v hv
        have hval : value = v := by simpa using hv
        exact hval ▸ hc.removes value (Or.inl hpc)

theorem SemaphoreInv.refresh (h : SemaphoreInv callers s) {value : SemaphoreValue}
    (hpc : (s.sem c).pc = .refreshing value) (ok : Bool) :
    SemaphoreInv callers (refresh s c value ok) := by
  have hidle : (s.sem c).pc ≠ .idle := by simp [hpc]
  have hne : (s.sem c).pc ≠ .committing false := by simp [hpc]
  have hc := h.relies c
  obtain ⟨hlock, hheld⟩ := hc.removes value (Or.inr (Or.inl hpc))
  rw [Service.refresh]
  split
  · split
    · exact h.finish hne
    · next row hrow =>
      have hkey : row.value.serviceName = (callers c).model.name := by
        rw [h.keyed _ row (Option.filter_eq_some_iff.mp hrow).1, hc.name value hlock]
      refine h.setSem ⟨fun _ => hc.mode hidle, hc.held, ?_,
        fun _ _ _ => hc.lock hne value hlock, by simp, by simp, ?_⟩
      · rintro v hv
        cases hv
        exact hkey
      · intro v hv
        have hval : row.value = v := by simpa using hv
        exact ⟨congrArg some hval, hheld⟩
  · exact h.finish hne

/-! ### Steps that write a row -/

/-- The rows that change are the caller's own, or rows that are being removed. -/
def OthersKeep (c : ι) (table table' : String → Option (SemaphoreRow ι)) : Prop :=
  ∀ name, table' name = table name ∨ ∀ row, table name = some row →
    row.creator = c ∨ ∃ remover, row.phase = .removing remover

theorem Owns.of_othersKeep {table table' : String → Option (SemaphoreRow ι)} {d : ι}
    {phase : RowPhase ι} (hkeep : OthersKeep c table table') (hd : d ≠ c)
    (hphase : ∀ remover, phase ≠ .removing remover) (h : Owns callers table d phase) :
    Owns callers table' d phase := by
  obtain ⟨row, hrow, hcreator, hrowPhase⟩ := h
  obtain heq | hown := hkeep (callers d).model.name
  · exact ⟨row, heq.trans hrow, hcreator, hrowPhase⟩
  · obtain hc | ⟨remover, hremoving⟩ := hown row hrow
    · exact absurd (hcreator.symm.trans hc) hd
    · exact absurd (hrowPhase.symm.trans hremoving) (hphase remover)

theorem Relies.of_othersKeep {table table' : String → Option (SemaphoreRow ι)} {d : ι}
    {m : Semaphore} (hkeep : OthersKeep c table table') (hd : d ≠ c)
    (h : Relies callers table d m) : Relies callers table' d m where
  mode := h.mode
  held hheld := (h.held hheld).of_othersKeep hkeep hd (by simp)
  name := h.name
  lock hpc value hlock := (h.lock hpc value hlock).of_othersKeep hkeep hd (by simp)
  inserted hpc := (h.inserted hpc).of_othersKeep hkeep hd (by simp)
  made := h.made
  removes := h.removes

/-- **A step of one caller that writes one row**: the other callers keep what they rely on. -/
theorem SemaphoreInv.write (h : SemaphoreInv callers s) {s' : SemaphoreState ι} {name : String}
    {row : Option (SemaphoreRow ι)} {m : Semaphore}
    (htable : s'.table = Function.update s.table name row)
    (hsem : s'.sem = Function.update s.sem c m) (hown : OwnRemovals s')
    (hkey : ∀ r, row = some r → r.value.serviceName = name)
    (hkeep : ∀ r, s.table name = some r →
      row = some r ∨ r.creator = c ∨ ∃ remover, r.phase = .removing remover)
    (hm : Relies callers s'.table c m) : SemaphoreInv callers s' := by
  have hothers : OthersKeep c s.table s'.table := by
    intro n
    by_cases hn : n = name
    · subst hn
      rw [htable, Function.update_self]
      cases hrow : s.table n with
      | none => exact Or.inr fun r hr => by cases hr
      | some r =>
        obtain hsame | hwritten := hkeep r hrow
        · exact Or.inl hsame
        · exact Or.inr fun r' hr' => Option.some.inj hr' ▸ hwritten
    · exact Or.inl (by rw [htable, Function.update_of_ne hn])
  refine ⟨fun d => ?_, fun n r hr => ?_, hown⟩
  · by_cases hd : d = c
    · subst hd
      rw [hsem, Function.update_self]
      exact hm
    · rw [hsem, Function.update_of_ne hd]
      exact (h.relies d).of_othersKeep hothers hd
  · by_cases hn : n = name
    · subst hn
      rw [htable, Function.update_self] at hr
      exact hkey r hr
    · rw [htable, Function.update_of_ne hn] at hr
      exact h.keyed n r hr

theorem Owns.not_none {table : String → Option (SemaphoreRow ι)} {phase : RowPhase ι}
    (h : Owns callers table c phase) : table (callers c).model.name ≠ none := by
  obtain ⟨row, hrow, -⟩ := h
  rw [hrow]
  exact Option.some_ne_none row

theorem SemaphoreInv.create (h : SemaphoreInv callers s) {value : SemaphoreValue}
    (hpc : (s.sem c).pc = .creating value) {ok : Bool} {s' : SemaphoreState ι}
    (hstep : create callers s c value ok = some s') : SemaphoreInv callers s' := by
  have hidle : (s.sem c).pc ≠ .idle := by simp [hpc]
  have hne : (s.sem c).pc ≠ .committing false := by simp [hpc]
  have hc := h.relies c
  have hname := hc.made value (Or.inr hpc)
  rw [Service.create] at hstep
  split at hstep
  · split at hstep
    · next hnone =>
      obtain rfl := Option.some.inj hstep
      -- without a row of the service, the caller has relied on none
      have hfree : ¬ Owns callers s.table c .stored := fun howns =>
        howns.not_none (hname ▸ hnone)
      have hheld : (s.sem c).held ≠ true := fun hheld => hfree (hc.held hheld)
      refine h.write (c := c) rfl rfl h.own ?_ ?_ ⟨fun _ => hc.mode hidle,
        fun hh => absurd hh hheld, ?_, by simp, fun _ => ?_, by simp, by simp⟩
      · rintro r hr
        cases hr
        rfl
      · intro r hr
        rw [hnone] at hr
        cases hr
      · rintro v hv
        cases hv
        exact hname
      · exact ⟨⟨value, c, .inserting⟩, by simp [hname.symm], rfl, rfl⟩
    · cases hstep
  · obtain rfl := Option.some.inj hstep
    exact h.waitOrFail hidle hne

theorem SemaphoreInv.remove (h : SemaphoreInv callers s) {value : SemaphoreValue}
    (hpc : (s.sem c).pc = .removing value) {ok : Bool} {s' : SemaphoreState ι}
    (hstep : remove s c value ok = some s') : SemaphoreInv callers s' := by
  have hidle : (s.sem c).pc ≠ .idle := by simp [hpc]
  have hne : (s.sem c).pc ≠ .committing false := by simp [hpc]
  have hc := h.relies c
  obtain ⟨hlock, hheld⟩ := hc.removes value (Or.inr (Or.inr hpc))
  obtain ⟨own, hrowOwn, hcreator, hstored⟩ := hc.lock hne value hlock
  have hname := hc.name value hlock
  rw [Service.remove] at hstep
  split at hstep
  · split at hstep
    · next hnone =>
      rw [hname, hrowOwn] at hnone
      cases hnone
    · next row hrow =>
      rw [hname, hrowOwn] at hrow
      obtain rfl := Option.some.inj hrow
      rw [if_pos hstored] at hstep
      obtain rfl := Option.some.inj hstep
      refine h.write (c := c) rfl rfl ?_ ?_ ?_ ⟨fun _ => hc.mode hidle, by simp [hheld],
        by simp, by simp, by simp, by simp, by simp⟩
      · intro removal hmem
        obtain rfl | hmem := List.mem_cons.mp hmem
        · exact hcreator.symm
        · exact h.own removal hmem
      · rintro r hr
        cases hr
        rw [hname]
        exact h.keyed _ own hrowOwn
      · intro r hr
        rw [hname, hrowOwn] at hr
        exact Or.inr (Or.inl (Option.some.inj hr ▸ hcreator))
  · obtain rfl := Option.some.inj hstep
    exact h.finish hne

theorem value_of_endTransaction {delete ok : Bool} {row r : SemaphoreRow ι}
    (h : endTransaction c delete ok row = some r) : r.value = row.value := by
  rw [endTransaction] at h
  split_ifs at h <;> simp only [Option.some.injEq] at h <;> simp [← h]

theorem endTransaction_of_ne {ok : Bool} {row : SemaphoreRow ι} (h : row.phase ≠ .removing c) :
    endTransaction c true ok row = some row := by
  rw [endTransaction, if_pos rfl, if_neg h]

theorem SemaphoreInv.commit_create (h : SemaphoreInv callers s)
    (hpc : (s.sem c).pc = .committing false) :
    SemaphoreInv callers (commit callers s c false true) := by
  have hc := h.relies c
  obtain ⟨row, hrow, hcreator, hinserting⟩ := hc.inserted hpc
  have hend : endTransaction c false true row = some { row with phase := .stored } := by
    rw [endTransaction, if_neg Bool.false_ne_true, if_pos ⟨hinserting, hcreator⟩, if_pos rfl]
  have hown : Owns callers (commit callers s c false true).table c .stored := by
    refine ⟨{ row with phase := .stored }, ?_, hcreator, rfl⟩
    simp [Service.commit, SemaphoreState.acquired, hrow, hend]
  refine h.write (c := c) rfl rfl h.own ?_ ?_ ⟨fun hidle => absurd rfl hidle, fun _ => hown,
    hc.name, fun _ _ _ => hown, by simp, by simp, by simp⟩
  · intro r hr
    obtain ⟨row', hrow', hend'⟩ := Option.bind_eq_some_iff.mp hr
    rw [value_of_endTransaction hend']
    exact h.keyed _ row' hrow'
  · intro r hr
    rw [hrow] at hr
    exact Or.inr (Or.inl (Option.some.inj hr ▸ hcreator))

theorem SemaphoreInv.commit_remove (h : SemaphoreInv callers s)
    (hpc : (s.sem c).pc = .committing true) (ok : Bool) :
    SemaphoreInv callers (commit callers s c true ok) := by
  have hne : (s.sem c).pc ≠ .committing false := by simp [hpc]
  have hc := h.relies c
  have hstored : Owns callers s.table c .stored →
      Owns callers (commit callers s c true ok).table c .stored := by
    rintro ⟨row, hrow, hcreator, hphase⟩
    have hend : endTransaction c true ok row = some row :=
      endTransaction_of_ne (by simp [hphase])
    refine ⟨row, ?_, hcreator, hphase⟩
    simp [Service.commit, SemaphoreState.finish, hrow, hend]
  refine h.write (c := c) rfl rfl h.own ?_ ?_ ⟨fun hidle => absurd rfl hidle,
    fun hheld => hstored (hc.held hheld), hc.name,
    fun _ value hlock => hstored (hc.lock hne value hlock), by simp, by simp, by simp⟩
  · intro r hr
    obtain ⟨row, hrow, hend⟩ := Option.bind_eq_some_iff.mp hr
    rw [value_of_endTransaction hend]
    exact h.keyed _ row hrow
  · intro r hr
    rw [hr, Option.bind_some]
    by_cases hphase : r.phase = .removing c
    · exact Or.inr (Or.inr ⟨c, hphase⟩)
    · exact Or.inl (endTransaction_of_ne hphase)

/-! ### Mutual exclusion -/

/-- **The invariant is kept** by every step that does not lose a lock. -/
theorem SemaphoreInv.step (h : SemaphoreInv callers s) {act : SemaphoreAct}
    {s' : SemaphoreState ι} (hstep : semaphoreStep callers s (c, act) = some s')
    (hsafe : ¬ Loses s (c, act)) : SemaphoreInv callers s' := by
  dsimp only [semaphoreStep] at hstep
  split at hstep
  · next hpc => exact Option.some.inj hstep ▸ h.acquire hpc _
  · next hpc => exact Option.some.inj hstep ▸ h.release hpc
  · next hpc => exact Option.some.inj hstep ▸ h.query hpc _
  · next hpc =>
    have hne : (s.sem c).pc ≠ .committing false := by simp [hpc]
    split at hstep
    · exact Option.some.inj hstep ▸ h.finish hne
    · exact Option.some.inj hstep ▸
        h.within ((h.relies c).mode (by simp [hpc])) hne (by simp) (by simp) (by simp)
  · next hpc => exact Option.some.inj hstep ▸ h.begin hpc hsafe
  · next hpc => exact h.create hpc hstep
  · next hpc => exact Option.some.inj hstep ▸ h.refresh hpc _
  · next hpc => exact h.remove hpc hstep
  · next delete ok hpc =>
    cases delete with
    | true => exact Option.some.inj hstep ▸ h.commit_remove hpc ok
    | false =>
      cases ok with
      | true => exact Option.some.inj hstep ▸ h.commit_create hpc
      | false => exact absurd hpc hsafe
  · cases hstep

theorem SemaphoreInv.start : SemaphoreInv callers .start := by
  refine ⟨fun c => ?_, fun name row hrow => ?_, fun removal hmem => ?_⟩
  · constructor <;> simp [SemaphoreState.start, Semaphore.new]
  · cases hrow
  · cases hmem

theorem SemaphoreInv.exclusive (h : SemaphoreInv callers s) : Exclusive callers s := by
  intro c d hname hc hd
  obtain ⟨row, hrow, hcreator, -⟩ := (h.relies c).held hc
  obtain ⟨row', hrow', hcreator', -⟩ := (h.relies d).held hd
  rw [← hname, hrow] at hrow'
  obtain rfl := Option.some.inj hrow'
  exact hcreator.symm.trans hcreator'

def secureSemaphores (callers : ι → SemaphoreCaller) :
    System (SemaphoreState ι) (ι × SemaphoreAct) :=
  (semaphores callers).restrict fun s e => ¬ Loses s e

/-- **Mutual exclusion**: in every run in which `dbWrite` never returns from an `acquire`
without a stored row, no two callers of a service believe that they hold its lock, and no
caller removes the row of another. -/
theorem exclusive_of_secure (h : (secureSemaphores callers).Reachable s) :
    Exclusive callers s ∧ OwnRemovals s := by
  have hinv : SemaphoreInv callers s := by
    refine h.invariant (P := SemaphoreInv callers) ?_ ?_
    · rintro s rfl
      exact SemaphoreInv.start
    · rintro s ⟨c, act⟩ s' - hs ⟨hstep, hsafe⟩
      exact hs.step hstep hsafe
  exact ⟨hinv.exclusive, hinv.own⟩

end System

/-! ### Two callers of one service -/

def twoCallers (second : Bool) : SemaphoreCaller :=
  ⟨⟨"purgeOldJobs", "fail", 300, 500⟩, "ofbiz0", if second then "worker-2" else "worker-1"⟩

def secureRun : List (Bool × SemaphoreAct) :=
  [(false, .acquire 0), (false, .query true), (false, .begin (.returned true)),
    (false, .create true), (false, .commit true), (true, .acquire 1), (true, .query true),
    (false, .release), (false, .begin (.returned true)), (false, .refresh true),
    (false, .remove true)]

theorem exclusive_of_secure_twoCallers :
    ∃ s, secureRun.foldlM (semaphoreStep twoCallers) .start = some s ∧
      s.removals = [(false, false)] ∧ Exclusive twoCallers s ∧ OwnRemovals s := by
  have hremovals : (secureRun.foldlM (semaphoreStep twoCallers) .start).map
      SemaphoreState.removals = some [(false, false)] := rfl
  obtain ⟨s, hrun, hs⟩ := Option.map_eq_some_iff.mp hremovals
  have hsafe : ∀ e ∈ secureRun, ∀ t, ¬ Loses t e := by
    intro e he t
    simp only [secureRun, List.mem_cons, List.not_mem_nil, or_false] at he
    obtain rfl | rfl | rfl | rfl | rfl | rfl | rfl | rfl | rfl | rfl | rfl := he <;> exact id
  have hreach : (secureSemaphores twoCallers).Reachable s :=
    (System.Reachable.init rfl).foldlM (fun e he t t' ht => ⟨ht, hsafe e he t⟩) hrun
  exact ⟨s, hrun, hs, exclusive_of_secure hreach⟩

/-- Neither caller can begin a transaction, and both return from `acquire`. -/
def failedBeginRun : List (Bool × SemaphoreAct) :=
  [(false, .acquire 0), (false, .query true), (false, .begin .threw), (true, .acquire 1),
    (true, .query true), (true, .begin .threw)]

/-- The commit of the first caller fails and is logged, so the second one inserts its row as
well. What the first one removes is then the row of the second. -/
def failedCommitRun : List (Bool × SemaphoreAct) :=
  [(false, .acquire 0), (false, .query true), (false, .begin (.returned true)),
    (false, .create true), (false, .commit false), (true, .acquire 1), (true, .query true),
    (true, .begin (.returned true)), (true, .create true), (true, .commit true),
    (false, .release), (false, .begin (.returned true)), (false, .refresh true),
    (false, .remove true)]

theorem reachable_of_run {run : List (Bool × SemaphoreAct)} {s : SemaphoreState Bool}
    (hrun : run.foldlM (semaphoreStep twoCallers) .start = some s) :
    (semaphores twoCallers).Reachable s :=
  (System.Reachable.init rfl).foldlM (fun _ _ _ _ ht => ht) hrun

/-- **Mutual exclusion can be lost**: when `begin` throws, two callers hold the lock; when a
commit fails, a caller removes the row of the other. -/
theorem not_exclusive :
    (∃ s, (semaphores twoCallers).Reachable s ∧ ¬ Exclusive twoCallers s) ∧
    (∃ s, (semaphores twoCallers).Reachable s ∧ ¬ OwnRemovals s) := by
  constructor
  · have hheld : (failedBeginRun.foldlM (semaphoreStep twoCallers) .start).map
        (fun s => (s.sem false).held && (s.sem true).held) = some true := rfl
    obtain ⟨s, hrun, hs⟩ := Option.map_eq_some_iff.mp hheld
    obtain ⟨hfirst, hsecond⟩ := Bool.and_eq_true_iff.mp hs
    exact ⟨s, reachable_of_run hrun, fun hexclusive =>
      Bool.false_ne_true (hexclusive false true rfl hfirst hsecond)⟩
  · have hremovals : (failedCommitRun.foldlM (semaphoreStep twoCallers) .start).map
        SemaphoreState.removals = some [(false, true)] := rfl
    obtain ⟨s, hrun, hs⟩ := Option.map_eq_some_iff.mp hremovals
    refine ⟨s, reachable_of_run hrun, fun hown => ?_⟩
    exact Bool.false_ne_true (hown (false, true) (hs ▸ List.mem_singleton_self _))

end OfficeAuto.Service
