import Mathlib.Data.List.Nodup
import Mathlib.Data.List.Perm.Basic
import OfficeAuto.Logic.Transition

/-!
# The job table and the instances that run it

Any number of application instances share the table `JobSandbox`. An instance polls it,
claims due rows by a conditional update, hands the claimed jobs to its executor, and writes
their progress back; after a crash it reloads the rows that it had claimed. The step relation
of this module takes every database statement as one step, so that the statements of all
instances, pollers and workers interleave in any order:

* `poll` reads the due rows (`pollBegin`), tries to claim them one after the other in one
  transaction (`claim`), and commits or rolls back (`pollCommit`, `pollRollback`);
* `queue`, `deQueue` and `init` refresh the row of a job (`refresh`), change it in memory and
  store it (`store`). A refresh that finds the row claimed by another instance, cancelled or
  started ends the job object;
* `init` inserts the next row of a recurring job (`createRecurrence`), the service runs
  (`run`), and `finish` or `failed` store the outcome, `failed` after inserting a retry;
* `reloadCrashedJobs` reads the rows that the instance had claimed (`start`) and, for each,
  inserts a copy (`reloadCopy`) and marks the old row (`reloadMark`);
* a crash loses every job object of an instance, and its open transaction.

A statement may fail: a job object may be abandoned at any point after its claim was
committed. Times matter only as set or not set, and whether a row is due is left open.

Four parts of a state are bookkeeping of this development and no data of the program: the log of the
services that ran, the rows whose schedule has been handed on to a next row, the rows that a reload
has copied, and the chains whose schedule has come to its end.
-/

namespace OfficeAuto.Service

abbrev JobId := Nat

/-- The `statusId` of a job. -/
inductive Status
  | pending
  | queued
  | running
  | finished
  | failed
  | crashed
  deriving DecidableEq, Repr

/-- A row of `JobSandbox`. Of the three dates, only whether they are set is used; `recurring`
says that the row has a `tempExprId` or a `recurrenceInfoId`. -/
structure Row (I : Type) where
  statusId : Status
  runByInstanceId : Option I
  startDateTime : Bool
  cancelDateTime : Bool
  finishDateTime : Bool
  recurring : Bool
  parentJobId : Option JobId
  previousJobId : Option JobId
  deriving DecidableEq, Repr

/-- What a job object is about to do. The row that it holds is its `jobValue` with the fields
already set that the next store writes. -/
inductive Phase (I : Type)
  /-- claimed by a poll that has not committed -/
  | claimed
  /-- returned by the poll -/
  | created
  /-- `queue`: refreshed, about to store -/
  | queueing (jobValue : Row I)
  /-- stored as queued, about to be offered to the executor -/
  | queued
  /-- in the queue of the executor -/
  | waiting
  /-- not accepted, or handed back at shutdown; about to refresh -/
  | rejected
  /-- `deQueue`: refreshed, about to store -/
  | dequeueing (jobValue : Row I)
  /-- `exec`: about to refresh -/
  | starting
  /-- `init`: refreshed, about to store -/
  | initialising (jobValue : Row I)
  /-- `init`: stored as running, the recurrence is next -/
  | running (jobValue : Row I)
  /-- `init` is over; did it create a next row? -/
  | ready (jobValue : Row I) (recurred : Bool)
  /-- the service ran -/
  | ran (jobValue : Row I) (recurred : Bool)
  /-- `finish` or `failed`: about to store -/
  | finishing (jobValue : Row I)
  deriving DecidableEq, Repr

/-- A `PersistedServiceJob` in the memory of an instance. -/
structure JobObject (I : Type) where
  owner : I
  jobId : JobId
  phase : Phase I
  deriving DecidableEq, Repr

/-- An instance: not started, reloading its crashed jobs (those still to do, and whether the
first of them has been copied), or polling (the rows that the iterator still has). -/
inductive Node (I : Type)
  | down
  | reloading (crashed : List (JobId × Row I)) (copied : Bool)
  | up (iterator : List JobId)

/-- The table, the instances with their job objects, and the bookkeeping. -/
structure State (I : Type) where
  jobs : JobId → Option (Row I)
  nextId : JobId
  node : I → Node I
  objects : List (JobObject I)
  log : List (I × JobId)
  handedOn : List JobId
  reloaded : List (JobId × JobId)
  ended : List JobId

variable {I : Type} [DecidableEq I]

/-! ### Rows -/

def Row.chain (row : Row I) (id : JobId) : JobId := row.parentJobId.getD id

/-- Pending, queued or running: the rows that `reloadCrashedJobs` looks for. -/
def Row.IsLive (row : Row I) : Prop :=
  row.statusId = .pending ∨ row.statusId = .queued ∨ row.statusId = .running

instance (row : Row I) : Decidable row.IsLive := inferInstanceAs (Decidable (_ ∨ _ ∨ _))

def Row.IsDue (row : Row I) : Prop :=
  row.startDateTime = false ∧ row.cancelDateTime = false ∧ row.runByInstanceId = none

def Row.next (row : Row I) (id : JobId) : Row I :=
  { row with
    statusId := .pending
    runByInstanceId := none
    startDateTime := false
    parentJobId := some (row.chain id)
    previousJobId := some id }

/-- The row that `reloadCrashedJobs` inserts: only the copy of a queued row keeps the
schedule. -/
def Row.reloaded (row : Row I) (id : JobId) : Row I :=
  { row.next id with recurring := row.recurring && row.statusId == .queued }

/-! ### The methods of a job object -/

/-- The memory part of `queue`, `deQueue` and `init` after their refresh; `none` is the
invalid-job exception. -/
def refreshed (i : I) (row : Row I) : Phase I → Option (Phase I)
  | .created =>
    if row.runByInstanceId = some i ∧ row.cancelDateTime = false ∧ row.startDateTime = false
    then some (.queueing { row with statusId := .queued }) else none
  | .rejected =>
    some (.dequeueing
      { row with startDateTime := false, runByInstanceId := none, statusId := .pending })
  | .starting =>
    if row.runByInstanceId = some i ∧ row.cancelDateTime = false
    then some (.initialising { row with startDateTime := true, statusId := .running }) else none
  | _ => none

def Phase.Refreshes : Phase I → Prop
  | .created | .rejected | .starting => True
  | _ => False

/-- What a phase stores, and the phase after it; no phase is left after `deQueue` and after
the outcome. -/
def Phase.stores : Phase I → Option (Row I × Option (Phase I))
  | .queueing v => some (v, some .queued)
  | .dequeueing v => some (v, none)
  | .initialising v => some (v, some (.running v))
  | .finishing v => some (v, none)
  | _ => none

/-- The moves of a job object without a database statement: the executor accepts the job or
not, hands it back at shutdown, or a worker takes it; and a service that ran without error
goes on to `finish`. -/
inductive Phase.Moves : Phase I → Phase I → Prop
  | accept : Moves .queued .waiting
  | reject : Moves .queued .rejected
  | shutdown : Moves .waiting .rejected
  | exec : Moves .waiting .starting
  | finish (v : Row I) (recurred : Bool) : Moves (.ran v recurred)
      (.finishing { v with statusId := .finished, finishDateTime := true })

/-! ### States -/

namespace State

def replace (s : State I) (o : JobObject I) (p : Phase I) : State I :=
  { s with objects := { o with phase := p } :: s.objects.erase o }

def discard (s : State I) (o : JobObject I) : State I :=
  { s with objects := s.objects.erase o }

def write (s : State I) (id : JobId) (v : Row I) : State I :=
  { s with jobs := Function.update s.jobs id ((s.jobs id).map fun _ => v) }

def insert (s : State I) (row : Row I) : State I :=
  { s with jobs := Function.update s.jobs s.nextId (some row), nextId := s.nextId + 1 }

def setNode (s : State I) (i : I) (n : Node I) : State I :=
  { s with node := Function.update s.node i n }

def crashedJobs (s : State I) (i : I) : List (JobId × Row I) :=
  (List.range s.nextId).filterMap fun id =>
    (s.jobs id).bind fun row =>
      if row.runByInstanceId = some i ∧ row.IsLive then some (id, row) else none

def openClaims (s : State I) (i : I) : List JobId :=
  (s.objects.filter fun o => o.owner = i ∧ o.phase = .claimed).map JobObject.jobId

def rollback (s : State I) (i : I) : State I :=
  { s with
    jobs := fun id =>
      if id ∈ s.openClaims i then (s.jobs id).map fun row => { row with runByInstanceId := none }
      else s.jobs id
    objects := s.objects.filter fun o => ¬ (o.owner = i ∧ o.phase = .claimed) }

def claim (s : State I) (i : I) (id : JobId) : State I :=
  match s.jobs id with
  | some row =>
    if row.runByInstanceId = none then
      { s.write id { row with runByInstanceId := some i } with
        objects := ⟨i, id, .claimed⟩ :: s.objects }
    else s
  | none => s

def commit (s : State I) (i : I) : State I :=
  { s with objects := s.objects.map fun o =>
      if o.owner = i ∧ o.phase = .claimed then { o with phase := .created } else o }

/-- An instance stops: its open transaction is rolled back and its job objects are lost. -/
def crash (s : State I) (i : I) : State I :=
  let s := s.rollback i
  { s with objects := s.objects.filter fun o => o.owner ≠ i }.setNode i .down

end State

/-! ### Steps -/

/-- What happens in a step. -/
inductive Event (I : Type)
  | schedule (recurring : Bool)
  | purge (i : I) (id : JobId)
  | start (i : I) (crashed : List (JobId × Row I))
  | reloadCopy (i : I)
  | reloadMark (i : I)
  | reloadDone (i : I)
  | pollBegin (i : I) (iterator : List JobId)
  | claim (i : I)
  | pollCommit (i : I)
  | pollRollback (i : I)
  | refresh (o : JobObject I)
  | store (o : JobObject I)
  | move (o : JobObject I) (p : Phase I)
  | createRecurrence (o : JobObject I)
  | noRecurrence (o : JobObject I)
  | run (o : JobObject I)
  | failed (o : JobObject I) (retry : Bool)
  | abandon (o : JobObject I)
  | crash (i : I)

def Row.scheduled (recurring : Bool) : Row I where
  statusId := .pending
  runByInstanceId := none
  startDateTime := false
  cancelDateTime := false
  finishDateTime := false
  recurring := recurring
  parentJobId := none
  previousJobId := none

/-- **One step.** -/
inductive Step (s : State I) : Event I → State I → Prop
  | schedule (recurring : Bool) : Step s (.schedule recurring) (s.insert (.scheduled recurring))
  /-- A purge job removes a finished or cancelled row of its instance. -/
  | purge {i : I} {ids : List JobId} {id : JobId} {row : Row I} (hnode : s.node i = .up ids)
      (hrow : s.jobs id = some row) (hrun : row.runByInstanceId = some i)
      (hdone : row.finishDateTime = true ∨ row.cancelDateTime = true) :
      Step s (.purge i id) { s with jobs := Function.update s.jobs id none }
  | start {i : I} {crashed : List (JobId × Row I)} (hnode : s.node i = .down)
      (hquery : crashed.Perm (s.crashedJobs i)) :
      Step s (.start i crashed) (s.setNode i (.reloading crashed false))
  | reloadCopy {i : I} {id : JobId} {row : Row I} {rest : List (JobId × Row I)}
      (hnode : s.node i = .reloading ((id, row) :: rest) false) :
      Step s (.reloadCopy i)
        { (s.insert (row.reloaded id)).setNode i (.reloading ((id, row) :: rest) true) with
          handedOn := if row.statusId = .queued then id :: s.handedOn else s.handedOn
          reloaded := (row.chain id, id) :: s.reloaded }
  | reloadMark {i : I} {id : JobId} {row : Row I} {rest : List (JobId × Row I)}
      (hnode : s.node i = .reloading ((id, row) :: rest) true) :
      Step s (.reloadMark i)
        ((s.write id { row with statusId := .crashed, cancelDateTime := true }).setNode i
          (.reloading rest false))
  | reloadDone {i : I} (hnode : s.node i = .reloading [] false) :
      Step s (.reloadDone i) (s.setNode i (.up []))
  | pollBegin {i : I} {ids iterator : List JobId} (hnode : s.node i = .up ids)
      (hopen : s.openClaims i = [])
      (hdue : ∀ id ∈ iterator, ∃ row, s.jobs id = some row ∧ row.IsDue) :
      Step s (.pollBegin i iterator) (s.setNode i (.up iterator))
  | claim {i : I} {id : JobId} {ids : List JobId} (hnode : s.node i = .up (id :: ids)) :
      Step s (.claim i) ((s.claim i id).setNode i (.up ids))
  | pollCommit {i : I} {ids : List JobId} (hnode : s.node i = .up ids) :
      Step s (.pollCommit i) ((s.commit i).setNode i (.up []))
  | pollRollback {i : I} {ids : List JobId} (hnode : s.node i = .up ids) :
      Step s (.pollRollback i) ((s.rollback i).setNode i (.up []))
  | refresh {o : JobObject I} {row : Row I} {p : Phase I} (ho : o ∈ s.objects)
      (hrow : s.jobs o.jobId = some row) (hp : refreshed o.owner row o.phase = some p) :
      Step s (.refresh o) (s.replace o p)
  /-- A refresh that finds no row, or one that the job may not go on with. -/
  | refreshFails {o : JobObject I} (ho : o ∈ s.objects) (hphase : o.phase.Refreshes)
      (hrow : ∀ row, s.jobs o.jobId = some row → refreshed o.owner row o.phase = none) :
      Step s (.refresh o) (s.discard o)
  | store {o : JobObject I} {v : Row I} {p : Phase I} (ho : o ∈ s.objects)
      (hp : o.phase.stores = some (v, some p)) :
      Step s (.store o) ((s.write o.jobId v).replace o p)
  | storeLast {o : JobObject I} {v : Row I} (ho : o ∈ s.objects)
      (hp : o.phase.stores = some (v, none)) :
      Step s (.store o) ((s.write o.jobId v).discard o)
  | move {o : JobObject I} {p : Phase I} (ho : o ∈ s.objects) (hp : o.phase.Moves p) :
      Step s (.move o p) (s.replace o p)
  | createRecurrence {o : JobObject I} {v : Row I} (ho : o ∈ s.objects)
      (hp : o.phase = .running v) (hrec : v.recurring = true) :
      Step s (.createRecurrence o)
        { (s.insert (v.next o.jobId)).replace o (.ready v true) with
          handedOn := o.jobId :: s.handedOn }
  /-- No schedule, or one that has no next time: then the chain is at its end. -/
  | noRecurrence {o : JobObject I} {v : Row I} (ho : o ∈ s.objects)
      (hp : o.phase = .running v) :
      Step s (.noRecurrence o)
        { s.replace o (.ready v false) with
          ended := if v.recurring then v.chain o.jobId :: s.ended else s.ended }
  | run {o : JobObject I} {v : Row I} {recurred : Bool} (ho : o ∈ s.objects)
      (hp : o.phase = .ready v recurred) :
      Step s (.run o)
        { s.replace o (.ran v recurred) with log := (o.owner, o.jobId) :: s.log }
  /-- The service failed; without a next row it may be retried. -/
  | failed {o : JobObject I} {v : Row I} {recurred retry : Bool} (ho : o ∈ s.objects)
      (hp : o.phase = .ran v recurred) :
      Step s (.failed o retry)
        ((if retry ∧ recurred = false then s.insert (v.next o.jobId) else s).replace o
          (.finishing { v with statusId := .failed, finishDateTime := true }))
  | abandon {o : JobObject I} (ho : o ∈ s.objects) (hp : o.phase ≠ .claimed) :
      Step s (.abandon o) (s.discard o)
  | crash {i : I} : Step s (.crash i) (s.crash i)

/-- The start of a run: no instance has started, so no job is in memory, and the keys of the
table are below the next one. -/
structure State.Init (s : State I) : Prop where
  node : ∀ i, s.node i = .down
  objects : s.objects = []
  log : s.log = []
  handedOn : s.handedOn = []
  reloaded : s.reloaded = []
  ended : s.ended = []
  bound : ∀ id, s.nextId ≤ id → s.jobs id = none

/-- **The instances over their table**, as a transition system. -/
def jobSystem (I : Type) [DecidableEq I] : System (State I) (Event I) where
  init := State.Init
  step := Step

end OfficeAuto.Service
