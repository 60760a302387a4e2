import OfficeAuto.Entity.TransactionUtil
import OfficeAuto.Logic.Throwing

/-!
# Synchronous service calls

`ServiceDispatcher.runSync` takes the semaphore of a service, finds or begins its transaction,
and runs the rules of the events, the checks and the service itself, again after a deadlock; then
it ends the transaction, and takes the user off the stack that the entity engine stamps rows
from.

**The rest of the system.** What a phase of the call does is a script of the services, rules and
callbacks that it runs (`Script`), which may call services themselves, to any depth. A script is
the trace of a run: the branches are those that were taken, and what a phase throws and the
result after it are given with the call (`ServiceCall.throws`, `ServiceCall.answer`).

**Main result.** After a nest of calls the stack of users, the semaphores and the transaction of
the thread are as they were, if in every call of the nest exactly one attempt gets past the
authorization with a user, the row of its semaphore is removed, and the release throws nothing that
keeps the parent transaction from being resumed (`exec_nest`, `CallRecord.Balanced`).
-/

namespace OfficeAuto.Service.Dispatcher

open Entity (Throwable Thread Finish RollbackOnlyCause)
open TransactionManager (Answer)

variable {α : Type}

/-! ### Results, models and calls -/

inductive Response
  | success
  | fail
  | error
  deriving DecidableEq

/-- What the dispatcher reads of a result: its response message and its error message. -/
structure Result where
  responseMessage : Response
  errorMessage : Option String
  deriving DecidableEq

namespace Result

def empty : Result := ⟨.success, none⟩

def isError (result : Result) : Bool := result.responseMessage = .error

def isFailure (result : Result) : Bool := result.responseMessage = .fail

/-- `errMsg.toUpperCase().indexOf("DEADLOCK") >= 0` -/
def isDeadlock (result : Result) : Bool :=
  result.errorMessage.any fun errMsg =>
    (errMsg.toList.map Char.toUpper).tails.any ("DEADLOCK".toList.isPrefixOf ·)

end Result

def LOCK_RETRIES : ℕ := 3

/-- What the dispatcher reads of the model of a service. -/
structure ModelService where
  name : String
  semaphore : String := ""
  useTransaction : Bool := true
  requireNewTransaction : Bool := false
  validate : Bool := true
  auth : Bool := false

/-- The parts of a call that run code of other components. -/
inductive Phase
  /-- `lock.acquire()` -/
  | acquire
  /-- The locale, the running service log, the event map, the engine and the default values. -/
  | setUp
  | ecaGlobalRollback
  | ecaGlobalCommit
  | ecaAuth
  | checkAuth
  | ecaInValidate
  /-- `modelService.validate(context, IN_PARAM, locale)` -/
  | validateIn
  | ecaInvoke
  /-- `engine.runSync` and the callbacks. -/
  | invoke
  /-- `modelService.updateDefaultValues(context, OUT_PARAM)` -/
  | updateDefaultValues
  | ecaOutValidate
  /-- `modelService.validate(result, OUT_PARAM, locale)` -/
  | validateOut
  | ecaCommit
  | ecaGlobalCommitPostRun
  /-- `engine.sendCallbacks` for an exception. -/
  | sendCallbacks
  /-- `modelService.evalNotifications` -/
  | evalNotifications
  /-- `lock.release()` -/
  | release
  | ecaReturn
  deriving DecidableEq

/-- A call: its model and arguments, and what the rest of the system answers. The results and the
users are given for each attempt. -/
structure ServiceCall (α : Type) where
  model : ModelService
  validateOut : Bool := true
  /-- Some rule is defined for the service. -/
  hasEventMap : Bool := false
  /-- What a phase of an attempt throws in the end, and the result after it. -/
  throws : ℕ → Phase → Option Throwable
  answer : ℕ → Phase → Result
  /-- The user of the context after `checkAuth`, with the id if there is one. -/
  userLogin : ℕ → Option (Option String)
  /-- How the manager ends a commit. -/
  commitAnswer : Answer α
  /-- The row of the semaphore is stored by `acquire`, and removed by `release`. -/
  stored : Bool := true
  removed : Bool := true

/-- What is recorded of a call: whether a transaction was in place, and the users on the stack
before it. -/
structure CallRecord (α : Type) where
  call : ServiceCall α
  inPlace : Bool
  userIdentifierStack : List String

/-! ### The state of a thread and of a call -/

/-- The thread, its stack of users, and the rows of `ServiceSemaphore`. `calls` records the calls
for the statements. -/
structure Session (α : Type) where
  thread : Thread α
  userIdentifierStack : List String
  semaphores : List String
  calls : List (CallRecord α)

/-- The variables of a call. -/
structure Frame (α : Type) where
  session : Session α
  result : Result
  isFailure : Bool
  isError : Bool
  beganTrans : Bool
  needsLockRetry : Bool
  lock : Bool
  parentTransaction : Option ℕ
  userLogin : Option (Option String)

def Frame.enter (session : Session α) : Frame α where
  session := session
  result := .empty
  isFailure := false
  isError := false
  beganTrans := false
  needsLockRetry := false
  lock := false
  parentTransaction := none
  userLogin := none

abbrev Environment (α : Type) := ℕ → Phase → Session α → Session α

def setThread (f : Frame α) (thread : Thread α) : Frame α :=
  { f with session := { f.session with thread := thread } }

/-! ### Transactions and users of a call -/

/-- `beganTrans = TransactionUtil.begin(modelService.transactionTimeout)` -/
def beginTransaction : Run Throwable (Frame α) := fun f =>
  match f.session.thread.begin.1 with
  | .error e => (some e, setThread f f.session.thread.begin.2)
  | .ok began => (none, { setThread f f.session.thread.begin.2 with beganTrans := began })

/-- `TransactionUtil.rollback(beganTrans, errMsg, cause)` -/
def rollbackTransaction (errMsg : String) (cause : Option Throwable) : Run Throwable (Frame α) :=
  .modify fun f => setThread f (f.session.thread.rollback f.beganTrans errMsg cause)

def suspendParent (f : Frame α) : Frame α :=
  { setThread f f.session.thread.suspend.2 with parentTransaction := f.session.thread.suspend.1 }

def setUpTransaction (model : ModelService) : Run Throwable (Frame α) :=
  .when (fun _ => model.useTransaction) <| .look fun f =>
    if f.session.thread.tm.current.isSome then
      .when (fun _ => model.requireNewTransaction) <|
        .andThen (.modify suspendParent) beginTransaction
    else beginTransaction

/-- `GenericDelegator.pushUserIdentifier` -/
def pushUserIdentifier : Run Throwable (Frame α) := .modify fun f =>
  match f.userLogin.join with
  | none => f
  | some userLoginId =>
    { f with session := { f.session with
        userIdentifierStack := userLoginId :: f.session.userIdentifierStack } }

/-- `GenericDelegator.popUserIdentifier`, which leaves an empty stack as it is. -/
def popUserIdentifier : Run Throwable (Frame α) := .modify fun f =>
  { f with session := { f.session with
      userIdentifierStack := f.session.userIdentifierStack.tail } }

/-! ### The attempts -/

namespace ServiceCall

variable (c : ServiceCall α) (env : Environment α)

def phase (attempt : ℕ) (p : Phase) : Run Throwable (Frame α) := fun f =>
  (c.throws attempt p, { f with session := env attempt p f.session })

def phaseResult (attempt : ℕ) (p : Phase) : Run Throwable (Frame α) :=
  .andThen (c.phase env attempt p) (.modify fun f => { f with result := c.answer attempt p })

def eca (attempt : ℕ) (p : Phase) : Run Throwable (Frame α) :=
  .when (fun _ => c.hasEventMap) (c.phaseResult env attempt p)

def checkResult : Run Throwable (Frame α) := .modify fun f =>
  { f with isFailure := f.result.isFailure, isError := f.result.isError }

def unlessProblem (a : Run Throwable (Frame α)) : Run Throwable (Frame α) :=
  .andThen checkResult (.when (fun f => !f.isError && !f.isFailure) a)

def authException : Throwable :=
  .mk .checked ("User authorization is required for this service: " ++ c.model.name) none

/-- The user is the one of the context, and there has to be one where the service wants it. -/
def takeUserLogin (n : ℕ) : Run Throwable (Frame α) :=
  .andThen (.modify fun f => { f with userLogin := c.userLogin n }) <|
    .when (fun f => c.model.auth && f.userLogin.isNone) (.raise c.authException)

def authorize (n : ℕ) : Run Throwable (Frame α) :=
  .andThen (c.eca env n .ecaGlobalRollback) <|
  .andThen (c.eca env n .ecaGlobalCommit) <|
  .andThen (c.eca env n .ecaAuth) <|
  .andThen checkResult <|
  .andThen (c.phase env n .checkAuth) (c.takeUserLogin n)

def perform (n : ℕ) : Run Throwable (Frame α) :=
  .andThen (c.eca env n .ecaInValidate) <|
  .andThen (unlessProblem (.when (fun _ => c.model.validate) (c.phase env n .validateIn))) <|
  .andThen (c.eca env n .ecaInvoke) <|
  .andThen (unlessProblem (c.phaseResult env n .invoke)) checkResult

/-- After a deadlock in a transaction of its own the call rolls back and begins again. -/
def lockRetry (attempt : ℕ) : Run Throwable (Frame α) :=
  .when (fun f => f.beganTrans && f.result.isDeadlock) <|
    .andThen
      (.look fun f => rollbackTransaction ("RETRYING SERVICE [" ++ c.model.name ++
        "]: Deadlock error found in message [" ++ f.result.errorMessage.getD "" ++ "]; retry [" ++
        toString (attempt + 1) ++ "] of [" ++ toString LOCK_RETRIES ++ "]") none) <|
    .andThen beginTransaction <|
    .when (fun f => f.beganTrans) <| .modify fun f =>
      { f with needsLockRetry := true, result := .empty, isFailure := false, isError := false }

def attempt (n : ℕ) : Run Throwable (Frame α) :=
  .andThen (.modify fun f => { f with needsLockRetry := false }) <|
  .andThen (c.authorize env n) <|
  .andThen pushUserIdentifier <|
  .andThen (c.perform env n) (c.lockRetry n)

def attempts : ℕ → ℕ → Run Throwable (Frame α)
  | 0, _ => .skip
  | lockRetriesRemaining + 1, n =>
    .andThen (c.attempt env n) <|
      .when (fun f => f.needsLockRetry) (attempts lockRetriesRemaining (n + 1))

def afterAttempts : Run Throwable (Frame α) :=
  .andThen (c.phase env 0 .updateDefaultValues) <|
  .andThen (.when (fun _ => c.model.validate && c.validateOut)
    (.andThen (c.eca env 0 .ecaOutValidate) (c.phase env 0 .validateOut))) <|
  .andThen (c.eca env 0 .ecaCommit) <|
  .andThen checkResult (c.eca env 0 .ecaGlobalCommitPostRun)

/-! ### The ends -/

def serviceException (t : Throwable) : Throwable :=
  match t.kind with
  | .checked => t
  | _ => .mk .checked ("Service [" ++ c.model.name ++ "] Failed") (some t)

def handleThrowable (t : Throwable) : Run Throwable (Frame α) :=
  .andThen (c.phase env 0 .sendCallbacks) <|
  .andThen
    (rollbackTransaction ("Service [" ++ c.model.name ++ "] threw an unexpected exception/error")
      (some t))
    (.raise (c.serviceException t))

/-- `TransactionUtil.commit(beganTrans)`, and the exception where it does not succeed. -/
def commitTransaction : Run Throwable (Frame α) := fun f =>
  match (f.session.thread.commit f.beganTrans c.commitAnswer).1 with
  | none => (none, setThread f (f.session.thread.commit f.beganTrans c.commitAnswer).2)
  | some e =>
    (Run.andThen popUserIdentifier (.raise (.mk .checked ("Could not commit transaction for " ++
      "service [" ++ c.model.name ++ "] call: " ++ e.toString) none)))
      (setThread f (f.session.thread.commit f.beganTrans c.commitAnswer).2)

/-- If there was an error the transaction is rolled back, otherwise committed. -/
def endTransaction : Run Throwable (Frame α) := .look fun f =>
  if f.isError then
    rollbackTransaction ("Error in Service [" ++ c.model.name ++ "]: " ++
      f.result.errorMessage.getD "") none
  else c.commitTransaction

/-- The end of the transaction, the notifications, and the end of the user. -/
def finish : Run Throwable (Frame α) :=
  .andThen c.endTransaction <|
  .andThen (c.phase env 0 .evalNotifications) popUserIdentifier

def locks : Bool := c.model.semaphore == "wait" || c.model.semaphore == "fail"

def acquire : Run Throwable (Frame α) :=
  .when (fun _ => c.locks) <|
    .andThen (c.phase env 0 .acquire) <| .modify fun f =>
      { f with
        lock := c.stored
        session := { f.session with
          semaphores := if c.stored then c.model.name :: f.session.semaphores
            else f.session.semaphores } }

/-- The release of the semaphore; a `GenericServiceException` is only logged. -/
def release : Run Throwable (Frame α) :=
  .when (fun _ => c.locks) <|
    .tryCatch
      (.andThen (c.phase env 0 .release) <|
        .when (fun f => f.lock && c.removed) <| .modify fun f =>
          { f with
            lock := false
            session := { f.session with
              semaphores := f.session.semaphores.erase c.model.name } })
      fun e => if e.kind = .checked then .skip else .raise e

def resumeParent : Run Throwable (Frame α) := fun f =>
  match f.parentTransaction with
  | none => (none, f)
  | some t =>
    ((f.session.thread.resume (some t)).1.map fun e =>
        if e.kind = .genericEntity then
          .mk .checked "Resume transaction exception, see logs" none
        else e,
      setThread f (f.session.thread.resume (some t)).2)

def handleTransaction (te : Throwable) : Run Throwable (Frame α) :=
  if te.kind = .genericEntity then .raise (.mk .checked "Problems with the transaction." none)
  else .raise te

def runTransaction : Run Throwable (Frame α) :=
  .tryFinally
    (.tryCatch (.andThen (c.attempts env LOCK_RETRIES 0) (c.afterAttempts env))
      (c.handleThrowable env))
    (c.finish env)

def runGuarded : Run Throwable (Frame α) :=
  .tryFinally
    (.tryCatch
      (.andThen (c.acquire env) <|
        .andThen (c.phase env 0 .setUp) <|
        .andThen (setUpTransaction c.model) (c.runTransaction env))
      handleTransaction)
    (.andThen (c.release env) resumeParent)

def record (s : Session α) : CallRecord α where
  call := c
  inPlace := s.thread.tm.current.isSome
  userIdentifierStack := s.userIdentifierStack

/-- `ServiceDispatcher.runSync`: what it returns or throws, and the session after it. -/
def runSync (s : Session α) : Except Throwable Result × Session α :=
  let ran := (Run.andThen (c.runGuarded env) (c.eca env 0 .ecaReturn))
    (.enter { s with calls := c.record s :: s.calls })
  match ran.1 with
  | none => (.ok ran.2.result, ran.2.session)
  | some e => (.error e, ran.2.session)

end ServiceCall

/-! ### Scripts -/

/-- What a service, a rule or a callback does: it works in transactions, which it ends if it began
them, throws and catches, and calls services. -/
inductive Script (α : Type)
  | program (p : Entity.Program α)
  | throw (e : Throwable)
  | seq (p q : Script α)
  | tryCatch (p q : Script α)
  | unit (body : Script α) (onReturn onThrow : Finish) (causeMessage : String)
      (answer : Answer α)
  | suspended (body : Script α)
  | call (c : ServiceCall α) (phases : ℕ → Phase → Script α)

def Script.exec : Script α → Run Throwable (Session α)
  | program p, s => ((p.exec s.thread).1, { s with thread := (p.exec s.thread).2 })
  | throw e, s => (some e, s)
  | seq p q, s => (Run.andThen p.exec q.exec) s
  | tryCatch p q, s => (Run.tryCatch p.exec fun _ => q.exec) s
  | unit body onReturn onThrow causeMessage answer, s =>
    match s.thread.begin.1 with
    | .error e => (some e, { s with thread := s.thread.begin.2 })
    | .ok began =>
      let ran := body.exec { s with thread := s.thread.begin.2 }
      let finish := if ran.1.isNone then onReturn else onThrow
      let ended := finish.run began causeMessage ran.1 answer ran.2.thread
      (ended.1.or ran.1, { ran.2 with thread := ended.2 })
  | suspended body, s =>
    let ran := body.exec { s with thread := s.thread.suspend.2 }
    let resumed := ran.2.thread.resume s.thread.suspend.1
    (resumed.1.or ran.1, { ran.2 with thread := resumed.2 })
  | call c phases, s =>
    match c.runSync (fun attempt p s => ((phases attempt p).exec s).2) s with
    | (.ok _, s') => (none, s')
    | (.error e, s') => (some e, s')

/-! ### The course of a call

What the attempts of a call throw and what results they have depends on its inputs only, and
on whether it has a transaction of its own. -/

namespace ServiceCall

variable (c : ServiceCall α)

def phaseCourse (attempt : ℕ) (p : Phase) (result : Result) : Except Throwable Result :=
  match c.throws attempt p with
  | none => .ok result
  | some e => .error e

def ecaCourse (attempt : ℕ) (p : Phase) (result : Result) : Except Throwable Result :=
  if c.hasEventMap then c.phaseCourse attempt p (c.answer attempt p) else .ok result

def unlessProblemCourse (course : Result → Except Throwable Result) (result : Result) :
    Except Throwable Result :=
  if !result.isError && !result.isFailure then course result else .ok result

def takeUserLoginCourse (n : ℕ) (result : Result) : Except Throwable Result :=
  if c.model.auth && (c.userLogin n).isNone then .error c.authException else .ok result

def authorizeCourse (n : ℕ) (result : Result) : Except Throwable Result :=
  (c.ecaCourse n .ecaGlobalRollback result).bind fun result =>
  (c.ecaCourse n .ecaGlobalCommit result).bind fun result =>
  (c.ecaCourse n .ecaAuth result).bind fun result =>
  (c.phaseCourse n .checkAuth result).bind (c.takeUserLoginCourse n)

def performCourse (n : ℕ) (result : Result) : Except Throwable Result :=
  (c.ecaCourse n .ecaInValidate result).bind fun result =>
  (unlessProblemCourse
    (fun result => if c.model.validate then c.phaseCourse n .validateIn result else .ok result)
    result).bind fun result =>
  (c.ecaCourse n .ecaInvoke result).bind fun result =>
  unlessProblemCourse (fun _ => c.phaseCourse n .invoke (c.answer n .invoke)) result

def pushes (n : ℕ) : Bool :=
  (c.authorizeCourse n .empty).isOk && (c.userLogin n).join.isSome

def deadlocks (n : ℕ) : Bool :=
  match (c.authorizeCourse n .empty).bind (c.performCourse n) with
  | .ok result => result.isDeadlock
  | .error _ => false

/-- The number of attempts that get past the authorization with a user. In a transaction of its
own the call tries again after a deadlock. -/
def usersPushed (ownTransaction : Bool) : ℕ → ℕ → ℕ
  | 0, _ => 0
  | lockRetriesRemaining + 1, n =>
    (if c.pushes n then 1 else 0) +
      if ownTransaction && c.deadlocks n then
        usersPushed ownTransaction lockRetriesRemaining (n + 1)
      else 0

def ownTransaction (inPlace : Bool) : Bool :=
  c.model.useTransaction && (!inPlace || c.model.requireNewTransaction)

def enters : Bool :=
  (!c.locks || (c.throws 0 .acquire).isNone) && (c.throws 0 .setUp).isNone

/-- Exactly one attempt gets past the authorization with a user, and the end of the call is
reached; or none does and no user is on the stack. -/
def OneUser (ownTransaction : Bool) (stack : List String) : Prop :=
  (c.usersPushed ownTransaction LOCK_RETRIES 0 = 1 ∧ c.throws 0 .evalNotifications = none) ∨
    (c.usersPushed ownTransaction LOCK_RETRIES 0 = 0 ∧ stack = [])

def acquires : Bool := c.locks && (c.throws 0 .acquire).isNone && c.stored

end ServiceCall

/-- What a call needs in order to leave the users, the semaphores and the transaction of the
thread as they were. -/
structure CallRecord.Balanced (record : CallRecord α) : Prop where
  users : record.call.enters = true →
    record.call.OneUser (record.call.ownTransaction record.inPlace) record.userIdentifierStack
  /-- A row that was stored is removed. -/
  semaphores : record.call.acquires = true →
    record.call.removed = true ∧ record.call.throws 0 .release = none
  /-- The parent transaction is reached: the release throws nothing that is not caught. -/
  parent : record.call.enters = true → record.inPlace = true →
    record.call.ownTransaction record.inPlace = true → record.call.locks = true →
    ∀ e, record.call.throws 0 .release = some e → e.kind = .checked

namespace ServiceCall

/-! ### The course is what happens -/

def outcome (a : Run Throwable (Frame α)) (f : Frame α) : Except Throwable Result :=
  match (a f).1 with
  | none => .ok (a f).2.result
  | some e => .error e

def Follows (a : Run Throwable (Frame α)) (course : Result → Except Throwable Result) : Prop :=
  ∀ f, outcome a f = course f.result

variable {a b : Run Throwable (Frame α)} {course course' : Result → Except Throwable Result}

theorem Follows.andThen (ha : Follows a course) (hb : Follows b course') :
    Follows (.andThen a b) fun result => (course result).bind course' := by
  intro f
  show _ = (course f.result).bind course'
  rw [← ha f, outcome, outcome, Run.andThen]
  cases (a f).1 with
  | none => exact hb (a f).2
  | some e => rfl

theorem Follows.andThen_ok (ha : Follows a course) (hb : Follows b .ok) :
    Follows (.andThen a b) course := by
  intro f
  refine (ha.andThen hb f).trans ?_
  show (course f.result).bind .ok = course f.result
  cases course f.result with
  | ok result => rfl
  | error e => rfl

theorem follows_ok (h : ∀ f, (a f).1 = none ∧ (a f).2.result = f.result) : Follows a .ok := by
  intro f
  rw [outcome, (h f).1, (h f).2]

theorem Follows.unlessProblem (ha : Follows a course) :
    Follows (unlessProblem a) (unlessProblemCourse course) := by
  intro f
  rw [unlessProblemCourse, outcome, ServiceCall.unlessProblem, Run.andThen, checkResult,
    Run.modify]
  dsimp only [Run.when]
  by_cases h : (!f.result.isError && !f.result.isFailure) = true
  · rw [if_pos h, if_pos h]
    exact ha _
  · rw [if_neg h, if_neg h]

theorem Follows.when (ha : Follows a course) (test : Bool) :
    Follows (.when (fun _ => test) a) fun result =>
      if test then course result else .ok result := by
  intro f
  rw [outcome, Run.when]
  cases test with
  | true => exact ha f
  | false => rfl

variable (c : ServiceCall α) (env : Environment α)

theorem follows_phase (n : ℕ) (p : Phase) : Follows (c.phase env n p) (c.phaseCourse n p) := by
  intro f
  rw [outcome, phase, phaseCourse]

theorem follows_phaseResult (n : ℕ) (p : Phase) :
    Follows (c.phaseResult env n p) fun _ => c.phaseCourse n p (c.answer n p) := by
  intro f
  rw [outcome, phaseResult, Run.andThen, phase, phaseCourse]
  cases c.throws n p with
  | none => rfl
  | some e => rfl

theorem follows_eca (n : ℕ) (p : Phase) : Follows (c.eca env n p) (c.ecaCourse n p) :=
  (c.follows_phaseResult env n p).when c.hasEventMap

theorem follows_checkResult : Follows (checkResult (α := α)) .ok :=
  follows_ok fun _ => ⟨rfl, rfl⟩

theorem follows_takeUserLogin (n : ℕ) :
    Follows (c.takeUserLogin n) (c.takeUserLoginCourse n) := by
  intro f
  rw [outcome, takeUserLogin, Run.andThen, takeUserLoginCourse, Run.modify]
  dsimp only [Run.when]
  by_cases h : (c.model.auth && (c.userLogin n).isNone) = true
  · rw [if_pos h, if_pos h]
    rfl
  · rw [if_neg h, if_neg h]

/-- **The authorization has its course.** -/
theorem follows_authorize (n : ℕ) : Follows (c.authorize env n) (c.authorizeCourse n) :=
  (c.follows_eca env n _).andThen <| (c.follows_eca env n _).andThen <|
    (c.follows_eca env n _).andThen <| follows_checkResult.andThen <|
    (c.follows_phase env n _).andThen (c.follows_takeUserLogin n)

/-- **The checks and the service have their course.** -/
theorem follows_perform (n : ℕ) : Follows (c.perform env n) (c.performCourse n) :=
  (c.follows_eca env n _).andThen <|
    (((c.follows_phase env n _).when c.model.validate).unlessProblem).andThen <|
    (c.follows_eca env n _).andThen <|
    ((c.follows_phaseResult env n _).unlessProblem).andThen_ok follows_checkResult

theorem authorize_userLogin (n : ℕ) :
    (c.authorize env n).Post fun f => f.userLogin = c.userLogin n := by
  have htake : (c.takeUserLogin n).Post fun f => f.userLogin = c.userLogin n := by
    intro f _
    rw [takeUserLogin, Run.andThen, Run.modify]
    dsimp only [Run.when]
    split
    · rfl
    · rfl
  exact htake.andThen.andThen.andThen.andThen.andThen

end ServiceCall

/-! ### What is left as it is -/

/-- The session is the same, as far as the users, the semaphores and the transaction go. -/
structure Session.Same (s s' : Session α) : Prop where
  wellFormed : s'.thread.WellFormed
  thread : Thread.Restores s.thread s'.thread
  userIdentifierStack : s'.userIdentifierStack = s.userIdentifierStack
  semaphores : s'.semaphores = s.semaphores

def Session.Restores (s s' : Session α) : Prop :=
  Logged Session.calls CallRecord.Balanced s s' (s.thread.WellFormed → Session.Same s s')

instance : Std.Refl (fun s s' : Session α => s.thread.WellFormed → Session.Same s s') where
  refl _ h := ⟨h, Thread.Restores.refl _, rfl, rfl⟩

instance : IsTrans (Session α) (fun s s' => s.thread.WellFormed → Session.Same s s') where
  trans s s' s'' h h' hs := by
    obtain ⟨hs', hthread, hstack, hsem⟩ := h hs
    obtain ⟨hs'', hthread', hstack', hsem'⟩ := h' hs'
    exact ⟨hs'', hthread.trans hthread', hstack'.trans hstack, hsem'.trans hsem⟩

instance : Std.Refl (Session.Restores (α := α)) :=
  inferInstanceAs (Std.Refl fun s s' => Logged _ _ s s' (_ → Session.Same s s'))

instance : IsTrans (Session α) Session.Restores :=
  inferInstanceAs (IsTrans _ fun s s' => Logged _ _ s s' (_ → Session.Same s s'))

theorem Session.Restores.of_thread {s : Session α} {thread : Thread α}
    (h : s.thread.WellFormed → thread.WellFormed ∧ Thread.Restores s.thread thread) :
    Session.Restores s { s with thread := thread } :=
  .of_eq rfl fun hs => ⟨(h hs).1, (h hs).2, rfl, rfl⟩

/-! ### The attempts -/

/-- What happens inside the transaction of a call that puts a number of users on the stack. -/
structure Stays (users : ℕ) (f f' : Frame α) : Prop where
  wellFormed : f'.session.thread.WellFormed
  thread : Thread.Keeps f.session.thread f'.session.thread
  beganTrans : f'.beganTrans = f.beganTrans
  restores : f.beganTrans = false → Thread.Restores f.session.thread f'.session.thread
  userIdentifierStack : ∃ ids : List String, ids.length = users ∧
    f'.session.userIdentifierStack = ids ++ f.session.userIdentifierStack
  semaphores : f'.session.semaphores = f.session.semaphores
  lock : f'.lock = f.lock
  parentTransaction : f'.parentTransaction = f.parentTransaction

theorem Stays.trans {users users' : ℕ} {f f' f'' : Frame α} (h : Stays users f f')
    (h' : Stays users' f' f'') : Stays (users + users') f f'' := by
  obtain ⟨ids, hlength, hstack⟩ := h.userIdentifierStack
  obtain ⟨ids', hlength', hstack'⟩ := h'.userIdentifierStack
  refine ⟨h'.wellFormed, h.thread.trans h'.thread, h'.beganTrans.trans h.beganTrans,
    fun hfalse => (h.restores hfalse).trans (h'.restores (h.beganTrans.trans hfalse)),
    ⟨ids' ++ ids, ?_, ?_⟩, h'.semaphores.trans h.semaphores, h'.lock.trans h.lock,
    h'.parentTransaction.trans h.parentTransaction⟩
  · rw [List.length_append, hlength, hlength', Nat.add_comm]
  · rw [hstack', hstack, List.append_assoc]

theorem Stays.of_same {f f' : Frame α} (h : Session.Same f.session f'.session)
    (hbegan : f'.beganTrans = f.beganTrans) (hlock : f'.lock = f.lock)
    (hparent : f'.parentTransaction = f.parentTransaction) : Stays 0 f f' :=
  ⟨h.wellFormed, h.thread.toKeeps, hbegan, fun _ => h.thread,
    ⟨[], rfl, h.userIdentifierStack⟩, h.semaphores, hlock, hparent⟩

abbrev LoggedCalls (f f' : Frame α) (P : Prop) : Prop :=
  Logged (fun f : Frame α => f.session.calls) CallRecord.Balanced f f' P

/-- What stays inside the transaction if all calls in between are balanced. -/
def Inside (users : ℕ) (f f' : Frame α) : Prop :=
  LoggedCalls f f' (f.session.thread.WellFormed → Stays users f f')

instance : Std.Refl (fun f f' : Frame α => f.session.thread.WellFormed → Stays 0 f f') where
  refl f h := .of_same (Std.Refl.refl (r := fun s s' : Session α =>
    s.thread.WellFormed → Session.Same s s') f.session h) rfl rfl rfl

instance : IsTrans (Frame α) (fun f f' => f.session.thread.WellFormed → Stays 0 f f') where
  trans _ _ _ h h' hf := (h hf).trans (h' (h hf).wellFormed)

instance : Std.Refl (Inside 0 (α := α)) :=
  inferInstanceAs (Std.Refl fun f f' => LoggedCalls f f' (_ → Stays 0 f f'))

instance : IsTrans (Frame α) (Inside 0) :=
  inferInstanceAs (IsTrans _ fun f f' => LoggedCalls f f' (_ → Stays 0 f f'))

theorem Inside.trans {users users' : ℕ} {f f' f'' : Frame α} (h : Inside users f f')
    (h' : Inside users' f' f'') : Inside (users + users') f f'' :=
  h.comp h' fun hstays hstays' hf => (hstays hf).trans (hstays' (hstays hf).wellFormed)

theorem Inside.of_session_eq {f f' : Frame α} (hsession : f'.session = f.session)
    (hbegan : f'.beganTrans = f.beganTrans) (hlock : f'.lock = f.lock)
    (hparent : f'.parentTransaction = f.parentTransaction) : Inside 0 f f' :=
  .of_eq (by rw [hsession]) fun hf => .of_same
    (by rw [hsession]; exact ⟨hf, Thread.Restores.refl _, rfl, rfl⟩) hbegan hlock hparent

theorem inside_rollback (errMsg : String) (cause : Option Throwable) :
    Run.Keeps (Inside 0 (α := α)) (rollbackTransaction errMsg cause) := by
  intro f
  refine .of_eq rfl fun hf => ?_
  cases hbegan : f.beganTrans with
  | true =>
    obtain ⟨hended, hends⟩ := Thread.rollbackCurrent_ends hf
    rw [rollbackTransaction, Run.modify, Thread.rollback, if_pos hbegan]
    exact ⟨hended, hends.toKeeps, rfl, fun h => Bool.noConfusion (hbegan.symm.trans h),
      ⟨[], rfl, rfl⟩,
      rfl, rfl, rfl⟩
  | false =>
    obtain ⟨hmarked, hrestores⟩ := Thread.setRollbackOnly_restores hf errMsg cause
    rw [rollbackTransaction, Run.modify, Thread.rollback, hbegan]
    exact .of_same ⟨hmarked, hrestores, rfl, rfl⟩ rfl rfl rfl

theorem inside_pushUserIdentifier (f : Frame α) :
    Inside (if f.userLogin.join.isSome then 1 else 0) f (pushUserIdentifier f).2 := by
  rw [pushUserIdentifier, Run.modify]
  dsimp only
  cases f.userLogin.join with
  | none => exact (Std.Refl.refl f : Inside 0 f f)
  | some userLoginId =>
    exact .of_eq rfl fun hf => ⟨hf, Thread.Keeps.refl _, rfl, fun _ => Thread.Restores.refl _,
      ⟨[userLoginId], rfl, rfl⟩, rfl, rfl, rfl⟩

theorem rollbackTransaction_calls (errMsg : String) (cause : Option Throwable) :
    Run.Keeps (Run.Same fun f : Frame α => f.session.calls)
      (rollbackTransaction errMsg cause) := fun _ => rfl

theorem beginTransaction_calls :
    Run.Keeps (Run.Same fun f : Frame α => f.session.calls) beginTransaction := by
  intro f
  rw [beginTransaction]
  split
  · rfl
  · rfl

theorem beginTransaction_of_none {f : Frame α} (hf : f.session.thread.WellFormed)
    (hnone : f.session.thread.tm.current = none) :
    beginTransaction f =
      (none, { setThread f f.session.thread.begin.2 with beganTrans := true }) := by
  rw [beginTransaction, (Thread.begin_of_none hf hnone).1]

namespace ServiceCall

variable {c : ServiceCall α} {env : Environment α}

/-- **A retry** ends the transaction of the call and begins another. -/
theorem lockRetry_spec {f : Frame α} (n : ℕ) (hf : f.session.thread.WellFormed) :
    Stays 0 f (c.lockRetry n f).2 ∧
    ((f.beganTrans && f.result.isDeadlock) = true → (c.lockRetry n f).1 = none ∧
      (c.lockRetry n f).2.needsLockRetry = true ∧ (c.lockRetry n f).2.result = .empty) ∧
    ((f.beganTrans && f.result.isDeadlock) = false →
      (c.lockRetry n f).2.needsLockRetry = f.needsLockRetry) := by
  rw [lockRetry, Run.when]
  by_cases hretry : (f.beganTrans && f.result.isDeadlock) = true
  · have hbegan : f.beganTrans = true := (Bool.and_eq_true_iff.mp hretry).1
    let rolled : Frame α := setThread f f.session.thread.rollbackCurrent
    -- the rollback is that of the owner, and what begins next is a transaction of its own
    have hrolled (errMsg : String) (cause : Option Throwable) :
        rollbackTransaction errMsg cause f = (none, rolled) := by
      rw [rollbackTransaction, Run.modify, Thread.rollback, if_pos hbegan]
    obtain ⟨hended, hends⟩ := Thread.rollbackCurrent_ends hf
    obtain ⟨-, hbegun, hkeeps⟩ := Thread.begin_of_none hended hends.current
    rw [if_pos hretry, Run.andThen, Run.look, hrolled]
    dsimp only
    rw [Run.andThen, beginTransaction_of_none (f := rolled) hended hends.current]
    refine ⟨⟨hbegun, hends.toKeeps.trans hkeeps, hbegan.symm, ?_, ⟨[], rfl, rfl⟩, rfl, rfl, rfl⟩,
      fun _ => ⟨rfl, rfl, rfl⟩, fun h => Bool.noConfusion (hretry.symm.trans h)⟩
    exact fun h => Bool.noConfusion (hbegan.symm.trans h)
  · rw [if_neg hretry]
    exact ⟨.of_same ⟨hf, Thread.Restores.refl _, rfl, rfl⟩ rfl rfl rfl,
      fun h => absurd h hretry, fun _ => rfl⟩

theorem lockRetry_calls (n : ℕ) :
    Run.Keeps (Run.Same fun f : Frame α => f.session.calls) (c.lockRetry n) := by
  have hreset : Run.Keeps (Run.Same fun f : Frame α => f.session.calls) (.modify fun f =>
      { f with needsLockRetry := true, result := .empty, isFailure := false, isError := false } :
      Run Throwable (Frame α)) := fun _ => rfl
  exact ((Run.keeps_look fun _ => rollbackTransaction_calls _ _).andThen <|
    beginTransaction_calls.andThen (hreset.when _)).when _

/-! Only a retry says that another attempt is needed. -/

theorem phase_needsLockRetry (n : ℕ) (p : Phase) :
    Run.Keeps (Run.Same Frame.needsLockRetry) (c.phase env n p) := fun _ => rfl

theorem phaseResult_needsLockRetry (n : ℕ) (p : Phase) :
    Run.Keeps (Run.Same Frame.needsLockRetry) (c.phaseResult env n p) :=
  (phase_needsLockRetry n p).andThen (Run.keeps_modify fun _ => rfl)

theorem eca_needsLockRetry (n : ℕ) (p : Phase) :
    Run.Keeps (Run.Same Frame.needsLockRetry) (c.eca env n p) :=
  (phaseResult_needsLockRetry n p).when _

theorem checkResult_needsLockRetry :
    Run.Keeps (Run.Same (Frame.needsLockRetry (α := α))) checkResult := fun _ => rfl

theorem authorize_needsLockRetry (n : ℕ) :
    Run.Keeps (Run.Same Frame.needsLockRetry) (c.authorize env n) := by
  have huser : Run.Keeps (Run.Same (Frame.needsLockRetry (α := α)))
      (.modify fun f => { f with userLogin := c.userLogin n } : Run Throwable (Frame α)) :=
    fun _ => rfl
  exact (eca_needsLockRetry n _).andThen <| (eca_needsLockRetry n _).andThen <|
    (eca_needsLockRetry n _).andThen <| checkResult_needsLockRetry.andThen <|
    (phase_needsLockRetry n _).andThen <| huser.andThen ((Run.keeps_raise _).when _)

theorem perform_needsLockRetry (n : ℕ) :
    Run.Keeps (Run.Same Frame.needsLockRetry) (c.perform env n) :=
  (eca_needsLockRetry n _).andThen <|
    (checkResult_needsLockRetry.andThen
      (((phase_needsLockRetry n _).when _).when _)).andThen <|
    (eca_needsLockRetry n _).andThen <|
    (checkResult_needsLockRetry.andThen ((phaseResult_needsLockRetry n _).when _)).andThen
      checkResult_needsLockRetry

theorem pushUserIdentifier_needsLockRetry :
    Run.Keeps (Run.Same (Frame.needsLockRetry (α := α))) pushUserIdentifier := by
  intro f
  rw [pushUserIdentifier, Run.modify]
  dsimp only
  split
  · rfl
  · rfl

theorem pushUserIdentifier_result :
    Run.Keeps (Run.Same (Frame.result (α := α))) pushUserIdentifier := by
  intro f
  rw [pushUserIdentifier, Run.modify]
  dsimp only
  split
  · rfl
  · rfl

section

variable (henv : ∀ n p s, Session.Restores s (env n p s))
include henv

theorem inside_phase (n : ℕ) (p : Phase) : Run.Keeps (Inside 0) (c.phase env n p) :=
  fun f => (henv n p f.session).imp fun _ h =>
    ⟨h.1, fun hall hf => .of_same (h.2 hall hf) rfl rfl rfl⟩

theorem inside_phaseResult (n : ℕ) (p : Phase) : Run.Keeps (Inside 0) (c.phaseResult env n p) :=
  (inside_phase henv n p).andThen fun _ => .of_session_eq rfl rfl rfl rfl

theorem inside_eca (n : ℕ) (p : Phase) : Run.Keeps (Inside 0) (c.eca env n p) :=
  (inside_phaseResult henv n p).when _

omit henv in
theorem inside_checkResult : Run.Keeps (Inside 0 (α := α)) checkResult :=
  fun _ => .of_session_eq rfl rfl rfl rfl

omit henv in
theorem inside_unlessProblem {a : Run Throwable (Frame α)} (ha : Run.Keeps (Inside 0) a) :
    Run.Keeps (Inside 0) (unlessProblem a) :=
  inside_checkResult.andThen (ha.when _)

theorem inside_authorize (n : ℕ) : Run.Keeps (Inside 0) (c.authorize env n) := by
  have huser : Run.Keeps (Inside 0 (α := α))
      (Run.modify fun f => { f with userLogin := c.userLogin n } : Run Throwable (Frame α)) :=
    fun _ => .of_session_eq rfl rfl rfl rfl
  exact (inside_eca henv n _).andThen <| (inside_eca henv n _).andThen <|
    (inside_eca henv n _).andThen <| inside_checkResult.andThen <|
    (inside_phase henv n _).andThen <| huser.andThen <| (Run.keeps_raise _).when _

theorem inside_perform (n : ℕ) : Run.Keeps (Inside 0) (c.perform env n) :=
  (inside_eca henv n _).andThen <|
    (inside_unlessProblem ((inside_phase henv n _).when _)).andThen <|
    (inside_eca henv n _).andThen <|
    (inside_unlessProblem (inside_phaseResult henv n _)).andThen inside_checkResult

/-- What an attempt leaves: its user is on the stack, and another attempt follows a deadlock in a
transaction of its own. -/
structure Attempted (c : ServiceCall α) (n : ℕ) (f : Frame α) (thrown : Option Throwable)
    (f' : Frame α) : Prop where
  stays : Stays (if c.pushes n then 1 else 0) f f'
  retries : (f.beganTrans && c.deadlocks n) = true →
    thrown = none ∧ f'.needsLockRetry = true ∧ f'.result = .empty
  ends : (f.beganTrans && c.deadlocks n) = false → thrown = none → f'.needsLockRetry = false

theorem inside_attempt (n : ℕ) (f : Frame α) :
    LoggedCalls f (c.attempt env n f).2 (f.session.thread.WellFormed → f.result = .empty →
      Attempted c n f (c.attempt env n f).1 (c.attempt env n f).2) := by
  let f₀ : Frame α := { f with needsLockRetry := false }
  let f₁ := (c.authorize env n f₀).2
  have hattempt : c.attempt env n f = Run.andThen (c.authorize env n)
      (.andThen pushUserIdentifier (.andThen (c.perform env n) (c.lockRetry n))) f₀ := rfl
  have hstart (hf : f.session.thread.WellFormed) : Stays 0 f f₀ :=
    .of_same ⟨hf, Thread.Restores.refl _, rfl, rfl⟩ rfl rfl rfl
  have hinside : Inside 0 f₀ f₁ := inside_authorize henv n f₀
  have hauthorize := c.follows_authorize env n f₀
  rw [outcome] at hauthorize
  cases hthrown : (c.authorize env n f₀).1 with
  | some e =>
    -- the attempt ends before its user is known
    have hstops : c.attempt env n f = (some e, f₁) := by
      rw [hattempt, Run.andThen, hthrown]
    rw [hthrown] at hauthorize
    rw [hstops]
    refine hinside.mono fun hstays hf hempty => ?_
    have hcourse : c.authorizeCourse n .empty = .error e := by
      rw [← hempty]
      exact hauthorize.symm
    have hpushes : c.pushes n = false := by
      rw [pushes, hcourse]
      rfl
    have hdeadlocks : c.deadlocks n = false := by
      rw [deadlocks, hcourse]
      rfl
    refine ⟨?_, fun h => ?_, fun _ h => absurd h (Option.some_ne_none e)⟩
    · rw [hpushes]
      exact (hstart hf).trans (hstays hf)
    · rw [hdeadlocks, Bool.and_false] at h
      exact absurd h Bool.false_ne_true
  | none =>
    rw [hthrown] at hauthorize
    let f₂ := (pushUserIdentifier f₁).2
    let f₃ := (c.perform env n f₂).2
    have huser : f₁.userLogin = c.userLogin n := c.authorize_userLogin env n f₀ hthrown
    have hgoes : c.attempt env n f = Run.andThen (c.perform env n) (c.lockRetry n) f₂ := by
      rw [hattempt, Run.andThen, hthrown]
      rfl
    have hpush : Inside (if f₁.userLogin.join.isSome then 1 else 0) f₁ f₂ :=
      inside_pushUserIdentifier f₁
    have hperform : Inside 0 f₂ f₃ := inside_perform henv n f₂
    have hperformed := c.follows_perform env n f₂
    rw [outcome, show f₂.result = f₁.result from pushUserIdentifier_result f₁] at hperformed
    have hflag : f₃.needsLockRetry = false :=
      (perform_needsLockRetry n f₂).trans <| (pushUserIdentifier_needsLockRetry f₁).trans
        (authorize_needsLockRetry n f₀)
    -- what the course says of the attempt, once it begins without a result
    have hcourse (hempty : f.result = .empty) : c.authorizeCourse n .empty = .ok f₁.result := by
      rw [← hempty]
      exact hauthorize.symm
    have hpushes (hempty : f.result = .empty) :
        c.pushes n = f₁.userLogin.join.isSome := by
      rw [pushes, hcourse hempty, huser]
      rfl
    have hdeadlocks (hempty : f.result = .empty) :
        c.deadlocks n = match c.performCourse n f₁.result with
          | .ok result => result.isDeadlock
          | .error _ => false := by
      rw [deadlocks, hcourse hempty]
      rfl
    have hstays : LoggedCalls f f₃ (f.session.thread.WellFormed → f.result = .empty →
        Stays (if c.pushes n then 1 else 0) f f₃) := by
      refine (hinside.trans (hpush.trans hperform)).mono fun h hf hempty => ?_
      have hall := (hstart hf).trans (h hf)
      rw [hpushes hempty]
      rwa [Nat.add_zero, Nat.zero_add, Nat.zero_add] at hall
    rw [hgoes, Run.andThen]
    cases hran : (c.perform env n f₂).1 with
    | some e =>
      rw [hran] at hperformed
      refine hstays.mono fun h hf hempty =>
        ⟨h hf hempty, fun hretry => ?_, fun _ h => absurd h (Option.some_ne_none e)⟩
      rw [hdeadlocks hempty, ← hperformed, Bool.and_false] at hretry
      exact absurd hretry Bool.false_ne_true
    | none =>
      rw [hran] at hperformed
      refine hstays.comp (.of_eq (lockRetry_calls n f₃) trivial) fun h _ hf hempty => ?_
      have hretried := lockRetry_spec (c := c) n (h hf hempty).wellFormed
      obtain ⟨hstays', hretries, hends⟩ := hretried
      have hsame : (f.beganTrans && c.deadlocks n) = (f₃.beganTrans && f₃.result.isDeadlock) := by
        rw [hdeadlocks hempty, ← hperformed, (h hf hempty).beganTrans]
      exact ⟨(h hf hempty).trans hstays', fun hretry => hretries (hsame.symm.trans hretry),
        fun hfalse _ => (hends (hsame.symm.trans hfalse)).trans hflag⟩

/-- **All attempts** put as many users on the stack as get past the authorization. The induction
is on the attempts that remain. -/
theorem inside_attempts (lockRetriesRemaining n : ℕ) (f : Frame α) :
    LoggedCalls f (c.attempts env lockRetriesRemaining n f).2
      (f.session.thread.WellFormed → f.result = .empty →
        Stays (c.usersPushed f.beganTrans lockRetriesRemaining n) f
          (c.attempts env lockRetriesRemaining n f).2) := by
  induction lockRetriesRemaining generalizing n f with
  | zero =>
    exact .of_eq rfl fun hf _ => .of_same ⟨hf, Thread.Restores.refl _, rfl, rfl⟩ rfl rfl rfl
  | succ lockRetriesRemaining ih =>
    have hattempt := inside_attempt (c := c) henv n f
    -- where no attempt follows, the number is that of the attempt
    have hlast (hstops : (c.attempt env n f).1 = none →
        (c.attempt env n f).2.needsLockRetry = false) :
        LoggedCalls f (c.attempt env n f).2 (f.session.thread.WellFormed → f.result = .empty →
          Stays (c.usersPushed f.beganTrans (lockRetriesRemaining + 1) n) f
            (c.attempt env n f).2) := by
      refine hattempt.mono fun h hf hempty => ?_
      obtain ⟨hstays, hretries, -⟩ := h hf hempty
      have hno : (f.beganTrans && c.deadlocks n) = false := by
        by_contra hretry
        obtain ⟨hnone, hflag, -⟩ := hretries (Bool.of_not_eq_false hretry)
        exact Bool.false_ne_true ((hstops hnone).symm.trans hflag)
      rw [usersPushed, hno]
      exact hstays
    rw [attempts, Run.andThen]
    cases hran : (c.attempt env n f).1 with
    | some e => exact hlast fun h => absurd (hran.symm.trans h) (Option.some_ne_none e)
    | none =>
      dsimp only [Run.when]
      by_cases hflag : (c.attempt env n f).2.needsLockRetry = true
      · rw [if_pos hflag]
        refine hattempt.comp (ih (n + 1) (c.attempt env n f).2) fun h h' hf hempty => ?_
        obtain ⟨hstays, hretries, hends⟩ := h hf hempty
        have hretry : (f.beganTrans && c.deadlocks n) = true := by
          by_contra hno
          exact Bool.false_ne_true ((hends (Bool.of_not_eq_true hno) hran).symm.trans hflag)
        rw [usersPushed, hretry, ← hstays.beganTrans]
        exact hstays.trans (h' hstays.wellFormed (hretries hretry).2.2)
      · rw [if_neg hflag]
        exact hlast fun _ => Bool.of_not_eq_true hflag

theorem inside_afterAttempts : Run.Keeps (Inside 0) (c.afterAttempts env) :=
  (inside_phase henv 0 _).andThen <|
    (((inside_eca henv 0 _).andThen (inside_phase henv 0 _)).when _).andThen <|
    (inside_eca henv 0 _).andThen <| inside_checkResult.andThen (inside_eca henv 0 _)

theorem inside_handleThrowable (t : Throwable) : Run.Keeps (Inside 0) (c.handleThrowable env t) :=
  (inside_phase henv 0 _).andThen <| (inside_rollback _ _).andThen (Run.keeps_raise _)

theorem inside_body (f : Frame α) :
    let body := Run.tryCatch (.andThen (c.attempts env LOCK_RETRIES 0) (c.afterAttempts env))
      (c.handleThrowable env)
    LoggedCalls f (body f).2 (f.session.thread.WellFormed → f.result = .empty →
      Stays (c.usersPushed f.beganTrans LOCK_RETRIES 0) f (body f).2) := by
  have hattempts := inside_attempts (c := c) henv LOCK_RETRIES 0 f
  have hadd {f' : Frame α} (h : Inside 0 (c.attempts env LOCK_RETRIES 0 f).2 f') :
      LoggedCalls f f' (f.session.thread.WellFormed → f.result = .empty →
        Stays (c.usersPushed f.beganTrans LOCK_RETRIES 0) f f') :=
    hattempts.comp h fun hstays h hf hempty =>
      (hstays hf hempty).trans (h (hstays hf hempty).wellFormed)
  dsimp only
  rw [Run.tryCatch, Run.andThen]
  cases hran : (c.attempts env LOCK_RETRIES 0 f).1 with
  | some e => exact hadd (inside_handleThrowable henv e _)
  | none =>
    dsimp only
    have hafter := inside_afterAttempts (c := c) henv (c.attempts env LOCK_RETRIES 0 f).2
    split
    · exact hadd hafter
    · exact hadd (hafter.trans (inside_handleThrowable henv _ _))

end

end ServiceCall

/-! ### The end of the transaction -/

/-- What the end of a call does: a transaction of its own has ended, any other is left in place,
and the stack of users is given. -/
structure Ended (stack : List String) (f f' : Frame α) : Prop where
  wellFormed : f'.session.thread.WellFormed
  thread : Thread.Keeps f.session.thread f'.session.thread
  current : f.beganTrans = true → f'.session.thread.tm.current = none
  restores : f.beganTrans = false → Thread.Restores f.session.thread f'.session.thread
  userIdentifierStack : f'.session.userIdentifierStack = stack
  semaphores : f'.session.semaphores = f.session.semaphores
  lock : f'.lock = f.lock
  parentTransaction : f'.parentTransaction = f.parentTransaction

theorem Ended.same {stack : List String} {f f' f'' : Frame α} (h : Ended stack f f')
    (h' : Session.Same f'.session f''.session) (hlock : f''.lock = f'.lock)
    (hparent : f''.parentTransaction = f'.parentTransaction) : Ended stack f f'' :=
  ⟨h'.wellFormed, h.thread.trans h'.thread.toKeeps,
    fun hbegan => h'.thread.current.trans (h.current hbegan),
    fun hbegan => (h.restores hbegan).trans h'.thread,
    h'.userIdentifierStack.trans h.userIdentifierStack, h'.semaphores.trans h.semaphores,
    hlock.trans h.lock, hparent.trans h.parentTransaction⟩

theorem Ended.pop {stack : List String} {f f' : Frame α} (h : Ended stack f f') :
    Ended stack.tail f (popUserIdentifier f').2 :=
  { h with userIdentifierStack := congrArg List.tail h.userIdentifierStack }

theorem ended_setThread {f : Frame α} {thread : Thread α}
    (htrue : f.beganTrans = true → thread.WellFormed ∧ Thread.Ends f.session.thread thread)
    (hfalse : f.beganTrans = false → thread.WellFormed ∧
      Thread.Restores f.session.thread thread) :
    Ended f.session.userIdentifierStack f (setThread f thread) := by
  cases hbegan : f.beganTrans with
  | true =>
    obtain ⟨hended, hends⟩ := htrue hbegan
    exact ⟨hended, hends.toKeeps, fun _ => hends.current,
      fun h => Bool.noConfusion (hbegan.symm.trans h),
      rfl, rfl, rfl, rfl⟩
  | false =>
    obtain ⟨hended, hrestores⟩ := hfalse hbegan
    exact ⟨hended, hrestores.toKeeps, fun h => Bool.noConfusion (hbegan.symm.trans h),
      fun _ => hrestores,
      rfl, rfl, rfl, rfl⟩

theorem ended_rollback {f : Frame α} (hf : f.session.thread.WellFormed) (errMsg : String)
    (cause : Option Throwable) :
    Ended f.session.userIdentifierStack f (rollbackTransaction errMsg cause f).2 := by
  refine ended_setThread (fun hbegan => ?_) fun hbegan => ?_
  · rw [Thread.rollback, if_pos hbegan]
    exact Thread.rollbackCurrent_ends hf
  · rw [Thread.rollback, hbegan]
    exact Thread.setRollbackOnly_restores hf errMsg cause

namespace ServiceCall

variable {c : ServiceCall α} {env : Environment α}

theorem ended_commitTransaction {f : Frame α} (hf : f.session.thread.WellFormed) :
    Ended (if (c.commitTransaction f).1.isNone then f.session.userIdentifierStack
      else f.session.userIdentifierStack.tail) f (c.commitTransaction f).2 := by
  have hcommit : Ended f.session.userIdentifierStack f
      (setThread f (f.session.thread.commit f.beganTrans c.commitAnswer).2) := by
    refine ended_setThread (fun hbegan => ?_) fun hbegan => ?_
    · rw [Thread.commit, if_pos hbegan]
      exact Thread.commitCurrent_ends hf c.commitAnswer
    · rw [Thread.commit, hbegan]
      exact ⟨hf, Thread.Restores.refl _⟩
  rw [commitTransaction]
  split
  · exact hcommit
  · exact hcommit.pop

theorem commitTransaction_calls :
    Run.Keeps (Run.Same fun f : Frame α => f.session.calls) c.commitTransaction := by
  intro f
  rw [commitTransaction]
  split
  · rfl
  · rfl

theorem ended_endTransaction {f : Frame α} (hf : f.session.thread.WellFormed) :
    Ended (if (c.endTransaction f).1.isNone then f.session.userIdentifierStack
      else f.session.userIdentifierStack.tail) f (c.endTransaction f).2 := by
  rw [endTransaction, Run.look]
  split
  · exact ended_rollback hf _ _
  · exact ended_commitTransaction hf

theorem endTransaction_calls :
    Run.Keeps (Run.Same fun f : Frame α => f.session.calls) c.endTransaction := by
  refine Run.keeps_look fun f => ?_
  split
  · exact rollbackTransaction_calls _ _
  · exact commitTransaction_calls

section

variable (henv : ∀ n p s, Session.Restores s (env n p s))
include henv

/-- **The end of a call** takes one user off the stack, if the notifications do not throw or
there is none on it. -/
theorem ended_finish (f : Frame α) :
    LoggedCalls f (c.finish env f).2 (f.session.thread.WellFormed →
      (c.throws 0 .evalNotifications = none ∨ f.session.userIdentifierStack = []) →
      Ended f.session.userIdentifierStack.tail f (c.finish env f).2) := by
  have hcalls : LoggedCalls f (c.endTransaction f).2 True :=
    .of_eq (endTransaction_calls f) trivial
  have hend (hf : f.session.thread.WellFormed) := ended_endTransaction (c := c) hf
  rw [finish, Run.andThen]
  cases hended : (c.endTransaction f).1 with
  | some e =>
    rw [hended] at hend
    exact hcalls.mono fun _ hf _ => hend hf
  | none =>
    rw [hended] at hend
    dsimp only
    let notified : Frame α := { (c.endTransaction f).2 with
      session := env 0 .evalNotifications (c.endTransaction f).2.session }
    have hnotified : LoggedCalls f notified (f.session.thread.WellFormed →
        Ended f.session.userIdentifierStack f notified) :=
      Logged.comp hcalls (henv 0 .evalNotifications (c.endTransaction f).2.session)
        fun _ hsame hf => (hend hf).same (hsame (hend hf).wellFormed) rfl rfl
    rw [Run.andThen, phase]
    cases hthrows : c.throws 0 .evalNotifications with
    | none => exact hnotified.mono fun h hf _ => (h hf).pop
    | some e =>
      refine hnotified.mono fun h hf hquiet => ?_
      have hempty := hquiet.resolve_left fun h => absurd h (Option.some_ne_none e)
      rw [hempty] at h ⊢
      exact h hf

/-- **A call from the beginning of its transaction on.** -/
theorem ended_runTransaction (f : Frame α) :
    LoggedCalls f (c.runTransaction env f).2 (f.session.thread.WellFormed → f.result = .empty →
      c.OneUser f.beganTrans f.session.userIdentifierStack →
      Ended f.session.userIdentifierStack f (c.runTransaction env f).2) := by
  refine (inside_body (c := c) henv f).comp (ended_finish henv _)
    fun hbody hfinish hf hempty husers => ?_
  have hstays := hbody hf hempty
  obtain ⟨ids, hlength, hstack⟩ := hstays.userIdentifierStack
  have hquiet : c.throws 0 .evalNotifications = none ∨
      (ids ++ f.session.userIdentifierStack) = [] := by
    refine husers.imp And.right fun hnone => ?_
    obtain ⟨hzero, hnil⟩ := hnone
    rw [List.length_eq_zero_iff.mp (hlength.trans hzero), hnil, List.nil_append]
  have hended := hfinish hstays.wellFormed (hstack ▸ hquiet)
  have htail : (ids ++ f.session.userIdentifierStack).tail = f.session.userIdentifierStack := by
    rcases husers with ⟨hone, -⟩ | ⟨hzero, hnil⟩
    · obtain ⟨id, rfl⟩ := List.length_eq_one_iff.mp (hlength.trans hone)
      rfl
    · rw [List.length_eq_zero_iff.mp (hlength.trans hzero), hnil]
      rfl
  exact ⟨hended.wellFormed, hstays.thread.trans hended.thread,
    fun hbegan => hended.current (hstays.beganTrans.trans hbegan),
    fun hbegan => (hstays.restores hbegan).trans
      (hended.restores (hstays.beganTrans.trans hbegan)),
    hended.userIdentifierStack.trans (hstack ▸ htail), hended.semaphores.trans hstays.semaphores,
    hended.lock.trans hstays.lock, hended.parentTransaction.trans hstays.parentTransaction⟩

omit henv in
/-- **The beginning**: the transaction that is in place is left there, or the call begins one of
its own, in a thread without one. -/
theorem setUpTransaction_eq {f : Frame α} (hf : f.session.thread.WellFormed) :
    ((c.ownTransaction f.session.thread.tm.current.isSome) = false ∧
      setUpTransaction c.model f = (none, f)) ∨
    ((c.ownTransaction f.session.thread.tm.current.isSome) = true ∧
      ∃ g, (f.session.thread.tm.current = none ∧ g = f ∨
          f.session.thread.tm.current ≠ none ∧ g = suspendParent f) ∧
        g.session.thread.WellFormed ∧ g.session.thread.tm.current = none ∧
        setUpTransaction c.model f =
          (none, { setThread g g.session.thread.begin.2 with beganTrans := true })) := by
  rw [ownTransaction, setUpTransaction, Run.when]
  cases c.model.useTransaction with
  | false => exact .inl ⟨rfl, rfl⟩
  | true =>
    rw [if_pos rfl, Run.look]
    cases hcurrent : f.session.thread.tm.current with
    | none =>
      exact .inr ⟨rfl, f, .inl ⟨rfl, rfl⟩, hf, hcurrent, beginTransaction_of_none hf hcurrent⟩
    | some t =>
      rw [Option.isSome_some, if_pos rfl, Run.when]
      cases c.model.requireNewTransaction with
      | false => exact .inl ⟨rfl, rfl⟩
      | true =>
        have hsuspended := Thread.suspend_wellFormed hf
        have hnone : f.session.thread.suspend.2.tm.current = none := by
          obtain ⟨stamp, hstamp⟩ := Option.ne_none_iff_exists'.mp
            (hf.stamped (hcurrent ▸ Option.some_ne_none t))
          rw [Thread.suspend_eq hf hcurrent hstamp]
          rfl
        exact .inr ⟨rfl, suspendParent f, .inr ⟨Option.some_ne_none t, rfl⟩, hsuspended, hnone,
          beginTransaction_of_none (f := suspendParent f) hsuspended hnone⟩

omit henv in
theorem setUpTransaction_calls :
    Run.Keeps (Run.Same fun f : Frame α => f.session.calls) (setUpTransaction c.model) := by
  have hsuspend : Run.Keeps (Run.Same fun f : Frame α => f.session.calls)
      (.modify suspendParent : Run Throwable (Frame α)) := fun _ => rfl
  refine Run.Keeps.when (Run.keeps_look fun f => ?_) _
  split
  · exact (hsuspend.andThen beginTransaction_calls).when _
  · exact beginTransaction_calls

end

end ServiceCall

/-! ### A whole call -/

/-- The transaction of the session is in place, or it is the parent that the call has suspended. -/
def Parked (s : Session α) (f : Frame α) : Prop :=
  (f.parentTransaction = none ∧ Thread.Restores s.thread f.session.thread) ∨
    ∃ g : Thread α, g.WellFormed ∧ Thread.Restores s.thread g ∧
      f.parentTransaction = g.suspend.1 ∧ Thread.Restores g.suspend.2 f.session.thread

/-- What a call leaves before its semaphore is released. -/
structure Leaving (c : ServiceCall α) (s : Session α) (f : Frame α) : Prop where
  wellFormed : f.session.thread.WellFormed
  parked : Parked s f
  parent : f.parentTransaction ≠ none → c.enters = true ∧ s.thread.tm.current.isSome = true ∧
    c.ownTransaction s.thread.tm.current.isSome = true
  userIdentifierStack : f.session.userIdentifierStack = s.userIdentifierStack
  semaphores : f.session.semaphores =
    if f.lock then c.model.name :: s.semaphores else s.semaphores
  lock : f.lock = true → c.acquires = true

/-- What a call leaves before its transaction begins. -/
structure Entering (c : ServiceCall α) (s : Session α) (f : Frame α) : Prop extends
    Leaving c s f where
  thread : Thread.Restores s.thread f.session.thread
  beganTrans : f.beganTrans = false
  parentTransaction : f.parentTransaction = none
  result : f.result = .empty

theorem Leaving.ended {c : ServiceCall α} {s : Session α} {f g f' : Frame α}
    (h : Leaving c s f) (hended : Ended g.session.userIdentifierStack g f')
    (hstack : g.session.userIdentifierStack = f.session.userIdentifierStack)
    (hsem : g.session.semaphores = f.session.semaphores) (hlock : g.lock = f.lock)
    (hparked : Parked s f') (hparent : f'.parentTransaction ≠ none → c.enters = true ∧
      s.thread.tm.current.isSome = true ∧ c.ownTransaction s.thread.tm.current.isSome = true) :
    Leaving c s f' where
  wellFormed := hended.wellFormed
  parked := hparked
  parent := hparent
  userIdentifierStack :=
    hended.userIdentifierStack.trans (hstack.trans h.userIdentifierStack)
  semaphores := by
    rw [hended.semaphores, hsem, h.semaphores, hended.lock, hlock]
  lock hheld := h.lock (hlock.symm.trans (hended.lock.symm.trans hheld))

theorem Entering.same {c : ServiceCall α} {s : Session α} {f : Frame α} (h : Entering c s f)
    {s' : Session α} (hsame : Session.Same f.session s') :
    Entering c s { f with session := s' } where
  wellFormed := hsame.wellFormed
  parked := .inl ⟨h.parentTransaction, h.thread.trans hsame.thread⟩
  parent hparent := absurd h.parentTransaction hparent
  userIdentifierStack := hsame.userIdentifierStack.trans h.userIdentifierStack
  semaphores := hsame.semaphores.trans h.semaphores
  lock := h.lock
  thread := h.thread.trans hsame.thread
  beganTrans := h.beganTrans
  parentTransaction := h.parentTransaction
  result := h.result

theorem entering_enter (c : ServiceCall α) {s : Session α} (hs : s.thread.WellFormed) :
    Entering c s (.enter s) where
  wellFormed := hs
  parked := .inl ⟨rfl, Thread.Restores.refl _⟩
  parent hparent := absurd rfl hparent
  userIdentifierStack := rfl
  semaphores := rfl
  lock h := absurd h Bool.false_ne_true
  thread := Thread.Restores.refl _
  beganTrans := rfl
  parentTransaction := rfl
  result := rfl

namespace ServiceCall

variable {c : ServiceCall α} {env : Environment α}

section

variable (henv : ∀ n p s, Session.Restores s (env n p s))
include henv

theorem entering_acquire (s : Session α) :
    LoggedCalls (.enter s) (c.acquire env (.enter s)).2
      (s.thread.WellFormed → Entering c s (c.acquire env (.enter s)).2) := by
  rw [acquire, Run.when]
  by_cases hlocks : c.locks = true
  · rw [if_pos hlocks, Run.andThen, phase]
    cases hthrows : c.throws 0 .acquire with
    | some e =>
      exact Logged.mono (henv 0 .acquire s) fun hsame hs => (entering_enter c hs).same (hsame hs)
    | none =>
      refine Logged.mono (henv 0 .acquire s) fun hsame hs => ?_
      have hentering := (entering_enter c hs).same (hsame hs)
      have hsem : (env 0 .acquire s).semaphores = s.semaphores := (hsame hs).semaphores
      exact
        { hentering with
          semaphores := by
            show (if c.stored then c.model.name :: (env 0 .acquire s).semaphores
              else (env 0 .acquire s).semaphores) = if c.stored then _ else _
            rw [hsem]
          lock := fun hstored => by
            rw [acquires, hlocks, hthrows]
            exact hstored }
  · rw [if_neg hlocks]
    exact .of_eq rfl (entering_enter c)

/-- **The transaction of a call**, from its beginning to its end. -/
theorem leaving_transaction (s : Session α) (f : Frame α) (henters : c.enters = true) :
    let a := Run.andThen (setUpTransaction c.model) (c.runTransaction env)
    LoggedCalls f (a f).2 (Entering c s f →
      c.OneUser (c.ownTransaction s.thread.tm.current.isSome) s.userIdentifierStack →
      Leaving c s (a f).2) := by
  have hcalls : LoggedCalls f (setUpTransaction c.model f).2 True :=
    .of_eq (setUpTransaction_calls f) trivial
  have hran := ended_runTransaction (c := c) henv (setUpTransaction c.model f).2
  dsimp only
  rw [Run.andThen]
  cases hthrown : (setUpTransaction c.model f).1 with
  | some e =>
    refine hcalls.mono fun _ hf _ => ?_
    rcases setUpTransaction_eq (c := c) hf.wellFormed with ⟨-, heq⟩ | ⟨-, g, -, -, -, heq⟩
    · exact absurd (hthrown.symm.trans (congrArg Prod.fst heq)) (Option.some_ne_none e)
    · exact absurd (hthrown.symm.trans (congrArg Prod.fst heq)) (Option.some_ne_none e)
  | none =>
    refine Logged.comp hcalls hran fun _ hended hf husers => ?_
    rw [← hf.thread.current] at husers
    rcases setUpTransaction_eq (c := c) hf.wellFormed with
      ⟨hown, heq⟩ | ⟨hown, g, hg, hwf, hnone, heq⟩
    · -- the transaction that is in place, if there is one, is left there
      rw [heq] at hended ⊢
      rw [hown, ← hf.beganTrans, ← hf.userIdentifierStack] at husers
      have hended := hended hf.wellFormed hf.result husers
      have hparent := hended.parentTransaction.trans hf.parentTransaction
      exact hf.toLeaving.ended hended rfl rfl rfl
        (.inl ⟨hparent, hf.thread.trans (hended.restores hf.beganTrans)⟩)
        fun h => absurd hparent h
    · -- a transaction of its own has ended, and the thread is without one again
      let begun : Frame α := { setThread g g.session.thread.begin.2 with beganTrans := true }
      rw [heq] at hended ⊢
      rw [hown, ← hf.userIdentifierStack] at husers
      obtain ⟨-, hbegun, hkeeps⟩ := Thread.begin_of_none hwf hnone
      have hown' : c.ownTransaction s.thread.tm.current.isSome = true := by
        rw [← hf.thread.current]
        exact hown
      have hrestores (f' : Frame α) (h : Ended begun.session.userIdentifierStack begun f') :
          Thread.Restores g.session.thread f'.session.thread :=
        ⟨hkeeps.trans h.thread, (h.current rfl).trans hnone.symm, fun h => absurd hnone h⟩
      rcases hg with ⟨-, rfl⟩ | ⟨hsome, rfl⟩
      · have hended := hended hbegun hf.result husers
        have hparent := hended.parentTransaction.trans hf.parentTransaction
        exact hf.toLeaving.ended hended rfl rfl rfl
          (.inl ⟨hparent, hf.thread.trans (hrestores _ hended)⟩) fun h => absurd hparent h
      · have hended := hended hbegun hf.result husers
        refine hf.toLeaving.ended hended rfl rfl rfl
          (.inr ⟨f.session.thread, hf.wellFormed, hf.thread, hended.parentTransaction,
            hrestores _ hended⟩) fun _ => ⟨henters, ?_, hown'⟩
        rw [← hf.thread.current]
        exact Option.isSome_iff_ne_none.mpr hsome

theorem leaving_guarded (s : Session α) :
    let a := Run.tryCatch
      (.andThen (c.acquire env) <|
        .andThen (c.phase env 0 .setUp) <|
        .andThen (setUpTransaction c.model) (c.runTransaction env))
      handleTransaction
    LoggedCalls (.enter s) (a (.enter s)).2 (s.thread.WellFormed → (c.record s).Balanced →
      Leaving c s (a (.enter s)).2) := by
  have hhandle (te : Throwable) (f : Frame α) : (handleTransaction te f).2 = f := by
    rw [handleTransaction]
    split
    · rfl
    · rfl
  have hacquire := entering_acquire (c := c) henv s
  have hcatch (a : Run Throwable (Frame α)) :
      (Run.tryCatch a handleTransaction (.enter s)).2 = (a (.enter s)).2 := by
    rw [Run.tryCatch]
    split
    · rfl
    · exact hhandle _ _
  dsimp only
  rw [hcatch, Run.andThen]
  cases hacquired : (c.acquire env (.enter s)).1 with
  | some e => exact hacquire.mono fun h hs _ => (h hs).toLeaving
  | none =>
    have hsetUp : LoggedCalls (.enter s) (c.phase env 0 .setUp (c.acquire env (.enter s)).2).2
        (s.thread.WellFormed →
          Entering c s (c.phase env 0 .setUp (c.acquire env (.enter s)).2).2) :=
      hacquire.comp (henv 0 .setUp _) fun h hsame hs => (h hs).same (hsame (h hs).wellFormed)
    dsimp only
    rw [Run.andThen]
    cases hset : (c.phase env 0 .setUp (c.acquire env (.enter s)).2).1 with
    | some e => exact hsetUp.mono fun h hs _ => (h hs).toLeaving
    | none =>
      have henters : c.enters = true := by
        rw [enters, show c.throws 0 .setUp = none from hset]
        rw [acquire, Run.when] at hacquired
        by_cases hlocks : c.locks = true
        · rw [if_pos hlocks, Run.andThen, phase] at hacquired
          cases hthrows : c.throws 0 .acquire with
          | none => simp
          | some e =>
            rw [hthrows] at hacquired
            exact absurd hacquired (Option.some_ne_none e)
        · simp [hlocks]
      exact hsetUp.comp (leaving_transaction henv s _ henters) fun h hleaves hs hbalanced =>
        hleaves (h hs) (hbalanced.users henters)

/-- **The release** removes a row that was stored. -/
theorem leaving_release (s : Session α) (f : Frame α) :
    LoggedCalls f (c.release env f).2 (Leaving c s f → (c.record s).Balanced →
      Leaving c s (c.release env f).2 ∧ (c.release env f).2.lock = false) := by
  rw [release, Run.when]
  by_cases hlocks : c.locks = true
  · let g : Frame α := { f with session := env 0 .release f.session }
    have hphase : LoggedCalls f g (Leaving c s f → Leaving c s g) := by
      refine Logged.mono (henv 0 .release f.session) fun hsame h => ?_
      have hsame := hsame h.wellFormed
      have hparked : Parked s g := by
        rcases h.parked with ⟨hnone, hthread⟩ | ⟨parent, hwf, hthread, hparent, hsuspended⟩
        · exact .inl ⟨hnone, hthread.trans hsame.thread⟩
        · exact .inr ⟨parent, hwf, hthread, hparent, hsuspended.trans hsame.thread⟩
      exact ⟨hsame.wellFormed, hparked, h.parent,
        hsame.userIdentifierStack.trans h.userIdentifierStack,
        hsame.semaphores.trans h.semaphores, h.lock⟩
    rw [if_pos hlocks, Run.tryCatch, Run.andThen, phase]
    cases hthrows : c.throws 0 .release with
    | some e =>
      -- without a row there is nothing to release
      have hhandled : ((if e.kind = .checked then Run.skip else Run.raise e :
          Run Throwable (Frame α)) g).2 = g := by
        split
        · rfl
        · rfl
      have hfree : Leaving c s f → (c.record s).Balanced → g.lock = false := by
        intro h hbalanced
        by_contra hheld
        have hreleased := hbalanced.semaphores (h.lock (Bool.of_not_eq_false hheld))
        exact absurd (hthrows.symm.trans hreleased.2) (Option.some_ne_none e)
      show LoggedCalls f ((if e.kind = .checked then Run.skip else Run.raise e :
        Run Throwable (Frame α)) g).2 (_ → _ → Leaving c s ((if e.kind = .checked then Run.skip
          else Run.raise e : Run Throwable (Frame α)) g).2 ∧ _)
      rw [hhandled]
      exact hphase.mono fun hkeep h hbalanced => ⟨hkeep h, hfree h hbalanced⟩
    | none =>
      dsimp only [Run.when]
      by_cases hheld : (f.lock && c.removed) = true
      · rw [if_pos hheld]
        have hlock : f.lock = true := (Bool.and_eq_true_iff.mp hheld).1
        refine hphase.mono fun hkeep h _ => ⟨?_, rfl⟩
        have hkept := hkeep h
        have hsem : g.session.semaphores = c.model.name :: s.semaphores := by
          rw [hkept.semaphores, if_pos hlock]
        exact
          { hkept with
            semaphores := by
              show g.session.semaphores.erase c.model.name = s.semaphores
              rw [hsem, List.erase_cons_head]
            lock := fun h => absurd h Bool.false_ne_true }
      · rw [if_neg hheld]
        refine hphase.mono fun hkeep h hbalanced => ⟨hkeep h, ?_⟩
        by_contra hlock
        have hlock : f.lock = true := Bool.of_not_eq_false hlock
        exact hheld (Bool.and_eq_true_iff.mpr ⟨hlock, (hbalanced.semaphores (h.lock hlock)).1⟩)
  · rw [if_neg hlocks]
    refine .of_eq rfl fun h _ => ⟨h, ?_⟩
    by_contra hheld
    have hacquires := h.lock (Bool.of_not_eq_false hheld)
    rw [acquires, Bool.of_not_eq_true hlocks] at hacquires
    exact absurd hacquires Bool.false_ne_true

omit henv in
theorem release_thrown {f : Frame α} {e : Throwable} (h : (c.release env f).1 = some e) :
    c.locks = true ∧ c.throws 0 .release = some e ∧ e.kind ≠ .checked := by
  rw [release, Run.when] at h
  by_cases hlocks : c.locks = true
  · rw [if_pos hlocks, Run.tryCatch, Run.andThen, phase] at h
    cases hthrows : c.throws 0 .release with
    | none =>
      rw [hthrows] at h
      dsimp only [Run.when] at h
      by_cases hheld : (f.lock && c.removed) = true
      · rw [if_pos hheld] at h
        exact absurd h.symm (Option.some_ne_none e)
      · rw [if_neg hheld] at h
        exact absurd h.symm (Option.some_ne_none e)
    | some thrown =>
      rw [hthrows] at h
      dsimp only at h
      by_cases hchecked : thrown.kind = .checked
      · rw [if_pos hchecked] at h
        exact absurd h.symm (Option.some_ne_none e)
      · rw [if_neg hchecked] at h
        obtain rfl := Option.some.inj h
        exact ⟨hlocks, rfl, hchecked⟩
  · rw [if_neg hlocks] at h
    exact absurd h.symm (Option.some_ne_none e)

omit henv in
theorem same_resumeParent {s : Session α} {f : Frame α} (h : Leaving c s f)
    (hlock : f.lock = false) : Session.Same s (resumeParent f).2.session := by
  have hsem : f.session.semaphores = s.semaphores := by
    rw [h.semaphores, hlock]
    rfl
  rw [resumeParent]
  cases hparent : f.parentTransaction with
  | none =>
    rcases h.parked with ⟨-, hthread⟩ | ⟨g, -, hg, hsuspend, hthread⟩
    · exact ⟨h.wellFormed, hthread, h.userIdentifierStack, hsem⟩
    · -- nothing was suspended: the thread was without a transaction
      rw [hparent] at hsuspend
      have hsame : g.suspend = (none, g) := by
        cases hcurrent : g.tm.current with
        | none => rw [Thread.suspend, hcurrent]
        | some t =>
          rw [Thread.suspend, hcurrent] at hsuspend
          exact absurd hsuspend.symm (Option.some_ne_none t)
      rw [hsame] at hthread
      exact ⟨h.wellFormed, hg.trans hthread, h.userIdentifierStack, hsem⟩
  | some t =>
    rcases h.parked with ⟨hnone, -⟩ | ⟨g, hwf, hg, hsuspend, hthread⟩
    · exact absurd (hnone.symm.trans hparent).symm (Option.some_ne_none t)
    · obtain ⟨hresumed, hrestores⟩ := Thread.suspension_restores hwf h.wellFormed hthread
      rw [← hsuspend, hparent] at hresumed hrestores
      exact ⟨hresumed, hg.trans hrestores, h.userIdentifierStack, hsem⟩

/-- **A call up to the rules of the return** leaves the session as it was. -/
theorem same_runGuarded (s : Session α) :
    LoggedCalls (.enter s) (c.runGuarded env (.enter s)).2 (s.thread.WellFormed →
      (c.record s).Balanced → Session.Same s (c.runGuarded env (.enter s)).2.session) := by
  have hguarded := leaving_guarded (c := c) henv s
  dsimp only at hguarded
  rw [runGuarded, Run.tryFinally]
  generalize (Run.tryCatch _ _ (Frame.enter s)) = ran at hguarded ⊢
  have hreleased := hguarded.comp (leaving_release (c := c) henv s ran.2)
    fun h h' hs hbalanced => h' (h hs hbalanced) hbalanced
  dsimp only
  rw [Run.andThen]
  cases hthrown : (c.release env ran.2).1 with
  | some e =>
    refine hreleased.mono fun h hs hbalanced => ?_
    obtain ⟨hleaving, hlock⟩ := h hs hbalanced
    obtain ⟨hlocks, hthrows, hkind⟩ := release_thrown hthrown
    -- with a parent the release would have thrown nothing of the kind
    have hparent : (c.release env ran.2).2.parentTransaction = none := by
      by_contra hparent
      obtain ⟨henters, hinPlace, hown⟩ := hleaving.parent hparent
      exact hkind (hbalanced.parent henters hinPlace hown hlocks e hthrows)
    have hsame := same_resumeParent hleaving hlock
    rw [resumeParent, hparent] at hsame
    exact hsame
  | none =>
    have hresume : LoggedCalls (c.release env ran.2).2 (resumeParent (c.release env ran.2).2).2
        True := by
      refine .of_eq ?_ trivial
      rw [resumeParent]
      split
      · rfl
      · rfl
    refine hreleased.comp hresume fun h _ hs hbalanced => ?_
    obtain ⟨hleaving, hlock⟩ := h hs hbalanced
    exact same_resumeParent hleaving hlock

theorem restores_eca (n : ℕ) (p : Phase) (f : Frame α) :
    Session.Restores f.session (c.eca env n p f).2.session := by
  rw [eca, Run.when]
  by_cases hmap : c.hasEventMap = true
  · rw [if_pos hmap, phaseResult, Run.andThen, phase]
    split
    · exact henv n p f.session
    · exact henv n p f.session
  · rw [if_neg hmap]
    exact Std.Refl.refl f.session

/-- **A call**, with all that its phases do. -/
theorem restores_runSync (s : Session α) : Session.Restores s (c.runSync env s).2 := by
  let s₁ : Session α := { s with calls := c.record s :: s.calls }
  have hguarded := same_runGuarded (c := c) henv s₁
  have hran : LoggedCalls (.enter s₁)
      ((Run.andThen (c.runGuarded env) (c.eca env 0 .ecaReturn)) (.enter s₁)).2
      (s.thread.WellFormed → (c.record s).Balanced → Session.Same s
        ((Run.andThen (c.runGuarded env) (c.eca env 0 .ecaReturn)) (.enter s₁)).2.session) := by
    rw [Run.andThen]
    cases (c.runGuarded env (.enter s₁)).1 with
    | some e =>
      refine hguarded.mono fun h hs hbalanced => ?_
      obtain ⟨hwf, hthread, hstack, hsem⟩ := h hs hbalanced
      exact ⟨hwf, hthread, hstack, hsem⟩
    | none =>
      refine hguarded.comp (restores_eca henv 0 .ecaReturn _) fun h hsame hs hbalanced => ?_
      obtain ⟨hwf, hthread, hstack, hsem⟩ := h hs hbalanced
      obtain ⟨hwf', hthread', hstack', hsem'⟩ := hsame hwf
      exact ⟨hwf', hthread.trans hthread', hstack'.trans hstack, hsem'.trans hsem⟩
  have hsession : (c.runSync env s).2 =
      ((Run.andThen (c.runGuarded env) (c.eca env 0 .ecaReturn)) (.enter s₁)).2.session := by
    rw [runSync]
    split
    · rfl
    · rfl
  obtain ⟨new, hnew, hsame⟩ := hran
  rw [hsession]
  refine ⟨new ++ [c.record s], hnew.trans (List.append_cons new _ _), fun hall hs => ?_⟩
  exact hsame (fun r hr => hall r (List.mem_append_left _ hr)) hs
    (hall _ (List.mem_append_right _ List.mem_cons_self))

end

end ServiceCall

/-! ### Nests of calls -/

namespace Script

/-- **Every script** restores the session, if its calls are balanced. The induction is on the
script: the phases of a call are scripts themselves. -/
theorem exec_restores (p : Script α) : Run.Keeps Session.Restores p.exec := by
  induction p with
  | program p => exact fun s => .of_thread fun hs => Entity.Program.exec_restores p hs
  | throw e => exact fun s => Std.Refl.refl s
  | seq p q ihp ihq => exact fun s => (ihp.andThen ihq) s
  | tryCatch p q ihp ihq => exact fun s => (ihp.tryCatch fun _ => ihq) s
  | unit body onReturn onThrow causeMessage answer ih =>
    intro s
    rw [exec]
    split
    · rename_i e hthrows
      refine .of_thread fun hs => ?_
      rw [Thread.begin_of_error hs hthrows]
      exact ⟨hs, Thread.Restores.refl _⟩
    · rename_i began hbegan
      refine (ih { s with thread := s.thread.begin.2 }).mono fun hsame hs => ?_
      have hbegun : s.thread.begin.2.WellFormed := Thread.apply_wellFormed hs .begin
      obtain ⟨-, -, hstack, hsem⟩ := hsame hbegun
      obtain ⟨hended, hrestores⟩ := Thread.unit_restores hs
        (fun h => ⟨(hsame h).wellFormed, (hsame h).thread⟩) hbegan _ causeMessage _ answer
      exact ⟨hended, hrestores, hstack, hsem⟩
  | suspended body ih =>
    intro s
    refine (ih { s with thread := s.thread.suspend.2 }).mono fun hsame hs => ?_
    have hsame := hsame (Thread.suspend_wellFormed hs)
    obtain ⟨hresumed, hrestores⟩ :=
      Thread.suspension_restores hs hsame.wellFormed hsame.thread
    exact ⟨hresumed, hrestores, hsame.userIdentifierStack, hsame.semaphores⟩
  | call c phases ih =>
    intro s
    have h : Session.Restores s
        (c.runSync (fun attempt p s => ((phases attempt p).exec s).2) s).2 :=
      ServiceCall.restores_runSync (fun n p => ih n p) s
    rw [exec]
    split
    · rename_i hran
      rw [hran] at h
      exact h
    · rename_i hran
      rw [hran] at h
      exact h

/-- **Nests of calls.** In a thread that the operations lead to, a script that calls services, to
any depth, leaves the users, the semaphores, the transaction and all that is suspended as they
were, if each of its calls is balanced. -/
theorem exec_nest {s : Session α} (h : (Thread.system (α := α)).Reachable s.thread)
    (p : Script α) :
    ∃ calls, (p.exec s).2.calls = calls ++ s.calls ∧ ((∀ record ∈ calls, record.Balanced) →
      (p.exec s).2.userIdentifierStack = s.userIdentifierStack ∧
      (p.exec s).2.semaphores = s.semaphores ∧
      (p.exec s).2.thread.tm.current = s.thread.tm.current ∧
      (p.exec s).2.thread.suspendedTxStack = s.thread.suspendedTxStack ∧
      (p.exec s).2.thread.transactionBeginStackSave = s.thread.transactionBeginStackSave ∧
      (p.exec s).2.thread.setRollbackOnlyCauseSave = s.thread.setRollbackOnlyCauseSave ∧
      (p.exec s).2.thread.suspendedTxStartStamps = s.thread.suspendedTxStartStamps ∧
      ∀ t ∈ s.thread.suspendedTxStack,
        TransactionManager.Untouched t s.thread.tm (p.exec s).2.thread.tm) := by
  obtain ⟨calls, hcalls, hsame⟩ := exec_restores p s
  refine ⟨calls, hcalls, fun hall => ?_⟩
  have hs := Thread.wellFormed_of_reachable h
  obtain ⟨-, hthread, hstack, hsem⟩ := hsame hall hs
  exact ⟨hstack, hsem, hthread.current, hthread.saved.1, hthread.saved.3, hthread.saved.4,
    hthread.saved.5, fun t ht => hthread.untouched t (hs.suspendedTxStack ▸ ht)⟩

def plainCall (userLogin : Option (Option String)) : ServiceCall ℕ where
  model := { name := "createParty" }
  answer _ _ := .empty
  throws _ _ := none
  userLogin _ := userLogin
  commitAnswer := .committed

def adminSession : Session ℕ where
  thread := .initial
  userIdentifierStack := ["admin"]
  semaphores := []
  calls := []

def nest : Script ℕ :=
  .call (plainCall (some (some "admin"))) fun _ p =>
    if p = .invoke then .call (plainCall (some (some "system"))) fun _ _ => .program .skip
    else .program .skip

theorem exec_nest_twoCalls :
    (nest.exec adminSession).2.userIdentifierStack = adminSession.userIdentifierStack ∧
    (nest.exec adminSession).2.calls.length = 2 := by
  obtain ⟨calls, hcalls, hsame⟩ := exec_nest (s := adminSession) (.init rfl) nest
  obtain rfl : calls = [⟨plainCall (some (some "system")), true, ["admin", "admin"]⟩,
      ⟨plainCall (some (some "admin")), false, ["admin"]⟩] := by
    rw [← List.append_nil calls]
    exact hcalls.symm
  refine ⟨(hsame fun record hrecord => ?_).1, congrArg List.length hcalls⟩
  rcases List.mem_cons.mp hrecord with rfl | hrecord
  · exact ⟨fun _ => .inl ⟨rfl, rfl⟩, fun h => absurd h Bool.false_ne_true,
      fun _ _ _ h => absurd h Bool.false_ne_true⟩
  · obtain rfl := List.mem_singleton.mp hrecord
    exact ⟨fun _ => .inl ⟨rfl, rfl⟩, fun h => absurd h Bool.false_ne_true,
      fun _ h => absurd h Bool.false_ne_true⟩

/-- **A call without a user** takes the user of its caller off the stack: what the caller writes
afterwards has no user. -/
theorem exec_withoutUser :
    (Thread.system (α := ℕ)).Reachable adminSession.thread ∧
    ((Script.call (plainCall none) fun _ _ => .program .skip).exec adminSession).1 = none ∧
    adminSession.userIdentifierStack = ["admin"] ∧
    ((Script.call (plainCall none) fun _ _ =>
      .program .skip).exec adminSession).2.userIdentifierStack = [] :=
  ⟨.init rfl, rfl, rfl, rfl⟩

end Script

end OfficeAuto.Service.Dispatcher
