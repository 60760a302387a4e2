import Mathlib.Data.List.Basic

/-!
# Change sets of a batch

A change set of an OData batch is a list of requests that are to be applied all together or not
at all. `processChangeSet` begins a transaction, unless the thread is in one, hands the requests
to the other processors one by one, rolls back at the first that fails, and commits in its
`finally` block what it has begun.

The transaction manager may fail in every call (`TransactionManager`), and a request may mark the
transaction for rollback without failing. What a run has made permanent is judged together with what
it has left in an open transaction (`Session.applied`), for the caller's transaction is not the
change set's to commit. `AllOrNothing` is the promise; `processChangeSet_allOrNothing_iff` says when
it is kept.
-/

namespace OfficeAuto.Odata.ChangeSet

variable {ε : Type*}

/-! ### The transaction of a thread -/

/-- Who has begun a transaction. -/
inductive Owner
  | caller
  | changeSet
  deriving DecidableEq, Repr

/-- A transaction, with the effects of the requests in it. -/
structure Transaction (ε : Type*) where
  owner : Owner
  isMarkedRollback : Bool
  hasRollbackOnlyCause : Bool
  work : List ε

def Transaction.pending (tx : Transaction ε) : List ε :=
  if tx.isMarkedRollback then [] else tx.work

/-- A thread with its transaction, the effects that are permanent, and whether a transaction of
the caller was ended. -/
structure Session (ε : Type*) where
  transaction : Option (Transaction ε)
  database : List ε
  callerEnded : Bool

namespace Session

def ended (s : Session ε) (stored : List ε) : Session ε where
  transaction := none
  database := s.database ++ stored
  callerEnded := s.callerEnded || s.transaction.any (·.owner == .caller)

/-- The effects that are permanent, or will be with the commit of the open transaction. -/
def applied (s : Session ε) : List ε :=
  s.database ++ s.transaction.elim [] Transaction.pending

end Session

/-- The status of the thread's transaction when the change set comes in. -/
inductive Status
  | noTransaction
  | active
  | markedRollback (hasCause : Bool)
  deriving DecidableEq, Repr

def Status.session : Status → Session ε
  | noTransaction => ⟨none, [], false⟩
  | active => ⟨some ⟨.caller, false, false, []⟩, [], false⟩
  | markedRollback hasCause => ⟨some ⟨.caller, true, hasCause, []⟩, [], false⟩

/-! ### The transaction manager -/

/-- The exceptions that the handlers tell apart. -/
inductive Thrown
  | genericTransaction
  | odataApplication (statusCode : ℕ)
  | runtime
  deriving DecidableEq, Repr

/-- How a rollback goes: `getStatus` fails, or `rollback` of the user transaction succeeds or
fails, with a checked exception or not, after it has ended the transaction or not. -/
inductive RollbackFault
  | statusFails
  | succeeds
  | fails (isRuntime isEnded : Bool)
  deriving DecidableEq, Repr

/-- How a commit goes that is not marked for rollback; a heuristic outcome keeps a part. -/
inductive CommitFault (ε : Type*)
  | succeeds
  | rolledBack
  | heuristicMixed (kept : ε → Bool)
  | unfinished (isRuntime : Bool)

/-- How the calls go that a change set makes: `begin`, the rollbacks by their number, `commit`. -/
structure TransactionManager (ε : Type*) where
  beginStatusFails : Bool
  beginFails : Bool
  rollback : ℕ → RollbackFault
  commitStatusFails : Bool
  commit : CommitFault ε

variable (m : TransactionManager ε)

/-- `TransactionUtil.begin`; the result is whether a transaction was begun. -/
def begin (s : Session ε) : Except Thrown Bool × Session ε :=
  if m.beginStatusFails then (.error .genericTransaction, s)
  else
    match s.transaction with
    | some tx =>
      if tx.isMarkedRollback && tx.hasRollbackOnlyCause then (.error .genericTransaction, s)
      else (.ok false, s)
    | none =>
      if m.beginFails then (.error .genericTransaction, s)
      else (.ok true, { s with transaction := some ⟨.changeSet, false, false, []⟩ })

/-- `TransactionUtil.rollback` without a cause. -/
def rollback (n : ℕ) (s : Session ε) : Except Thrown Unit × Session ε :=
  match m.rollback n, s.transaction with
  | .statusFails, _ => (.error .genericTransaction, s)
  | _, none => (.ok (), s)
  | .succeeds, some _ => (.ok (), s.ended [])
  | .fails isRuntime isEnded, some _ =>
    (.error (if isRuntime then .runtime else .genericTransaction),
      if isEnded then s.ended [] else s)

/-- `TransactionUtil.commit`. -/
def commit (s : Session ε) : Except Thrown Unit × Session ε :=
  if m.commitStatusFails then (.error .genericTransaction, s)
  else
    match s.transaction with
    | none => (.ok (), s)
    | some tx =>
      match m.commit with
      | .unfinished isRuntime =>
        (.error (if isRuntime then .runtime else .genericTransaction), s)
      | fault =>
        if tx.isMarkedRollback then (.error .genericTransaction, s.ended [])
        else
          match fault with
          | .heuristicMixed kept => (.error .genericTransaction, s.ended (tx.work.filter kept))
          | .succeeds => (.ok (), s.ended tx.work)
          | _ => (.error .genericTransaction, s.ended [])

/-! ### The requests -/

/-- What the handler of a request answers. -/
inductive Reply
  | response (statusCode : ℕ)
  | threw
  deriving DecidableEq, Repr

/-- A request: its effects, whether one of its services marks the transaction for rollback, and
the answer. -/
structure Request (ε : Type*) where
  effects : List ε
  setsRollbackOnly : Bool
  reply : Reply

namespace Request

def handle (request : Request ε) (s : Session ε) : Session ε :=
  match s.transaction with
  | none => { s with database := s.database ++ request.effects }
  | some tx =>
    { s with
      transaction := some
        { tx with
          isMarkedRollback := tx.isMarkedRollback || request.setsRollbackOnly
          work := tx.work ++ request.effects } }

def isGood (request : Request ε) : Bool :=
  match request.reply with
  | .response statusCode => statusCode < 400
  | .threw => false

end Request

/-- How the loop over the requests ends. -/
inductive LoopEnd
  | good (statusCodes : List ℕ)
  | failed (reply : Reply)
  deriving DecidableEq, Repr

def handleRequests : List (Request ε) → Session ε → LoopEnd × Session ε
  | [], s => (.good [], s)
  | request :: requests, s =>
    match request.reply with
    | .threw => (.failed .threw, request.handle s)
    | .response statusCode =>
      if statusCode < 400 then
        match handleRequests requests (request.handle s) with
        | (.good statusCodes, s') => (.good (statusCode :: statusCodes), s')
        | (.failed reply, s') => (.failed reply, s')
      else (.failed (.response statusCode), request.handle s)

/-! ### The change set -/

/-- What `processChangeSet` comes to: the responses of all requests, the response of the one
that failed, or an exception. -/
inductive Ending
  | parts (statusCodes : List ℕ)
  | part (statusCode : ℕ)
  | threw (e : Thrown)
  deriving DecidableEq, Repr

def Ending.isSuccess : Ending → Bool
  | parts _ => true
  | _ => false

def tryRollback (n : ℕ) (s : Session ε) : Except Thrown Unit × Session ε :=
  match rollback m n s with
  | (.error .genericTransaction, s') => (.ok (), s')
  | r => r

def catchException (n : ℕ) (s : Session ε) : Ending × Session ε :=
  match tryRollback m n s with
  | (.ok (), s') => (.threw (.odataApplication 500), s')
  | (.error e, s') => (.threw e, s')

def fail (reply : Reply) (s : Session ε) : Ending × Session ε :=
  match reply with
  | .threw => catchException m 0 s
  | .response statusCode =>
    match tryRollback m 0 s with
    | (.ok (), s') => (.part statusCode, s')
    -- what the handler of the rollback lets through is thrown inside the `try` block
    | (.error _, s') => catchException m 1 s'

def finish (beganTransaction : Bool) (ending : Ending) (s : Session ε) : Ending × Session ε :=
  if beganTransaction then
    match commit m s with
    | (.ok (), s') => (ending, s')
    | (.error .genericTransaction, s') => (.threw (.odataApplication 500), s')
    | (.error e, s') => (.threw e, s')
  else (ending, s)

/-- **`processChangeSet`**. -/
def processChangeSet (requests : List (Request ε)) (s : Session ε) : Ending × Session ε :=
  match begin m s with
  | (.error _, s₀) =>
    let (ending, s₁) := catchException m 0 s₀
    finish m false ending s₁
  | (.ok beganTransaction, s₀) =>
    match handleRequests requests s₀ with
    | (.good statusCodes, s₁) => finish m beganTransaction (.parts statusCodes) s₁
    | (.failed reply, s₁) =>
      let (ending, s₂) := fail m reply s₁
      finish m beganTransaction ending s₂

/-- **The promise of a change set**: all requests are applied and the response is a success, or
none is applied and it is an error, and the caller's transaction is left open. -/
structure AllOrNothing (requests : List (Request ε)) (r : Ending × Session ε) : Prop where
  applied : r.1.isSuccess = true ∧ r.2.applied = requests.flatMap Request.effects ∨
    r.1.isSuccess = false ∧ r.2.applied = []
  callerOpen : r.2.callerEnded = false

/-! ### What the requests do -/

def dispatched : List (Request ε) → List (Request ε)
  | [] => []
  | request :: requests =>
    if request.isGood then request :: dispatched requests else [request]

def firstFailure : List (Request ε) → Option Reply
  | [] => none
  | request :: requests => if request.isGood then firstFailure requests else some request.reply

def dispatchedEffects (requests : List (Request ε)) : List ε :=
  (dispatched requests).flatMap Request.effects

/-- One of the requests that are dispatched marks the transaction for rollback. -/
def setsRollbackOnly (requests : List (Request ε)) : Bool :=
  (dispatched requests).any Request.setsRollbackOnly

def Transaction.after (tx : Transaction ε) (requests : List (Request ε)) : Transaction ε :=
  { tx with
    isMarkedRollback := tx.isMarkedRollback || setsRollbackOnly requests
    work := tx.work ++ dispatchedEffects requests }

theorem handle_some {s : Session ε} {tx : Transaction ε} (h : s.transaction = some tx)
    (request : Request ε) :
    request.handle s =
      { s with
        transaction := some
          { tx with
            isMarkedRollback := tx.isMarkedRollback || request.setsRollbackOnly
            work := tx.work ++ request.effects } } := by
  simp only [Request.handle, h]

theorem handleRequests_snd {s : Session ε} {tx : Transaction ε} (requests : List (Request ε))
    (h : s.transaction = some tx) :
    (handleRequests requests s).2 = { s with transaction := some (tx.after requests) } := by
  induction requests generalizing s tx with
  | nil =>
    obtain ⟨_, _, _⟩ := s
    simp_all [handleRequests, Transaction.after, setsRollbackOnly, dispatchedEffects, dispatched]
  | cons request requests ih =>
    have hrest := ih (congrArg Session.transaction (handle_some h request))
    rw [handle_some h] at hrest
    rcases hreply : request.reply with statusCode | _
    · by_cases hgood : statusCode < 400
      · have hd : dispatched (request :: requests) = request :: dispatched requests := by
          simp [dispatched, Request.isGood, hreply, hgood]
        have hsnd : (handleRequests (request :: requests) s).2 =
            (handleRequests requests (request.handle s)).2 := by
          simp only [handleRequests, hreply, hgood, if_true]
          split <;> simp [*]
        rw [hsnd, handle_some h, hrest]
        simp [Transaction.after, setsRollbackOnly, dispatchedEffects, hd, Bool.or_assoc]
      · simp [handleRequests, hreply, hgood, handle_some h, Transaction.after, setsRollbackOnly,
          dispatchedEffects, dispatched, Request.isGood]
    · simp [handleRequests, hreply, handle_some h, Transaction.after, setsRollbackOnly,
        dispatchedEffects, dispatched, Request.isGood]

theorem handleRequests_fst (requests : List (Request ε)) (s : Session ε) :
    match firstFailure requests with
    | none => ∃ statusCodes, (handleRequests requests s).1 = .good statusCodes
    | some reply => (handleRequests requests s).1 = .failed reply := by
  induction requests generalizing s with
  | nil => exact ⟨[], rfl⟩
  | cons request requests ih =>
    have hrest := ih (request.handle s)
    rcases hreply : request.reply with statusCode | _
    · by_cases hgood : statusCode < 400
      · simp only [firstFailure, Request.isGood, hreply, hgood, decide_true, if_true,
          handleRequests]
        revert hrest
        cases firstFailure requests with
        | none =>
          rintro ⟨statusCodes, hcodes⟩
          refine ⟨statusCode :: statusCodes, ?_⟩
          rw [← Prod.eta (handleRequests requests _), hcodes]
        | some reply =>
          intro hfailed
          rw [← Prod.eta (handleRequests requests _), hfailed]
      · simp [firstFailure, Request.isGood, hreply, hgood, handleRequests]
    · simp [firstFailure, Request.isGood, hreply, handleRequests]

theorem dispatched_of_firstFailure {requests : List (Request ε)}
    (h : firstFailure requests = none) : dispatched requests = requests := by
  induction requests with
  | nil => rfl
  | cons request requests ih =>
    by_cases hgood : request.isGood <;> simp_all [firstFailure, dispatched]

/-! ### What the calls of the transaction manager do -/

def RollbackFault.ends : RollbackFault → Bool
  | statusFails => false
  | succeeds => true
  | fails _ isEnded => isEnded

/-- An exception gets past the handler that logs a `GenericTransactionException`. -/
def RollbackFault.escapes : RollbackFault → Bool
  | fails isRuntime _ => isRuntime
  | _ => false

def endsTransaction : Reply → Bool
  | .threw => (m.rollback 0).ends
  | .response _ => (m.rollback 0).ends || (m.rollback 0).escapes && (m.rollback 1).ends

def commits : Bool :=
  !m.commitStatusFails && match m.commit with
    | .succeeds => true
    | _ => false

/-- What the commit of a transaction that is not marked makes permanent or leaves open. -/
def kept (work : List ε) : List ε :=
  if m.commitStatusFails then work
  else
    match m.commit with
    | .succeeds => work
    | .rolledBack => []
    | .heuristicMixed kept => work.filter kept
    | .unfinished _ => work

theorem tryRollback_some {s : Session ε} {tx : Transaction ε} (n : ℕ)
    (h : s.transaction = some tx) :
    tryRollback m n s =
      (if (m.rollback n).escapes then .error .runtime else .ok (),
        if (m.rollback n).ends then s.ended [] else s) := by
  unfold tryRollback rollback
  rw [h]
  rcases m.rollback n with _ | _ | ⟨_ | _, _ | _⟩ <;> rfl

theorem tryRollback_none {s : Session ε} (n : ℕ) (h : s.transaction = none) :
    tryRollback m n s = (.ok (), s) := by
  unfold tryRollback rollback
  rw [h]
  rcases m.rollback n with _ | _ | _ <;> rfl

theorem isSuccess_catchException (n : ℕ) (s : Session ε) :
    (catchException m n s).1.isSuccess = false := by
  unfold catchException
  split <;> rfl

theorem catchException_some {s : Session ε} {tx : Transaction ε} (n : ℕ)
    (h : s.transaction = some tx) :
    (catchException m n s).2 = if (m.rollback n).ends then s.ended [] else s := by
  rw [catchException, tryRollback_some m n h]
  cases (m.rollback n).escapes <;> rfl

theorem catchException_none {s : Session ε} (n : ℕ) (h : s.transaction = none) :
    (catchException m n s).2 = s := by
  rw [catchException, tryRollback_none m n h]

theorem isSuccess_fail (reply : Reply) (s : Session ε) :
    (fail m reply s).1.isSuccess = false := by
  unfold fail
  split
  · exact isSuccess_catchException m 0 s
  · split
    · rfl
    · exact isSuccess_catchException m 1 _

theorem fail_some {s : Session ε} {tx : Transaction ε} (reply : Reply)
    (h : s.transaction = some tx) :
    (fail m reply s).2 = if endsTransaction m reply then s.ended [] else s := by
  rcases reply with statusCode | _
  · simp only [fail, tryRollback_some m 0 h, endsTransaction]
    by_cases hescapes : (m.rollback 0).escapes
    · -- the second rollback finds the transaction if the first has not ended it
      by_cases hends : (m.rollback 0).ends
      · simp [hescapes, hends, catchException_none m 1 (s := s.ended []) rfl]
      · simp [hescapes, hends, catchException_some m 1 h]
    · simp [hescapes]
  · exact catchException_some m 0 h

theorem finish_some {s : Session ε} {tx : Transaction ε} (ending : Ending)
    (h : s.transaction = some tx) (hown : tx.owner = .changeSet) :
    (finish m true ending s).1.isSuccess =
        (ending.isSuccess && commits m && !tx.isMarkedRollback) ∧
      (finish m true ending s).2.applied =
        s.database ++ (if tx.isMarkedRollback then [] else kept m tx.work) ∧
      (finish m true ending s).2.callerEnded = s.callerEnded := by
  have hopen : s.applied = s.database ++ tx.pending := by simp [Session.applied, h]
  have hended (stored : List ε) : (s.ended stored).applied = s.database ++ stored := by
    simp [Session.applied, Session.ended]
  have hcaller (stored : List ε) : (s.ended stored).callerEnded = s.callerEnded := by
    simp [Session.ended, h, hown]
  unfold finish commit commits kept
  rw [if_pos rfl, h]
  cases m.commitStatusFails
  · rcases m.commit with _ | _ | kept | ⟨_ | _⟩ <;> cases hmark : tx.isMarkedRollback <;>
      simp [hmark, hopen, hended, hcaller, Transaction.pending, Ending.isSuccess]
  · simp [hopen, Transaction.pending, Ending.isSuccess]

theorem finish_none {s : Session ε} {ending : Ending} (h : s.transaction = none)
    (hend : ending.isSuccess = false) :
    (finish m true ending s).1.isSuccess = false ∧ (finish m true ending s).2 = s := by
  unfold finish commit
  rw [if_pos rfl, h]
  cases m.commitStatusFails
  · exact ⟨hend, rfl⟩
  · exact ⟨rfl, rfl⟩

/-! ### When the promise is kept -/

/-- `TransactionUtil.begin` throws. -/
def beginThrows : Status → Bool
  | .noTransaction => m.beginStatusFails || m.beginFails
  | .active => m.beginStatusFails
  | .markedRollback hasCause => m.beginStatusFails || hasCause

def Status.isMarked : Status → Bool
  | markedRollback _ => true
  | _ => false

/-- **When a change set keeps its promise.** In a transaction of its own: what it dispatches is
applied entirely or not at all. In a transaction of the caller: no failure ends that one, and it
keeps nothing after a failure, and everything without one. If none can be begun, there must be none.
-/
def KeepsPromise (status : Status) (requests : List (Request ε)) : Prop :=
  let marked := status.isMarked || setsRollbackOnly requests
  let work := dispatchedEffects requests
  if beginThrows m status then status = .noTransaction ∨ ¬ endsTransaction m .threw
  else
    match status, firstFailure requests with
    | .noTransaction, none => marked ∨ commits m ∨ kept m work = []
    | .noTransaction, some reply => endsTransaction m reply ∨ marked ∨ kept m work = []
    | _, none => ¬ marked ∨ work = []
    | _, some reply => ¬ endsTransaction m reply ∧ (marked ∨ work = [])

theorem allOrNothing_iff {requests : List (Request ε)} {r : Ending × Session ε}
    (hopen : r.2.callerEnded = false) :
    AllOrNothing requests r ↔
      r.1.isSuccess = true ∧ r.2.applied = requests.flatMap Request.effects ∨
        r.1.isSuccess = false ∧ r.2.applied = [] :=
  ⟨AllOrNothing.applied, fun h => ⟨h, hopen⟩⟩

theorem begin_of_throws {status : Status} (h : beginThrows m status = true) :
    begin (ε := ε) m status.session = (.error .genericTransaction, status.session) := by
  unfold begin
  cases hstatus : m.beginStatusFails
  · rcases status with _ | _ | hasCause <;> simp_all [beginThrows, Status.session]
  · rfl

theorem begin_noTransaction (h : beginThrows m .noTransaction = false) :
    begin (ε := ε) m Status.noTransaction.session =
      (.ok true, ⟨some ⟨.changeSet, false, false, []⟩, [], false⟩) := by
  simp_all [begin, beginThrows, Status.session]

theorem session_of_ne {status : Status} (h : status ≠ .noTransaction) :
    ∃ hasCause, status.session (ε := ε) =
      ⟨some ⟨.caller, status.isMarked, hasCause, []⟩, [], false⟩ := by
  rcases status with _ | _ | hasCause
  · exact absurd rfl h
  · exact ⟨false, rfl⟩
  · exact ⟨hasCause, rfl⟩

theorem begin_of_ne {status : Status} (hne : status ≠ .noTransaction)
    (h : beginThrows m status = false) :
    begin (ε := ε) m status.session = (.ok false, status.session) := by
  rcases status with _ | _ | hasCause <;> simp_all [begin, beginThrows, Status.session]

theorem flatMap_effects_of_firstFailure {requests : List (Request ε)}
    (h : firstFailure requests = none) :
    requests.flatMap Request.effects = dispatchedEffects requests := by
  rw [dispatchedEffects, dispatched_of_firstFailure h]

theorem allOrNothing_beginThrows {status : Status} (requests : List (Request ε))
    (h : beginThrows m status = true) :
    AllOrNothing requests (processChangeSet m requests status.session) ↔
      status = .noTransaction ∨ ¬ endsTransaction m .threw := by
  have hrun : processChangeSet m requests status.session =
      catchException m 0 status.session := by
    unfold processChangeSet
    rw [begin_of_throws m h]
    rfl
  have hfails := isSuccess_catchException m 0 (status.session (ε := ε))
  rw [hrun]
  by_cases hne : status = .noTransaction
  · subst hne
    have hsnd := catchException_none m 0 (s := Status.noTransaction.session (ε := ε)) rfl
    refine iff_of_true ⟨.inr ⟨hfails, ?_⟩, ?_⟩ (.inl rfl) <;> rw [hsnd] <;> rfl
  · obtain ⟨hasCause, hsession⟩ := session_of_ne (ε := ε) hne
    have hsnd := catchException_some m 0 (congrArg Session.transaction hsession)
    rw [hsession] at hsnd hfails ⊢
    simp only [hne, false_or, endsTransaction]
    by_cases hends : (m.rollback 0).ends
    · rw [if_pos hends] at hsnd
      refine iff_of_false (fun hall => ?_) (not_not_intro hends)
      have hopen := hall.callerOpen
      rw [hsnd] at hopen
      exact Bool.noConfusion hopen
    · rw [if_neg hends] at hsnd
      refine iff_of_true ⟨.inr ⟨hfails, ?_⟩, ?_⟩ hends <;> rw [hsnd]
      simp [Session.applied, Transaction.pending]

theorem processChangeSet_of_begin {s s₀ : Session ε} {tx : Transaction ε} {began : Bool}
    (requests : List (Request ε)) (hbegin : begin m s = (.ok began, s₀))
    (htx : s₀.transaction = some tx) :
    ∃ s₁ : Session ε, s₁ = { s₀ with transaction := some (tx.after requests) } ∧
      match firstFailure requests with
      | none => ∃ statusCodes,
        processChangeSet m requests s = finish m began (.parts statusCodes) s₁
      | some reply =>
        processChangeSet m requests s = finish m began (fail m reply s₁).1 (fail m reply s₁).2 := by
  have hsnd := handleRequests_snd requests htx
  have hfst := handleRequests_fst requests s₀
  refine ⟨_, rfl, ?_⟩
  cases hfirst : firstFailure requests with
  | none =>
    rw [hfirst] at hfst
    obtain ⟨statusCodes, hcodes⟩ := hfst
    refine ⟨statusCodes, ?_⟩
    simp only [processChangeSet, hbegin]
    rw [← Prod.eta (handleRequests requests s₀), hcodes, hsnd]
  | some reply =>
    rw [hfirst] at hfst
    simp only [processChangeSet, hbegin]
    rw [← Prod.eta (handleRequests requests s₀), hfst, hsnd]

theorem kept_of_commits (h : commits m = true) (work : List ε) : kept m work = work := by
  revert h
  unfold commits kept
  cases m.commitStatusFails <;> cases m.commit <;> simp

section own

variable {m} {requests : List (Request ε)} {s : Session ε} {tx : Transaction ε}

theorem allOrNothing_own_good (htx : s.transaction = some tx) (hown : tx.owner = .changeSet)
    (hdb : s.database = []) (hcaller : s.callerEnded = false)
    (hwork : requests.flatMap Request.effects = tx.work) (statusCodes : List ℕ) :
    AllOrNothing requests (finish m true (.parts statusCodes) s) ↔
      tx.isMarkedRollback ∨ commits m ∨ kept m tx.work = [] := by
  obtain ⟨hsuccess, happlied, hopen⟩ := finish_some m (.parts statusCodes) htx hown
  rw [allOrNothing_iff (hopen.trans hcaller), hsuccess, happlied, hdb, hwork]
  by_cases hmarked : tx.isMarkedRollback
  · simp [hmarked]
  · by_cases hcommits : commits m
    · simp [hmarked, hcommits, kept_of_commits m hcommits, Ending.isSuccess]
    · simp [hmarked, hcommits]

theorem allOrNothing_own_failed (htx : s.transaction = some tx) (hown : tx.owner = .changeSet)
    (hdb : s.database = []) (hcaller : s.callerEnded = false) (reply : Reply) :
    AllOrNothing requests (finish m true (fail m reply s).1 (fail m reply s).2) ↔
      endsTransaction m reply ∨ tx.isMarkedRollback ∨ kept m tx.work = [] := by
  have hfails := isSuccess_fail m reply s
  have hsnd := fail_some m reply htx
  by_cases hends : endsTransaction m reply
  · rw [if_pos hends] at hsnd
    obtain ⟨hsuccess, hsame⟩ := finish_none m (s := s.ended []) rfl hfails
    rw [hsnd]
    refine iff_of_true ⟨.inr ⟨hsuccess, ?_⟩, ?_⟩ (.inl hends) <;> rw [hsame]
    · simp [Session.applied, Session.ended, hdb]
    · simp [Session.ended, htx, hown, hcaller]
  · rw [if_neg hends] at hsnd
    obtain ⟨hsuccess, happlied, hopen⟩ := finish_some m (fail m reply s).1 htx hown
    rw [hfails] at hsuccess
    rw [hsnd, allOrNothing_iff (hopen.trans hcaller), hsuccess, happlied, hdb]
    by_cases hmarked : tx.isMarkedRollback <;> simp [hmarked, hends]

end own

section caller

variable {m} {requests : List (Request ε)} {s : Session ε} {tx : Transaction ε}

theorem allOrNothing_caller_good (htx : s.transaction = some tx) (hdb : s.database = [])
    (hcaller : s.callerEnded = false)
    (hwork : requests.flatMap Request.effects = tx.work) (statusCodes : List ℕ) :
    AllOrNothing requests (finish m false (.parts statusCodes) s) ↔
      ¬ tx.isMarkedRollback ∨ tx.work = [] := by
  have hrun : finish m false (.parts statusCodes) s = (.parts statusCodes, s) := rfl
  rw [hrun, allOrNothing_iff hcaller]
  by_cases hmarked : tx.isMarkedRollback
  · simp [Session.applied, Transaction.pending, htx, hdb, hwork, hmarked, Ending.isSuccess,
      eq_comm]
  · simp [Session.applied, Transaction.pending, htx, hdb, hwork, hmarked, Ending.isSuccess]

theorem allOrNothing_caller_failed (htx : s.transaction = some tx) (hown : tx.owner = .caller)
    (hdb : s.database = []) (hcaller : s.callerEnded = false) (reply : Reply) :
    AllOrNothing requests (finish m false (fail m reply s).1 (fail m reply s).2) ↔
      ¬ endsTransaction m reply ∧ (tx.isMarkedRollback ∨ tx.work = []) := by
  have hrun : finish m false (fail m reply s).1 (fail m reply s).2 = fail m reply s := rfl
  have hfails := isSuccess_fail m reply s
  have hsnd := fail_some m reply htx
  rw [hrun]
  by_cases hends : endsTransaction m reply
  · rw [if_pos hends] at hsnd
    have hended : (fail m reply s).2.callerEnded = true := by
      simp [hsnd, Session.ended, htx, hown]
    refine iff_of_false (fun h => ?_) (fun h => h.1 hends)
    exact Bool.noConfusion (hended.symm.trans h.callerOpen)
  · rw [if_neg hends] at hsnd
    rw [allOrNothing_iff (by rw [hsnd, hcaller]), hfails, hsnd]
    by_cases hmarked : tx.isMarkedRollback <;>
      simp [Session.applied, Transaction.pending, htx, hdb, hmarked, hends]

end caller

/-- **When a change set is all-or-nothing.** -/
theorem processChangeSet_allOrNothing_iff (status : Status) (requests : List (Request ε)) :
    AllOrNothing requests (processChangeSet m requests status.session) ↔
      KeepsPromise m status requests := by
  unfold KeepsPromise
  by_cases hthrows : beginThrows m status
  · rw [if_pos hthrows]
    exact allOrNothing_beginThrows m requests hthrows
  rw [if_neg hthrows]
  rw [Bool.not_eq_true] at hthrows
  by_cases hne : status = .noTransaction
  · subst hne
    obtain ⟨s₁, rfl, hrun⟩ :=
      processChangeSet_of_begin m requests (begin_noTransaction m hthrows) rfl
    cases hfirst : firstFailure requests with
    | none =>
      rw [hfirst] at hrun
      obtain ⟨statusCodes, hrun⟩ := hrun
      rw [hrun, allOrNothing_own_good rfl rfl rfl rfl (flatMap_effects_of_firstFailure hfirst)]
      simp [Transaction.after, Status.isMarked]
    | some reply =>
      rw [hfirst] at hrun
      rw [hrun, allOrNothing_own_failed rfl rfl rfl rfl]
      simp [Transaction.after, Status.isMarked]
  · obtain ⟨hasCause, hsession⟩ := session_of_ne (ε := ε) hne
    obtain ⟨s₁, hs₁, hrun⟩ :=
      processChangeSet_of_begin m requests (begin_of_ne m hne hthrows)
        (congrArg Session.transaction hsession)
    rw [hsession] at hs₁
    subst hs₁
    cases hfirst : firstFailure requests with
    | none =>
      rw [hfirst] at hrun
      obtain ⟨statusCodes, hrun⟩ := hrun
      rw [hrun, allOrNothing_caller_good rfl rfl rfl (flatMap_effects_of_firstFailure hfirst)]
      cases status <;> simp_all [Transaction.after]
    | some reply =>
      rw [hfirst] at hrun
      rw [hrun, allOrNothing_caller_failed rfl rfl rfl rfl]
      cases status <;> simp_all [Transaction.after]

/-- A request is answered with 400 in the caller's transaction, which is rolled back; and outside
of a transaction, where the rollback fails, the first request is committed. -/
theorem not_allOrNothing_failed :
    ¬ AllOrNothing [⟨[1], false, .response 201⟩, ⟨[], false, .response 400⟩]
        (processChangeSet (ε := ℕ) ⟨false, false, fun _ => .succeeds, false, .succeeds⟩
          [⟨[1], false, .response 201⟩, ⟨[], false, .response 400⟩] Status.active.session) ∧
      ¬ AllOrNothing [⟨[1], false, .response 201⟩, ⟨[], false, .response 400⟩]
        (processChangeSet (ε := ℕ) ⟨false, false, fun _ => .fails false false, false, .succeeds⟩
          [⟨[1], false, .response 201⟩, ⟨[], false, .response 400⟩]
          Status.noTransaction.session) :=
  ⟨fun h => absurd h.callerOpen (by decide), fun h => absurd h.applied (by decide)⟩

end OfficeAuto.Odata.ChangeSet
