import Mathlib.Algebra.Order.Ring.Int
import Mathlib.Data.List.Basic

/-!
# Retries and recurrences of a persisted job

A run of a `PersistedServiceJob` inserts at most one further row: `init` inserts the next
recurrence of a recurring job, and where it has not done so, a failure of the service inserts a
retry (`exec_length_le`). Both rows are copies of the row that is run, with the counts that it
has reached.

So the rows that come of a job are a chain. Every run counts up the recurrences, and every retry
counts up the retries, until the row stands at its limit (`retries_and_recurrences_le`).
-/

namespace OfficeAuto.Service.JobRetry

/-! ### The row -/

/-- The fields of a `JobSandbox` value that a recurrence and a retry depend on. Times are
milliseconds from 1970 on, and an absent text is empty. -/
structure JobValue where
  runTime : ℕ
  recurrenceInfoId : List Char
  tempExprId : List Char
  maxRetry : Option ℤ
  currentRetryCount : Option ℕ
  maxRecurrenceCount : Option ℤ
  currentRecurrenceCount : Option ℕ

/-- A `RecurrenceInfo`, with the count that it has and the date that its expression gives as the
next one. -/
structure Recurrence where
  currentCount : ℕ
  next : Option ℕ

/-- What a run of a job meets. -/
structure Environment where
  /-- `init` comes to the recurrences: the row is there, not cancelled, and stored as running. -/
  starts : Bool
  /-- The failed rows that `getRetries` counts for a row without a count. -/
  retries : ℕ
  /-- `getRecurrenceInfo` -/
  recurrenceInfo : List Char → Option Recurrence
  /-- The date that the expression of an identifier gives as the next one. -/
  temporalExpression : List Char → Option ℕ
  /-- `createSetNextSeqId` throws. -/
  insertThrows : Bool
  /-- The service ends without an error. -/
  succeeds : Bool
  /-- The time of the failure, with the minutes before a retry. -/
  retryTime : ℕ

/-! ### The job -/

/-- `PersistedServiceJob` -/
structure PersistedServiceJob where
  jobValue : JobValue
  startTime : ℤ
  maxRetry : ℤ
  currentRetryCount : ℕ
  nextRecurrence : ℤ

/-- A row that a run inserts. -/
structure NewJob where
  isRetryOnFailure : Bool
  jobValue : JobValue

namespace PersistedServiceJob

variable (env : Environment)

def ofValue (jobValue : JobValue) : PersistedServiceJob where
  jobValue := jobValue
  startTime := jobValue.runTime
  maxRetry := jobValue.maxRetry.getD (-1)
  currentRetryCount := jobValue.currentRetryCount.getD env.retries
  nextRecurrence := -1

def newJob (job : PersistedServiceJob) (next : ℕ) (isRetryOnFailure : Bool) : NewJob :=
  ⟨isRetryOnFailure, { job.jobValue with
    runTime := next
    currentRetryCount := some (if isRetryOnFailure then job.currentRetryCount + 1 else 0) }⟩

def createRecurrence (job : PersistedServiceJob) (next : ℕ) (isRetryOnFailure : Bool) :
    PersistedServiceJob × List NewJob :=
  if job.startTime < next then
    ({ job with nextRecurrence := next },
      if env.insertThrows then [] else [job.newJob next isRetryOnFailure])
  else (job, [])

def getRecurrenceInfo (job : PersistedServiceJob) : Option Recurrence :=
  if job.jobValue.recurrenceInfoId = [] then none
  else env.recurrenceInfo job.jobValue.recurrenceInfoId

/-- The date that `expr.next` gives; `none` where there is no expression or no next date. -/
def nextDate (job : PersistedServiceJob) : Option ℕ :=
  match job.getRecurrenceInfo env with
  | some recurrence => recurrence.next
  | none =>
    if job.jobValue.tempExprId = [] then none
    else env.temporalExpression job.jobValue.tempExprId

/-- `init`, from the counts of the recurrences on: the job, and the row that is inserted. -/
def init (job : PersistedServiceJob) : PersistedServiceJob × List NewJob :=
  let maxRecurrenceCount := job.jobValue.maxRecurrenceCount.getD (-1)
  let currentRecurrenceCount := job.jobValue.currentRecurrenceCount.getD
    (((job.getRecurrenceInfo env).map Recurrence.currentCount).getD 0)
  let currentRecurrenceCount :=
    if maxRecurrenceCount ≠ -1 then currentRecurrenceCount + 1 else currentRecurrenceCount
  let job :=
    if maxRecurrenceCount ≠ -1 then
      { job with jobValue :=
          { job.jobValue with currentRecurrenceCount := some currentRecurrenceCount } }
    else job
  if maxRecurrenceCount = -1 ∨ (currentRecurrenceCount : ℤ) ≤ maxRecurrenceCount then
    match job.nextDate env with
    | some next => job.createRecurrence env next false
    | none => (job, [])
  else (job, [])

def canRetry (job : PersistedServiceJob) : Bool :=
  job.maxRetry = -1 || (job.currentRetryCount : ℤ) < job.maxRetry

def failed (job : PersistedServiceJob) : List NewJob :=
  if job.nextRecurrence = -1 && job.canRetry then
    (job.createRecurrence env env.retryTime true).2
  else []

end PersistedServiceJob

/-- The rows that a run inserts. Where `init` cannot insert its row, it throws, and the service
is not called. -/
def exec (env : Environment) (jobValue : JobValue) : List NewJob :=
  if env.starts then
    let (job, created) := (PersistedServiceJob.ofValue env jobValue).init env
    if job.nextRecurrence ≠ -1 && env.insertThrows then []
    else if env.succeeds then created
    else created ++ job.failed env
  else []

/-! ### The chain -/

/-- The rows that are started: the job itself, and what comes of it while the runs meet the
environments in turn. -/
def started : List Environment → JobValue → List JobValue
  | [], _ => []
  | env :: envs, jobValue =>
    jobValue :: (exec env jobValue).flatMap fun newJob => started envs newJob.jobValue

def inserted : List Environment → JobValue → List NewJob
  | [], _ => []
  | env :: envs, jobValue =>
    exec env jobValue ++ (exec env jobValue).flatMap fun newJob => inserted envs newJob.jobValue

/-! ### One run -/

def countedUp (env : Environment) (jobValue : JobValue) : ℕ :=
  jobValue.currentRecurrenceCount.getD
    ((((PersistedServiceJob.ofValue env jobValue).getRecurrenceInfo env).map
      Recurrence.currentCount).getD 0) + 1

def ranValue (env : Environment) (jobValue : JobValue) : JobValue :=
  if jobValue.maxRecurrenceCount.getD (-1) = -1 then jobValue
  else { jobValue with currentRecurrenceCount := some (countedUp env jobValue) }

variable {env : Environment} {jobValue : JobValue}

def ran (env : Environment) (jobValue : JobValue) : PersistedServiceJob :=
  { PersistedServiceJob.ofValue env jobValue with jobValue := ranValue env jobValue }

/-- What a run may insert: a recurrence of a recurring job within its limit, or a retry within
its limit. -/
inductive Inserts (env : Environment) (jobValue : JobValue) : NewJob → Prop
  | recurrence (next : ℕ)
      (hrecurring : jobValue.recurrenceInfoId ≠ [] ∨ jobValue.tempExprId ≠ [])
      (hcount : jobValue.maxRecurrenceCount.getD (-1) = -1 ∨
        (countedUp env jobValue : ℤ) ≤ jobValue.maxRecurrenceCount.getD (-1)) :
      Inserts env jobValue ((ran env jobValue).newJob next false)
  | retry (next : ℕ)
      (hcount : jobValue.maxRetry.getD (-1) = -1 ∨
        (jobValue.currentRetryCount.getD env.retries : ℤ) < jobValue.maxRetry.getD (-1)) :
      Inserts env jobValue ((ran env jobValue).newJob next true)

theorem recurring_of_nextDate {next : ℕ} (h : (ran env jobValue).nextDate env = some next) :
    jobValue.recurrenceInfoId ≠ [] ∨ jobValue.tempExprId ≠ [] := by
  have hids : (ran env jobValue).jobValue.recurrenceInfoId = jobValue.recurrenceInfoId ∧
      (ran env jobValue).jobValue.tempExprId = jobValue.tempExprId := by
    dsimp only [ran, ranValue]
    split_ifs <;> exact ⟨rfl, rfl⟩
  by_contra hnone
  rw [not_or, not_not, not_not, ← hids.1, ← hids.2] at hnone
  rw [PersistedServiceJob.nextDate, PersistedServiceJob.getRecurrenceInfo, if_pos hnone.1] at h
  dsimp only at h
  rw [if_pos hnone.2] at h
  cases h

theorem init_eq : (PersistedServiceJob.ofValue env jobValue).init env =
    if jobValue.maxRecurrenceCount.getD (-1) = -1 ∨
        (countedUp env jobValue : ℤ) ≤ jobValue.maxRecurrenceCount.getD (-1) then
      match (ran env jobValue).nextDate env with
      | some next => (ran env jobValue).createRecurrence env next false
      | none => (ran env jobValue, [])
    else (ran env jobValue, []) := by
  have hvalue : (PersistedServiceJob.ofValue env jobValue).jobValue = jobValue := rfl
  rw [PersistedServiceJob.init, hvalue]
  by_cases hmax : jobValue.maxRecurrenceCount.getD (-1) = -1
  · have hran : ran env jobValue = PersistedServiceJob.ofValue env jobValue := by
      rw [ran, ranValue, if_pos hmax]
      rfl
    simp only [hmax, ne_eq, not_true_eq_false, if_false, true_or, if_true, hran]
  · have hran : ran env jobValue = { PersistedServiceJob.ofValue env jobValue with
        jobValue := { jobValue with
          currentRecurrenceCount := some (countedUp env jobValue) } } := by
      rw [ran, ranValue, if_neg hmax]
    simp only [hmax, ne_eq, not_false_eq_true, if_true, false_or, hran]
    rfl

theorem init_cases : (PersistedServiceJob.ofValue env jobValue).init env = (ran env jobValue, []) ∨
    ∃ next : ℕ, Inserts env jobValue ((ran env jobValue).newJob next false) ∧
      (PersistedServiceJob.ofValue env jobValue).init env =
        ({ ran env jobValue with nextRecurrence := next },
          if env.insertThrows then [] else [(ran env jobValue).newJob next false]) := by
  rw [init_eq]
  by_cases hcount : jobValue.maxRecurrenceCount.getD (-1) = -1 ∨
      (countedUp env jobValue : ℤ) ≤ jobValue.maxRecurrenceCount.getD (-1)
  · rw [if_pos hcount]
    cases hnext : (ran env jobValue).nextDate env with
    | none => exact Or.inl rfl
    | some next =>
      dsimp only [PersistedServiceJob.createRecurrence]
      by_cases hlt : (ran env jobValue).startTime < next
      · exact Or.inr ⟨next, .recurrence next (recurring_of_nextDate hnext) hcount, if_pos hlt⟩
      · exact Or.inl (if_neg hlt)
  · exact Or.inl (if_neg hcount)

theorem failed_cases : (ran env jobValue).failed env = [] ∨
    ∃ newJob, (ran env jobValue).failed env = [newJob] ∧ Inserts env jobValue newJob := by
  rw [PersistedServiceJob.failed]
  by_cases hretry : (decide ((ran env jobValue).nextRecurrence = -1) &&
      (ran env jobValue).canRetry) = true
  · have hcount : jobValue.maxRetry.getD (-1) = -1 ∨
        (jobValue.currentRetryCount.getD env.retries : ℤ) < jobValue.maxRetry.getD (-1) := by
      have hcan := (Bool.and_eq_true_iff.mp hretry).2
      rw [PersistedServiceJob.canRetry, Bool.or_eq_true_iff] at hcan
      exact hcan.imp of_decide_eq_true of_decide_eq_true
    rw [if_pos hretry, PersistedServiceJob.createRecurrence]
    split_ifs
    · exact Or.inl rfl
    · exact Or.inr ⟨_, rfl, .retry env.retryTime hcount⟩
    · exact Or.inl rfl
  · exact Or.inl (if_neg hretry)

/-- **A run inserts at most one row**, a recurrence or a retry. -/
theorem exec_cases (env : Environment) (jobValue : JobValue) :
    exec env jobValue = [] ∨
      ∃ newJob, exec env jobValue = [newJob] ∧ Inserts env jobValue newJob := by
  rw [exec]
  by_cases hstarts : env.starts = true
  · rw [if_pos hstarts]
    obtain h | ⟨next, hinserts, h⟩ := @init_cases env jobValue
    · rw [h]
      have hnone : (ran env jobValue).nextRecurrence = -1 := rfl
      dsimp only
      rw [hnone, if_neg (by simp)]
      by_cases hsucceeds : env.succeeds = true
      · exact Or.inl (if_pos hsucceeds)
      · rw [if_neg hsucceeds]
        exact failed_cases
    · -- A job with a recurrence is not retried.
      have hfailed : PersistedServiceJob.failed env
          { ran env jobValue with nextRecurrence := next } = [] :=
        if_neg fun hretry => by
          have := of_decide_eq_true (Bool.and_eq_true_iff.mp hretry).1
          dsimp only at this
          omega
      rw [h]
      dsimp only
      rw [hfailed, List.append_nil, ite_self]
      split_ifs
      · exact Or.inl rfl
      · exact Or.inl rfl
      · exact Or.inr ⟨_, rfl, hinserts⟩
  · exact Or.inl (if_neg hstarts)

/-! ### The limits -/

def Once (jobValue : JobValue) : Prop :=
  jobValue.recurrenceInfoId = [] ∧ jobValue.tempExprId = []

theorem Inserts.keeps {newJob : NewJob} (h : Inserts env jobValue newJob) :
    (Once newJob.jobValue ↔ Once jobValue) ∧ newJob.jobValue.maxRetry = jobValue.maxRetry ∧
      newJob.jobValue.maxRecurrenceCount = jobValue.maxRecurrenceCount := by
  have hran : (ran env jobValue).jobValue = ranValue env jobValue := rfl
  cases h
  all_goals
    dsimp only [PersistedServiceJob.newJob]
    rw [hran, ranValue]
    split_ifs <;> exact ⟨Iff.rfl, rfl, rfl⟩

theorem Inserts.retries {newJob : NewJob} {r : ℕ} (h : Inserts env jobValue newJob)
    (honce : Once jobValue) (hmax : jobValue.maxRetry = some (r : ℤ)) :
    ∃ count, newJob.jobValue.currentRetryCount = some (count + 1) ∧
      jobValue.currentRetryCount.getD 0 ≤ count ∧ count < r := by
  cases h with
  | recurrence next hrecurring hcount =>
    exact absurd hrecurring (not_or.mpr ⟨not_not.mpr honce.1, not_not.mpr honce.2⟩)
  | retry next hcount =>
    rw [hmax, Option.getD_some] at hcount
    refine ⟨jobValue.currentRetryCount.getD env.retries, rfl, ?_, by omega⟩
    cases jobValue.currentRetryCount with
    | none => exact Nat.zero_le _
    | some count => exact le_rfl

theorem Inserts.recurrences {newJob : NewJob} {m : ℕ} (h : Inserts env jobValue newJob)
    (hmax : jobValue.maxRecurrenceCount = some (m : ℤ)) :
    ∃ count, newJob.jobValue.currentRecurrenceCount = some count ∧
      jobValue.currentRecurrenceCount.getD 0 < count ∧
      (newJob.isRetryOnFailure = false → count ≤ m) := by
  have hne : ¬ jobValue.maxRecurrenceCount.getD (-1) = -1 := by
    rw [hmax, Option.getD_some]
    omega
  have hlt : jobValue.currentRecurrenceCount.getD 0 < countedUp env jobValue := by
    rw [countedUp]
    cases jobValue.currentRecurrenceCount with
    | none => exact Nat.succ_pos _
    | some count => exact Nat.lt_succ_self _
  have hcount : (ran env jobValue).jobValue.currentRecurrenceCount =
      some (countedUp env jobValue) := by
    have hran : (ran env jobValue).jobValue = ranValue env jobValue := rfl
    rw [hran, ranValue, if_neg hne]
  cases h with
  | recurrence next hrecurring hle =>
    refine ⟨_, hcount, hlt, fun _ => ?_⟩
    have := hle.resolve_left hne
    rw [hmax, Option.getD_some] at this
    omega
  | retry next hle => exact ⟨_, hcount, hlt, fun h => Bool.noConfusion h⟩

theorem started_length_le {r : ℕ} (envs : List Environment) (honce : Once jobValue)
    (hmax : jobValue.maxRetry = some (r : ℤ)) :
    (started envs jobValue).length ≤ r - jobValue.currentRetryCount.getD 0 + 1 := by
  -- The induction is on the runs; a retry has one retry less left.
  induction envs generalizing jobValue with
  | nil => exact Nat.zero_le _
  | cons env envs ih =>
    rw [started, List.length_cons]
    obtain h | ⟨newJob, h, hinserts⟩ := exec_cases env jobValue
    · rw [h, List.flatMap_nil, List.length_nil]
      omega
    · obtain ⟨hkeeps, hmax', -⟩ := hinserts.keeps
      obtain ⟨count, hcount, hle, hlt⟩ := hinserts.retries honce hmax
      have hrest := ih (hkeeps.mpr honce) (hmax'.trans hmax)
      rw [hcount, Option.getD_some] at hrest
      rw [h, List.flatMap_singleton]
      omega

theorem recurrences_length_le {m : ℕ} (envs : List Environment)
    (hmax : jobValue.maxRecurrenceCount = some (m : ℤ)) :
    ((inserted envs jobValue).filter fun newJob => !newJob.isRetryOnFailure).length ≤
      m - jobValue.currentRecurrenceCount.getD 0 := by
  -- The induction is on the runs; every run leaves one recurrence less.
  induction envs generalizing jobValue with
  | nil => exact Nat.zero_le _
  | cons env envs ih =>
    rw [inserted]
    obtain h | ⟨newJob, h, hinserts⟩ := exec_cases env jobValue
    · rw [h]
      exact Nat.zero_le _
    · obtain ⟨-, -, hmax'⟩ := hinserts.keeps
      obtain ⟨count, hcount, hlt, hle⟩ := hinserts.recurrences hmax
      have hrest := ih (hmax'.trans hmax)
      rw [hcount, Option.getD_some] at hrest
      rw [h, List.flatMap_singleton, List.filter_append, List.length_append]
      cases hretry : newJob.isRetryOnFailure with
      | true =>
        rw [List.filter_cons_of_neg (by rw [hretry]; decide), List.filter_nil, List.length_nil]
        omega
      | false =>
        have := hle hretry
        rw [List.filter_cons_of_pos (by rw [hretry]; decide), List.filter_nil,
          List.length_singleton]
        omega

/-- **A job that does not recur is started at most `maxRetry + 1` times, and a recurring job
inserts at most `maxRecurrenceCount` recurrences**, whatever its runs meet. -/
theorem retries_and_recurrences_le (envs : List Environment) (jobValue : JobValue) :
    (∀ r : ℕ, Once jobValue → jobValue.maxRetry = some (r : ℤ) →
      (started envs jobValue).length ≤ r + 1) ∧
    ∀ m : ℕ, jobValue.maxRecurrenceCount = some (m : ℤ) →
      ((inserted envs jobValue).filter fun newJob => !newJob.isRetryOnFailure).length ≤ m :=
  ⟨fun _ honce hmax => (started_length_le envs honce hmax).trans (by omega),
    fun _ hmax => (recurrences_length_le envs hmax).trans (Nat.sub_le _ _)⟩

def mailJob : JobValue := ⟨0, [], [], some 1, some 0, none, none⟩

def reportJob : JobValue := ⟨0, [], "MIDNIGHT_DAILY".toList, some 1, some 0, some 2, none⟩

def failure (retryTime : ℕ) : Environment where
  starts := true
  retries := 0
  recurrenceInfo _ := none
  temporalExpression _ := some (retryTime + 1000)
  insertThrows := false
  succeeds := false
  retryTime := retryTime

theorem retries_and_recurrences_le_jobs :
    (started [failure 1, failure 2, failure 3] mailJob).length ≤ 2 ∧
      ((inserted [failure 1, failure 1001, failure 2001, failure 3001] reportJob).filter
        fun newJob => !newJob.isRetryOnFailure).length ≤ 2 :=
  ⟨(retries_and_recurrences_le _ mailJob).1 1 ⟨rfl, rfl⟩ rfl,
    (retries_and_recurrences_le _ reportJob).2 2 rfl⟩

/-- Both limits are reached. -/
example : (started [failure 1, failure 2, failure 3] mailJob).length = 2 ∧
    ((inserted [failure 1, failure 1001, failure 2001, failure 3001] reportJob).filter
      fun newJob => !newJob.isRetryOnFailure).length = 2 := by decide

end OfficeAuto.Service.JobRetry
