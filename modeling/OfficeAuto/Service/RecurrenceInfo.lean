import Mathlib.Order.Bounds.Basic
import OfficeAuto.Service.RecurrenceRule

/-!
# Recurrence information

`RecurrenceInfo.next(fromTime)`: the next of the runs of the recurrence rules and of the
recurrence dates, without those that the exception rules and the exception dates take away.
`occurrences` is what the four lists say together, and `LeastOrZero` what the result should
be: the least occurrence after `fromTime`, and `0` where there is none.

Of the rules only the first has a say, since `hasNext` stays false for the others. Its first run is
the first that is not before `fromTime`, so it may be `fromTime` itself; where this run does not
match its lists, no later one is looked for.  `next_iff_holdsWhen` says when the result is right
nevertheless.
-/

namespace OfficeAuto.Service

open Decimal

/-- A value of the entity `RecurrenceInfo` with its rules, its dates sorted by `init`. -/
structure RecurrenceInfo where
  startDateTime : Timestamp
  recurrenceCount : Option ℤ
  rRulesList : List RecurrenceRule
  eRulesList : List RecurrenceRule
  rDateList : List ℤ
  eDateList : List ℤ
  /-- `init` rejects any other start. -/
  start_pos : 0 < startDateTime.getTime
  rDateList_sorted : rDateList.Pairwise (· ≤ ·)
  eDateList_sorted : eDateList.Pairwise (· ≤ ·)

/-- `checkDateList`: the loop over the dates, which lowers the time to a date after
`fromTime`. -/
def checkDateList (dateList : List ℤ) (time fromTime : ℤ) : ℤ :=
  dateList.foldl (fun nextTime thisDate =>
    if 0 < nextTime ∧ thisDate < nextTime ∧ fromTime < thisDate then thisDate
    else if nextTime = 0 ∧ fromTime < thisDate then thisDate
    else nextTime) time

namespace RecurrenceInfo

variable (cal : Calendar) (now : ℤ) (info : RecurrenceInfo)

def getStartTime : ℤ := stampTime info.startDateTime

def getCurrentCount : ℤ := info.recurrenceCount.getD 0

def first : ℤ := info.getStartTime

def getNextTime (fuel : ℕ) (rule : RecurrenceRule) (fromTime : ℤ) : Outcome ℤ :=
  (rule.next cal now fuel info.getStartTime fromTime info.getCurrentCount).bind fun nextTime =>
    .done (checkDateList info.rDateList nextTime fromTime)

def isValidFor (fuel : ℕ) (time : ℤ) : List RecurrenceRule → Outcome Bool
  | [] => .done true
  | except :: rest =>
    (except.isValid cal now fuel info.getStartTime time).bind fun excepted =>
      if excepted || info.eDateList.contains time then .done false
      else isValidFor fuel time rest

def isValid (fuel : ℕ) (time : ℤ) : Outcome Bool :=
  info.isValidFor cal now fuel time info.eRulesList

/-- One pass of the loop of `next` for one rule: it leaves with `0` and with a valid time. -/
def nextPass (fuel : ℕ) (rule : RecurrenceRule) (nextRuleTime : ℤ) : Outcome (ℤ ⊕ ℤ) :=
  (info.getNextTime cal now fuel rule nextRuleTime).bind fun nextRuleTime =>
    if nextRuleTime = 0 then .done (.inr 0)
    else (info.isValid cal now fuel nextRuleTime).bind fun valid =>
      .done (if valid then .inr nextRuleTime else .inl nextRuleTime)

def nextOfRule (fuel : ℕ) (rule : RecurrenceRule) (fromTime : ℤ) : Outcome ℤ :=
  Outcome.loop (info.nextPass cal now fuel rule) fuel fromTime

def nextOfRules (fuel : ℕ) : List RecurrenceRule → Bool → ℤ → Outcome ℤ
  | [], _, nextRuleTime => .done nextRuleTime
  | rule :: rest, true, nextRuleTime =>
    (info.nextOfRule cal now fuel rule nextRuleTime).bind fun nextRuleTime =>
      nextOfRules fuel rest false nextRuleTime
  | _ :: rest, false, nextRuleTime => nextOfRules fuel rest false nextRuleTime

def next (fuel : ℕ) (fromTime : ℤ) : Outcome ℤ :=
  if info.getCurrentCount = 0 ∨ fromTime = 0 ∨ fromTime = info.getStartTime then
    .done info.first
  else info.nextOfRules cal now fuel info.rRulesList true fromTime

end RecurrenceInfo

/-! ### What the lists say -/

def LeastOrZero (s : Set ℤ) (t : ℤ) : Prop := IsLeast s t ∨ s = ∅ ∧ t = 0

def RecurrenceRule.Produces (cal : Calendar) (now : ℤ) (r : RecurrenceRule)
    (startTime currentCount t : ℤ) : Prop :=
  r.Active now currentCount ∧ r.validByRule cal t = some true ∧ startTime ≤ t ∧
    ∃ k, r.run cal startTime k = t

namespace RecurrenceInfo

variable (cal : Calendar) (now : ℤ) (info : RecurrenceInfo)

def Produced (t : ℤ) : Prop :=
  (∃ r ∈ info.rRulesList, r.Produces cal now info.getStartTime info.getCurrentCount t) ∨
    t ∈ info.rDateList

/-- Excluded by some exception rule, within which the start always falls and the count of
which is not kept, or by an exception date. -/
def Excluded (t : ℤ) : Prop :=
  (∃ e ∈ info.eRulesList, t = info.getStartTime ∨ e.Produces cal now info.getStartTime 1 t) ∨
    t ∈ info.eDateList

def occurrences (fromTime : ℤ) : Set ℤ :=
  {t | fromTime < t ∧ info.Produced cal now t ∧ ¬ info.Excluded cal now t}

/-- `next` returns the least occurrence after `fromTime`, and `0` where there is none. -/
def NextIsLeast (fromTime : ℤ) : Prop :=
  ∃ fuel t, info.next cal now fuel fromTime = .done t ∧
    LeastOrZero (info.occurrences cal now fromTime) t

/-! ### When the result is right -/

def datesAfter (fromTime : ℤ) : Set ℤ := {d | d ∈ info.rDateList ∧ fromTime < d}

/-- The start is the least occurrence: it is produced, there is no exception rule, and neither
it nor an earlier date after `fromTime` stays. -/
def StartIsNext (fromTime : ℤ) : Prop :=
  fromTime < info.getStartTime ∧ info.Produced cal now info.getStartTime ∧
    info.eRulesList = [] ∧ info.getStartTime ∉ info.eDateList ∧
    ∀ d ∈ info.datesAfter fromTime, d < info.getStartTime → d ∈ info.eDateList

def ValidRun (rule : RecurrenceRule) (fromTime t : ℤ) : Prop :=
  rule.ValidRun cal now info.getStartTime fromTime info.getCurrentCount t

/-- The times that the dates and the first rule offer: every date after `fromTime` but the
time `0`, and the run unless `0` is the first of these dates. -/
def offered (rule : RecurrenceRule) (fromTime : ℤ) : Set ℤ :=
  {t | t ∈ info.datesAfter fromTime ∧ t ≠ 0 ∨
    info.ValidRun cal now rule fromTime t ∧ ¬ IsLeast (info.datesAfter fromTime) 0}

/-- Without exception rules: the run is not at `fromTime` itself, and the first of the offered
times is no exception date and has no occurrence before it; or nothing is offered, and there is
no occurrence but for the time `0`. -/
def OffersLeast (rule : RecurrenceRule) (fromTime : ℤ) : Prop :=
  ¬ info.ValidRun cal now rule fromTime fromTime ∧
    ((∃ t, IsLeast (info.offered cal now rule fromTime) t ∧ t ∉ info.eDateList ∧
        t ∈ lowerBounds (info.occurrences cal now fromTime)) ∨
      info.offered cal now rule fromTime = ∅ ∧
        (info.occurrences cal now fromTime = ∅ ∨ 0 ∈ info.occurrences cal now fromTime))

def earlyDates (fromTime : ℤ) : Set ℤ :=
  {d | d ∈ info.datesAfter fromTime ∧ d < info.getStartTime ∧ d ≠ 0 ∧ d ∉ info.eDateList}

/-- With exception rules: a date before the start stays and has no occurrence before it; or
nothing is there to be asked about, neither a date after the start nor a run (which a last date
of `0` hides), and there is no occurrence but for the time `0`. -/
def EndsBeforeStart (rule : RecurrenceRule) (fromTime : ℤ) : Prop :=
  (∃ t, IsLeast (info.earlyDates fromTime) t ∧
      t ∈ lowerBounds (info.occurrences cal now fromTime)) ∨
    info.earlyDates fromTime = ∅ ∧
      (∀ d ∈ info.datesAfter fromTime, d ≤ info.getStartTime) ∧
      (∀ t, info.ValidRun cal now rule fromTime t →
        IsGreatest (info.datesAfter fromTime) 0) ∧
      (info.occurrences cal now fromTime = ∅ ∨ 0 ∈ info.occurrences cal now fromTime)

def CanAnswer (rule : RecurrenceRule) (fromTime : ℤ) : Prop :=
  rule.Active now info.getCurrentCount →
    ∃ t, rule.FirstRun cal info.getStartTime fromTime t ∧ rule.validByRule cal t ≠ none

/-- When `next` returns the least occurrence, by the case that it takes. -/
def HoldsWhen (fromTime : ℤ) : Prop :=
  if info.getCurrentCount = 0 ∨ fromTime = 0 ∨ fromTime = info.getStartTime then
    info.StartIsNext cal now fromTime
  else
    ∃ rule, info.rRulesList.head? = some rule ∧ info.CanAnswer cal now rule fromTime ∧
      if info.eRulesList = [] then info.OffersLeast cal now rule fromTime
      else info.EndsBeforeStart cal now rule fromTime

/-! ### The dates -/

end RecurrenceInfo

theorem LeastOrZero.unique {s : Set ℤ} {t t' : ℤ} (h : LeastOrZero s t)
    (h' : LeastOrZero s t') : t = t' := by
  obtain h | ⟨rfl, rfl⟩ := h
  · obtain h' | ⟨rfl, rfl⟩ := h'
    · exact h.unique h'
    · exact absurd h.1 (Set.notMem_empty t)
  · obtain h' | ⟨-, rfl⟩ := h'
    · exact absurd h'.1 (Set.notMem_empty t')
    · rfl

theorem checkDateList_of_le {dates : List ℤ} {time fromTime : ℤ} (hne : time ≠ 0)
    (h : ∀ d ∈ dates, fromTime < d → time ≤ d) : checkDateList dates time fromTime = time := by
  induction dates with
  | nil => rfl
  | cons d dates ih =>
    have hd := h d List.mem_cons_self
    rw [checkDateList, List.foldl_cons, if_neg (by omega), if_neg (by omega)]
    exact ih fun d' hd' => h d' (List.mem_cons_of_mem d hd')

theorem checkDateList_cons_of_le {d : ℤ} {dates : List ℤ} {time fromTime : ℤ}
    (h : d ≤ fromTime) :
    checkDateList (d :: dates) time fromTime = checkDateList dates time fromTime := by
  rw [checkDateList, List.foldl_cons, if_neg (by omega), if_neg (by omega)]
  rfl

theorem leastOrZero_checkDateList_zero {dates : List ℤ} {fromTime : ℤ}
    (hsorted : dates.Pairwise (· ≤ ·)) :
    LeastOrZero {d | (d ∈ dates ∧ fromTime < d) ∧ d ≠ 0} (checkDateList dates 0 fromTime) := by
  induction dates with
  | nil => exact Or.inr ⟨by ext d; simp, rfl⟩
  | cons d dates ih =>
    obtain ⟨hd, hdates⟩ := List.pairwise_cons.mp hsorted
    have hrest (hskip : d ≤ fromTime ∨ d = 0) :
        {d' | (d' ∈ d :: dates ∧ fromTime < d') ∧ d' ≠ 0}
          = {d' | (d' ∈ dates ∧ fromTime < d') ∧ d' ≠ 0} := by
      ext d'
      simp only [Set.mem_ofPred_eq, List.mem_cons]
      constructor
      · rintro ⟨⟨rfl | hmem, hlt⟩, hne⟩
        · omega
        · exact ⟨⟨hmem, hlt⟩, hne⟩
      · rintro ⟨⟨hmem, hlt⟩, hne⟩
        exact ⟨⟨Or.inr hmem, hlt⟩, hne⟩
    obtain hle | hlt := le_or_gt d fromTime
    · rw [checkDateList_cons_of_le hle, hrest (Or.inl hle)]
      exact ih hdates
    · have hstep : checkDateList (d :: dates) 0 fromTime = checkDateList dates d fromTime := by
        rw [checkDateList, List.foldl_cons, if_neg (by omega), if_pos ⟨rfl, hlt⟩]
        rfl
      rw [hstep]
      obtain rfl | hne := eq_or_ne d 0
      · rw [hrest (Or.inr rfl)]
        exact ih hdates
      · rw [checkDateList_of_le hne fun d' hd' _ => hd d' hd']
        refine Or.inl ⟨⟨⟨List.mem_cons_self, hlt⟩, hne⟩, ?_⟩
        rintro d' ⟨⟨hmem, -⟩, -⟩
        obtain rfl | hmem := List.mem_cons.mp hmem
        · exact le_refl _
        · exact hd d' hmem

/-- A positive time is lowered to the first date after `fromTime` that precedes it, unless this
is `0`: then the time is lost. -/
theorem leastOrZero_checkDateList {dates : List ℤ} {time fromTime : ℤ} (htime : 0 < time)
    (hsorted : dates.Pairwise (· ≤ ·)) :
    LeastOrZero {t | (t ∈ dates ∧ fromTime < t) ∧ t ≠ 0 ∨
        t = time ∧ ¬ IsLeast {d | d ∈ dates ∧ fromTime < d} 0}
      (checkDateList dates time fromTime) := by
  induction dates with
  | nil =>
    refine Or.inl ⟨Or.inr ⟨rfl, fun h => absurd h.1.1 (by simp)⟩, ?_⟩
    rintro t (⟨⟨hmem, -⟩, -⟩ | ⟨rfl, -⟩)
    · exact absurd hmem (by simp)
    · exact le_refl _
  | cons d dates ih =>
    obtain ⟨hd, hdates⟩ := List.pairwise_cons.mp hsorted
    obtain hle | hlt := le_or_gt d fromTime
    · have hrest (t : ℤ) : (t ∈ d :: dates ∧ fromTime < t) ↔ (t ∈ dates ∧ fromTime < t) := by
        rw [List.mem_cons]
        exact and_congr_left fun hlt => or_iff_right (by omega)
      simp only [checkDateList_cons_of_le hle, hrest]
      exact ih hdates
    · have hfirst : IsLeast {d' | d' ∈ d :: dates ∧ fromTime < d'} d := by
        refine ⟨⟨List.mem_cons_self, hlt⟩, ?_⟩
        rintro d' ⟨hmem, -⟩
        obtain rfl | hmem := List.mem_cons.mp hmem
        · exact le_refl _
        · exact hd d' hmem
      obtain rfl | hne := eq_or_ne d 0
      · -- The date `0` erases the time, and the rest runs without one.
        have hstep : checkDateList (0 :: dates) time fromTime
            = checkDateList dates 0 fromTime := by
          rw [checkDateList, List.foldl_cons, if_pos ⟨htime, htime, hlt⟩]
          rfl
        have hset : {t | (t ∈ 0 :: dates ∧ fromTime < t) ∧ t ≠ 0 ∨
            t = time ∧ ¬ IsLeast {d | d ∈ 0 :: dates ∧ fromTime < d} 0}
              = {d | (d ∈ dates ∧ fromTime < d) ∧ d ≠ 0} := by
          ext t
          simp only [Set.mem_ofPred_eq, List.mem_cons]
          constructor
          · rintro (⟨⟨rfl | hmem, hlt'⟩, hne⟩ | ⟨-, hnot⟩)
            · exact absurd rfl hne
            · exact ⟨⟨hmem, hlt'⟩, hne⟩
            · exact absurd (by simpa using hfirst) hnot
          · rintro ⟨⟨hmem, hlt'⟩, hne⟩
            exact Or.inl ⟨⟨Or.inr hmem, hlt'⟩, hne⟩
        rw [hstep, hset]
        exact leastOrZero_checkDateList_zero hdates
      · have hnot : ¬ IsLeast {d' | d' ∈ d :: dates ∧ fromTime < d'} 0 :=
          fun h => hne (hfirst.unique h)
        obtain hltTime | hleTime := lt_or_ge d time
        · have hstep : checkDateList (d :: dates) time fromTime
              = checkDateList dates d fromTime := by
            rw [checkDateList, List.foldl_cons, if_pos ⟨htime, hltTime, hlt⟩]
            rfl
          rw [hstep, checkDateList_of_le hne fun d' hd' _ => hd d' hd']
          refine Or.inl ⟨Or.inl ⟨hfirst.1, hne⟩, ?_⟩
          rintro t (⟨hmem, -⟩ | ⟨rfl, -⟩)
          · exact hfirst.2 hmem
          · exact le_of_lt hltTime
        · have hle : ∀ d' ∈ d :: dates, fromTime < d' → time ≤ d' := fun d' hd' hlt' =>
            le_trans hleTime (hfirst.2 ⟨hd', hlt'⟩)
          rw [checkDateList_of_le (ne_of_gt htime) hle]
          refine Or.inl ⟨Or.inr ⟨rfl, hnot⟩, ?_⟩
          rintro t (⟨⟨hmem, hlt'⟩, -⟩ | ⟨rfl, -⟩)
          · exact hle t hmem hlt'
          · exact le_refl _

namespace RecurrenceInfo

variable {cal : Calendar} {now : ℤ} {info : RecurrenceInfo} {rule : RecurrenceRule}
  {fuel : ℕ} {fromTime t u n : ℤ}

theorem getStartTime_pos : 0 < info.getStartTime := by
  have h := info.start_pos
  have hmod := Int.emod_nonneg info.startDateTime.getTime (by decide : (1000 : ℤ) ≠ 0)
  unfold getStartTime stampTime
  omega

/-! ### What `getNextTime` and `isValid` answer -/

theorem offered_unique_run (h : info.ValidRun cal now rule fromTime t)
    (h' : info.ValidRun cal now rule fromTime u) : t = u :=
  h.2.1.unique h'.2.1

/-- **The time that `getNextTime` picks is the least that is offered.** -/
theorem leastOrZero_offered
    (h : rule.Answers cal now info.getStartTime fromTime info.getCurrentCount n) :
    LeastOrZero (info.offered cal now rule fromTime)
      (checkDateList info.rDateList n fromTime) := by
  by_cases hrun : ∃ r, info.ValidRun cal now rule fromTime r
  · obtain ⟨r, hr⟩ := hrun
    have hpos : 0 < r := lt_of_lt_of_le getStartTime_pos hr.2.1.start_le
    obtain rfl : n = r := by
      cases h with
      | inactive h => exact absurd hr.1 h
      | valid h => exact offered_unique_run h hr
      | invalid _ hfirst h =>
        obtain rfl := hfirst.unique hr.2.1
        exact absurd (h.symm.trans hr.2.2) (by simp)
    have hset : info.offered cal now rule fromTime
        = {t | (t ∈ info.rDateList ∧ fromTime < t) ∧ t ≠ 0 ∨
            t = n ∧ ¬ IsLeast {d | d ∈ info.rDateList ∧ fromTime < d} 0} := by
      ext t
      have hiff : info.ValidRun cal now rule fromTime t ↔ t = n :=
        ⟨fun ht => offered_unique_run ht hr, fun ht => ht ▸ hr⟩
      simp only [offered, datesAfter, Set.mem_ofPred_eq, hiff]
    rw [hset]
    exact leastOrZero_checkDateList hpos info.rDateList_sorted
  · obtain rfl : n = 0 := by
      cases h with
      | inactive _ => rfl
      | valid h => exact absurd ⟨n, h⟩ hrun
      | invalid _ _ _ => rfl
    have hset : info.offered cal now rule fromTime
        = {d | (d ∈ info.rDateList ∧ fromTime < d) ∧ d ≠ 0} := by
      ext t
      have hnot : ¬ info.ValidRun cal now rule fromTime t := fun h => hrun ⟨t, h⟩
      simp only [offered, datesAfter, Set.mem_ofPred_eq, hnot, false_and, or_false]
    rw [hset]
    exact leastOrZero_checkDateList_zero info.rDateList_sorted

theorem leastOrZero_of_getNextTime (hfrom : fromTime ≠ 0)
    (h : info.getNextTime cal now fuel rule fromTime = .done t) :
    LeastOrZero (info.offered cal now rule fromTime) t := by
  obtain ⟨n, hn, ht⟩ := Outcome.bind_eq_done.mp h
  obtain rfl := Outcome.done.inj ht
  exact leastOrZero_offered
    (RecurrenceRule.answers_of_next (ne_of_gt getStartTime_pos) hfrom hn)

theorem canAnswer_of_getNextTime (hfrom : fromTime ≠ 0)
    (h : info.getNextTime cal now fuel rule fromTime = .done t) :
    info.CanAnswer cal now rule fromTime := by
  obtain ⟨n, hn, -⟩ := Outcome.bind_eq_done.mp h
  intro hactive
  cases RecurrenceRule.answers_of_next (ne_of_gt getStartTime_pos) hfrom hn with
  | inactive h => exact absurd hactive h
  | valid h => exact ⟨n, h.2.1, by simp [h.2.2]⟩
  | @invalid r _ hfirst h => exact ⟨r, hfirst, by simp [h]⟩

theorem exists_getNextTime (hfrom : fromTime ≠ 0) (h : info.CanAnswer cal now rule fromTime)
    (ht : LeastOrZero (info.offered cal now rule fromTime) t) :
    ∃ m, ∀ fuel ≥ m, info.getNextTime cal now fuel rule fromTime = .done t := by
  have hanswer : ∃ n, rule.Answers cal now info.getStartTime fromTime info.getCurrentCount n := by
    by_cases hactive : rule.Active now info.getCurrentCount
    · obtain ⟨r, hfirst, hne⟩ := h hactive
      obtain ⟨b, hb⟩ := Option.ne_none_iff_exists'.mp hne
      cases b with
      | true => exact ⟨r, .valid ⟨hactive, hfirst, hb⟩⟩
      | false => exact ⟨0, .invalid hactive hfirst hb⟩
    · exact ⟨0, .inactive hactive⟩
  obtain ⟨n, hn⟩ := hanswer
  obtain ⟨m, hm⟩ := RecurrenceRule.exists_next (ne_of_gt getStartTime_pos) hfrom hn
  refine ⟨m, fun fuel hfuel => ?_⟩
  rw [getNextTime, hm fuel hfuel, (leastOrZero_offered hn).unique ht |>.symm]
  rfl

theorem isValid_of_nil (h : info.eRulesList = []) : info.isValid cal now fuel t = .done true := by
  rw [isValid, h]
  rfl

theorem isValid_of_lt (hne : info.eRulesList ≠ []) (h : t < info.getStartTime) :
    info.isValid cal now (fuel + 1) t = .done (decide (t ∉ info.eDateList)) := by
  have hfor : ∀ rules : List RecurrenceRule, info.isValidFor cal now (fuel + 1) t rules =
      .done (decide (rules = [] ∨ t ∉ info.eDateList)) := by
    intro rules
    induction rules with
    | nil => simp [isValidFor]
    | cons e rest ih =>
      rw [isValidFor, RecurrenceRule.isValid_of_lt h]
      by_cases hmem : t ∈ info.eDateList
      · simp [Outcome.bind, hmem]
      · simp [Outcome.bind, hmem, ih]
  rw [isValid, hfor]
  simp [hne]

theorem isValid_start (hne : info.eRulesList ≠ []) :
    info.isValid cal now fuel info.getStartTime = .done false := by
  obtain ⟨e, rest, he⟩ := List.exists_cons_of_ne_nil hne
  rw [isValid, he, isValidFor, RecurrenceRule.isValid_start]
  rfl

/-- **An exception rule leaves every question about a time after the start open.** -/
theorem isValid_ne_done (hne : info.eRulesList ≠ []) (h : info.getStartTime < t) {b : Bool} :
    info.isValid cal now fuel t ≠ .done b := by
  obtain ⟨e, rest, he⟩ := List.exists_cons_of_ne_nil hne
  intro hdone
  rw [isValid, he, isValidFor, Outcome.bind_eq_done] at hdone
  obtain ⟨excepted, hexcepted, -⟩ := hdone
  exact RecurrenceRule.isValid_ne_done getStartTime_pos h hexcepted

/-! ### The loop for the first rule -/

theorem ne_zero_of_mem_offered (h : t ∈ info.offered cal now rule fromTime) : t ≠ 0 := by
  obtain ⟨-, hne⟩ | ⟨hrun, -⟩ := h
  · exact hne
  · exact ne_of_gt (lt_of_lt_of_le getStartTime_pos hrun.2.1.start_le)

theorem offered_eq_empty (h : LeastOrZero (info.offered cal now rule fromTime) 0) :
    info.offered cal now rule fromTime = ∅ := by
  obtain h | ⟨h, -⟩ := h
  · exact absurd rfl (ne_zero_of_mem_offered h.1)
  · exact h

theorem isLeast_offered (hne : t ≠ 0) (h : LeastOrZero (info.offered cal now rule fromTime) t) :
    IsLeast (info.offered cal now rule fromTime) t :=
  h.resolve_right fun h => hne h.2

theorem exists_leastOrZero (h : info.CanAnswer cal now rule fromTime) :
    ∃ t, LeastOrZero (info.offered cal now rule fromTime) t := by
  by_cases hactive : rule.Active now info.getCurrentCount
  · obtain ⟨r, hfirst, hne⟩ := h hactive
    obtain ⟨b, hb⟩ := Option.ne_none_iff_exists'.mp hne
    cases b with
    | true => exact ⟨_, leastOrZero_offered (.valid ⟨hactive, hfirst, hb⟩)⟩
    | false => exact ⟨_, leastOrZero_offered (.invalid hactive hfirst hb)⟩
  · exact ⟨_, leastOrZero_offered (.inactive hactive)⟩

theorem nextPass_eq_done {r : ℤ ⊕ ℤ} :
    info.nextPass cal now fuel rule fromTime = .done r ↔
      ∃ t, info.getNextTime cal now fuel rule fromTime = .done t ∧
        (t = 0 ∧ r = .inr 0 ∨ t ≠ 0 ∧ ∃ valid, info.isValid cal now fuel t = .done valid ∧
          r = if valid then .inr t else .inl t) := by
  rw [nextPass, Outcome.bind_eq_done]
  refine exists_congr fun t => and_congr_right fun _ => ?_
  by_cases ht : t = 0
  · rw [if_pos ht, Outcome.done.injEq]
    exact ⟨fun h => Or.inl ⟨ht, h.symm⟩, fun h => (h.resolve_right fun h => h.1 ht).2.symm⟩
  · rw [if_neg ht, Outcome.bind_eq_done]
    simp only [Outcome.done.injEq]
    constructor
    · rintro ⟨valid, hvalid, hr⟩
      exact Or.inr ⟨ht, valid, hvalid, hr.symm⟩
    · rintro (⟨ht', -⟩ | ⟨-, valid, hvalid, hr⟩)
      · exact absurd ht' ht
      · exact ⟨valid, hvalid, hr.symm⟩

/-- **Without exception rules, the loop answers the least offered time.** -/
theorem exists_nextOfRule_iff_of_nil (hfrom : fromTime ≠ 0) (hnil : info.eRulesList = []) :
    (∃ fuel, info.nextOfRule cal now fuel rule fromTime = .done t) ↔
      info.CanAnswer cal now rule fromTime ∧
        LeastOrZero (info.offered cal now rule fromTime) t := by
  constructor
  · rintro ⟨fuel, h⟩
    cases fuel with
    | zero => exact absurd h (by simp [nextOfRule, Outcome.loop])
    | succ fuel =>
      have hnext : info.getNextTime cal now (fuel + 1) rule fromTime = .done t := by
        obtain h | ⟨s, h, -⟩ := Outcome.loop_succ_eq_done.mp h
        · obtain ⟨u, hu, ⟨rfl, hr⟩ | ⟨-, valid, hvalid, hr⟩⟩ := nextPass_eq_done.mp h
          · rwa [Sum.inr.inj hr]
          · rw [isValid_of_nil hnil] at hvalid
            obtain rfl := Outcome.done.inj hvalid
            rw [if_pos rfl] at hr
            rwa [Sum.inr.inj hr]
        · obtain ⟨u, -, ⟨-, hr⟩ | ⟨-, valid, hvalid, hr⟩⟩ := nextPass_eq_done.mp h
          · exact absurd hr (by simp)
          · rw [isValid_of_nil hnil] at hvalid
            obtain rfl := Outcome.done.inj hvalid
            exact absurd hr (by simp)
      exact ⟨canAnswer_of_getNextTime hfrom hnext, leastOrZero_of_getNextTime hfrom hnext⟩
  · rintro ⟨hcan, hleast⟩
    obtain ⟨m, hm⟩ := exists_getNextTime hfrom hcan hleast
    refine ⟨m + 1, Outcome.loop_succ_of_inr (nextPass_eq_done.mpr ⟨t, hm _ (by omega), ?_⟩)⟩
    by_cases ht : t = 0
    · exact Or.inl ⟨ht, by rw [ht]⟩
    · exact Or.inr ⟨ht, true, isValid_of_nil hnil, rfl⟩

def Ends (cal : Calendar) (now : ℤ) (info : RecurrenceInfo) (rule : RecurrenceRule)
    (fromTime t : ℤ) : Prop :=
  IsLeast (info.earlyDates fromTime) t ∨
    info.earlyDates fromTime = ∅ ∧
      (∀ d ∈ info.datesAfter fromTime, d ≤ info.getStartTime) ∧
      (∀ t, info.ValidRun cal now rule fromTime t →
        IsGreatest (info.datesAfter fromTime) 0) ∧ t = 0

theorem mem_offered_of_mem_earlyDates (h : t ∈ info.earlyDates fromTime) :
    t ∈ info.offered cal now rule fromTime :=
  Or.inl ⟨h.1, h.2.2.1⟩

theorem mem_datesAfter_of_lt (h : t ∈ info.offered cal now rule fromTime)
    (hlt : t < info.getStartTime) : t ∈ info.datesAfter fromTime := by
  obtain ⟨hmem, -⟩ | ⟨hrun, -⟩ := h
  · exact hmem
  · exact absurd hrun.2.1.start_le (not_le.mpr hlt)

theorem le_of_mem_offered (h : t ∈ info.offered cal now rule fromTime) : fromTime ≤ t := by
  obtain ⟨hmem, -⟩ | ⟨hrun, -⟩ := h
  · exact le_of_lt hmem.2
  · exact hrun.2.1.le

theorem validRun_congr (h : fromTime ≤ info.getStartTime) (hu : u ≤ info.getStartTime) :
    info.ValidRun cal now rule fromTime t ↔ info.ValidRun cal now rule u t := by
  unfold ValidRun RecurrenceRule.ValidRun
  rw [RecurrenceRule.firstRun_iff_of_le h, RecurrenceRule.firstRun_iff_of_le hu]

theorem canAnswer_congr (h : fromTime ≤ info.getStartTime) (hu : u ≤ info.getStartTime) :
    info.CanAnswer cal now rule fromTime ↔ info.CanAnswer cal now rule u := by
  unfold CanAnswer
  simp only [RecurrenceRule.firstRun_iff_of_le h, RecurrenceRule.firstRun_iff_of_le hu]

theorem ends_zero (h : info.offered cal now rule fromTime = ∅) :
    info.Ends cal now rule fromTime 0 := by
  have hzero : ∀ d ∈ info.datesAfter fromTime, d = 0 := fun d hd => by
    by_contra hne
    exact Set.eq_empty_iff_forall_notMem.mp h d (Or.inl ⟨hd, hne⟩)
  refine Or.inr ⟨?_, fun d hd => ?_, fun t ht => ?_, rfl⟩
  · exact Set.eq_empty_iff_forall_notMem.mpr fun d hd => hd.2.2.1 (hzero d hd.1)
  · rw [hzero d hd]
    exact le_of_lt getStartTime_pos
  · have hleast : IsLeast (info.datesAfter fromTime) 0 := by
      by_contra hnot
      exact Set.eq_empty_iff_forall_notMem.mp h t (Or.inr ⟨ht, hnot⟩)
    exact ⟨hleast.1, fun d hd => le_of_eq (hzero d hd)⟩

theorem isLeast_earlyDates (h : IsLeast (info.offered cal now rule fromTime) u)
    (hlt : u < info.getStartTime) (hnot : u ∉ info.eDateList) :
    IsLeast (info.earlyDates fromTime) u :=
  ⟨⟨mem_datesAfter_of_lt h.1 hlt, hlt, ne_zero_of_mem_offered h.1, hnot⟩,
    fun _ hd => h.2 (mem_offered_of_mem_earlyDates hd)⟩

theorem ends_iff_of_mem (h : IsLeast (info.offered cal now rule fromTime) u)
    (hlt : u < info.getStartTime) (hmem : u ∈ info.eDateList) :
    info.Ends cal now rule fromTime t ↔ info.Ends cal now rule u t := by
  have hu : u ∈ info.datesAfter fromTime := mem_datesAfter_of_lt h.1 hlt
  have hbetween : ∀ d ∈ info.datesAfter fromTime, d < u → d = 0 := fun d hd hdu => by
    by_contra hne
    exact absurd (h.2 (Or.inl ⟨hd, hne⟩)) (not_le.mpr hdu)
  have hafter : ∀ {d}, d ∈ info.datesAfter u ↔ d ∈ info.datesAfter fromTime ∧ u < d :=
    fun {d} => ⟨fun hd => ⟨⟨hd.1, lt_trans hu.2 hd.2⟩, hd.2⟩, fun hd => ⟨hd.1.1, hd.2⟩⟩
  have hearly : info.earlyDates fromTime = info.earlyDates u := by
    ext d
    refine ⟨fun ⟨hd, hds, hne, hnot⟩ => ⟨hafter.mpr ⟨hd, ?_⟩, hds, hne, hnot⟩,
      fun ⟨hd, hds, hne, hnot⟩ => ⟨(hafter.mp hd).1, hds, hne, hnot⟩⟩
    obtain hdu | rfl | hdu := lt_trichotomy d u
    · exact absurd (hbetween d hd hdu) hne
    · exact absurd hmem hnot
    · exact hdu
  have hlate : (∀ d ∈ info.datesAfter fromTime, d ≤ info.getStartTime) ↔
      ∀ d ∈ info.datesAfter u, d ≤ info.getStartTime := by
    refine ⟨fun hd d hdu => hd d (hafter.mp hdu).1, fun hd d hdf => ?_⟩
    obtain hdu | hdu := le_or_gt d u
    · exact le_of_lt (lt_of_le_of_lt hdu hlt)
    · exact hd d (hafter.mpr ⟨hdf, hdu⟩)
  have hgreatest : IsGreatest (info.datesAfter fromTime) 0 ↔
      IsGreatest (info.datesAfter u) 0 := by
    constructor
    · rintro ⟨hzero, hub⟩
      have hneg : u < 0 := lt_of_le_of_ne (hub hu) (ne_zero_of_mem_offered h.1)
      exact ⟨hafter.mpr ⟨hzero, hneg⟩, fun d hd => hub (hafter.mp hd).1⟩
    · rintro ⟨hzero, hub⟩
      refine ⟨(hafter.mp hzero).1, fun d hd => ?_⟩
      obtain hdu | hdu := le_or_gt d u
      · exact le_of_lt (lt_of_le_of_lt hdu hzero.2)
      · exact hub (hafter.mpr ⟨hd, hdu⟩)
  unfold Ends
  simp only [hearly, hlate, hgreatest,
    validRun_congr (le_of_lt (lt_trans hu.2 hlt)) (le_of_lt hlt)]

theorem earlyDates_eq_empty (h : IsLeast (info.offered cal now rule fromTime) u)
    (hle : info.getStartTime ≤ u) : info.earlyDates fromTime = ∅ :=
  Set.eq_empty_iff_forall_notMem.mpr fun _ hd =>
    absurd (lt_of_le_of_lt (h.2 (mem_offered_of_mem_earlyDates hd)) hd.2.1) (not_lt.mpr hle)

theorem not_isGreatest_zero (h : IsLeast (info.offered cal now rule fromTime) u)
    (hle : info.getStartTime ≤ u) : ¬ IsGreatest (info.datesAfter fromTime) 0 := by
  intro hgreatest
  have hpos : 0 < u := lt_of_lt_of_le getStartTime_pos hle
  obtain ⟨hmem, -⟩ | ⟨-, hnot⟩ := h.1
  · exact absurd (hgreatest.2 hmem) (not_le.mpr hpos)
  · refine hnot ⟨hgreatest.1, fun d hd => ?_⟩
    by_contra hneg
    exact absurd (h.2 (Or.inl ⟨hd, ne_of_lt (not_le.mp hneg)⟩))
      (not_le.mpr (lt_trans (not_le.mp hneg) hpos))

theorem datesAfter_of_ends (h : IsLeast (info.offered cal now rule fromTime) u)
    (hle : info.getStartTime ≤ u) (hends : info.Ends cal now rule fromTime t) :
    u ∈ info.datesAfter fromTime ∧ u = info.getStartTime ∧ t = 0 ∧
      ∀ r, ¬ info.ValidRun cal now rule fromTime r := by
  obtain hleast | ⟨-, hlate, hrun, rfl⟩ := hends
  · rw [earlyDates_eq_empty h hle] at hleast
    exact absurd hleast.1 (Set.notMem_empty t)
  · have hnot : ∀ r, ¬ info.ValidRun cal now rule fromTime r := fun r hr =>
      not_isGreatest_zero h hle (hrun r hr)
    obtain ⟨hmem, -⟩ | ⟨hr, -⟩ := h.1
    · exact ⟨hmem, le_antisymm (hlate u hmem) hle, rfl, hnot⟩
    · exact absurd hr (hnot u)

theorem ends_iff_of_start (h : IsLeast (info.offered cal now rule fromTime) info.getStartTime) :
    info.Ends cal now rule fromTime t ↔ info.Ends cal now rule info.getStartTime t := by
  have hle : fromTime ≤ info.getStartTime := le_of_mem_offered h.1
  have hearly : info.earlyDates info.getStartTime = ∅ :=
    Set.eq_empty_iff_forall_notMem.mpr fun d hd => absurd hd.1.2 (not_lt.mpr (le_of_lt hd.2.1))
  constructor
  · intro hends
    obtain ⟨-, -, rfl, hnot⟩ := datesAfter_of_ends h (le_refl _) hends
    obtain hleast | ⟨-, hlate, -, -⟩ := hends
    · rw [earlyDates_eq_empty h (le_refl _)] at hleast
      exact absurd hleast.1 (Set.notMem_empty _)
    · exact Or.inr ⟨hearly, fun d hd => hlate d ⟨hd.1, lt_of_le_of_lt hle hd.2⟩,
        fun r hr => absurd ((validRun_congr hle (le_refl _)).mpr hr) (hnot r), rfl⟩
  · rintro (hleast | ⟨-, hlate, hrun, rfl⟩)
    · rw [hearly] at hleast
      exact absurd hleast.1 (Set.notMem_empty t)
    · refine Or.inr ⟨earlyDates_eq_empty h (le_refl _), fun d hd => ?_, fun r hr => ?_, rfl⟩
      · by_contra hgt
        exact hgt (hlate d ⟨hd.1, not_le.mp hgt⟩)
      · have hzero := (hrun r ((validRun_congr hle (le_refl _)).mp hr)).1
        exact absurd hzero.2 (not_lt.mpr (le_of_lt getStartTime_pos))

theorem ends_of_nextPass (hfrom : fromTime ≠ 0) (hne : info.eRulesList ≠ []) {r : ℤ ⊕ ℤ}
    (h : info.nextPass cal now fuel rule fromTime = .done r) :
    (∃ t, r = .inr t ∧ info.Ends cal now rule fromTime t) ∨
      ∃ u, r = .inl u ∧ u ≠ 0 ∧
        ∀ t, info.Ends cal now rule u t → info.Ends cal now rule fromTime t := by
  obtain ⟨u, hu, ⟨rfl, rfl⟩ | ⟨hu0, valid, hvalid, rfl⟩⟩ := nextPass_eq_done.mp h
  · exact Or.inl ⟨0, rfl, ends_zero (offered_eq_empty (leastOrZero_of_getNextTime hfrom hu))⟩
  · have hleast := isLeast_offered hu0 (leastOrZero_of_getNextTime hfrom hu)
    obtain hlt | rfl | hgt := lt_trichotomy u info.getStartTime
    · -- Before the start the exception dates decide.
      cases fuel with
      | zero =>
        obtain ⟨e, rest, he⟩ := List.exists_cons_of_ne_nil hne
        rw [isValid, he, isValidFor, RecurrenceRule.isValid, if_neg (ne_of_gt hlt)] at hvalid
        exact absurd hvalid (by simp [Outcome.loop, Outcome.bind])
      | succ fuel =>
        rw [isValid_of_lt hne hlt] at hvalid
        obtain rfl := Outcome.done.inj hvalid
        by_cases hmem : u ∈ info.eDateList
        · exact Or.inr ⟨u, by simp [hmem], hu0, fun t => (ends_iff_of_mem hleast hlt hmem).mpr⟩
        · exact Or.inl ⟨u, by simp [hmem], Or.inl (isLeast_earlyDates hleast hlt hmem)⟩
    · rw [isValid_start hne] at hvalid
      obtain rfl := Outcome.done.inj hvalid
      exact Or.inr ⟨info.getStartTime, rfl, hu0, fun t => (ends_iff_of_start hleast).mpr⟩
    · exact absurd hvalid (isValid_ne_done hne hgt)

theorem ends_of_nextOfRule (hfrom : fromTime ≠ 0) (hne : info.eRulesList ≠ [])
    (h : info.nextOfRule cal now fuel rule fromTime = .done t) :
    info.Ends cal now rule fromTime t := by
  refine Outcome.of_loop_eq_done
    (I := fun s => s ≠ 0 ∧ ∀ t, info.Ends cal now rule s t → info.Ends cal now rule fromTime t)
    (fun s s' hs hpass => ?_) (fun s b hs hpass => ?_) ⟨hfrom, fun _ ht => ht⟩ h
  · obtain ⟨b, hb, -⟩ | ⟨u, hu, hu0, hends⟩ := ends_of_nextPass hs.1 hne hpass
    · exact absurd hb (by simp)
    · obtain rfl := Sum.inl.inj hu
      exact ⟨hu0, fun t ht => hs.2 t (hends t ht)⟩
  · obtain ⟨b', hb, hends⟩ | ⟨u, hu, -⟩ := ends_of_nextPass hs.1 hne hpass
    · obtain rfl := Sum.inr.inj hb
      exact hs.2 b hends
    · exact absurd hu (by simp)

theorem canAnswer_of_nextOfRule (hfrom : fromTime ≠ 0)
    (h : info.nextOfRule cal now fuel rule fromTime = .done t) :
    info.CanAnswer cal now rule fromTime := by
  cases fuel with
  | zero => exact absurd h (by simp [nextOfRule, Outcome.loop])
  | succ fuel =>
    obtain h | ⟨s, h, -⟩ := Outcome.loop_succ_eq_done.mp h
    all_goals
      obtain ⟨u, hu, -⟩ := nextPass_eq_done.mp h
      exact canAnswer_of_getNextTime hfrom hu

theorem length_filter_lt (h : u ∈ info.datesAfter fromTime) :
    (info.rDateList.filter (u < ·)).length < (info.rDateList.filter (fromTime < ·)).length := by
  have hsub : info.rDateList.filter (u < ·)
      = (info.rDateList.filter (fromTime < ·)).filter (u < ·) := by
    rw [List.filter_filter]
    refine List.filter_congr fun d _ => ?_
    have hlt := h.2
    by_cases hd : u < d
    · simp [hd, lt_trans hlt hd]
    · simp [hd]
  rw [hsub, List.length_filter_lt_length_iff_exists]
  exact ⟨u, List.mem_filter.mpr ⟨h.1, by simpa using h.2⟩, by simp⟩

theorem exists_nextOfRule (hfrom : fromTime ≠ 0) (hne : info.eRulesList ≠ [])
    (hcan : info.CanAnswer cal now rule fromTime) (hends : info.Ends cal now rule fromTime t) :
    ∃ m, ∀ fuel ≥ m, ∀ extra, Outcome.loop (info.nextPass cal now fuel rule) (m + extra) fromTime
      = .done t := by
  -- The induction is on the dates that are left.
  obtain ⟨n, hn⟩ : ∃ n, (info.rDateList.filter (fromTime < ·)).length = n := ⟨_, rfl⟩
  induction n using Nat.strong_induction_on generalizing fromTime with
  | _ n ih =>
    subst hn
    obtain ⟨u, hu⟩ := exists_leastOrZero hcan
    obtain ⟨m, hm⟩ := exists_getNextTime hfrom hcan hu
    have hgo (hu0 : u ≠ 0) (hmem : u ∈ info.datesAfter fromTime)
        (hle : u ≤ info.getStartTime) (hends' : info.Ends cal now rule u t)
        (hvalid : ∀ fuel, info.isValid cal now (fuel + 1) u = .done false) :
        ∃ m, ∀ fuel ≥ m, ∀ extra,
          Outcome.loop (info.nextPass cal now fuel rule) (m + extra) fromTime = .done t := by
      have hcan' : info.CanAnswer cal now rule u :=
        (canAnswer_congr (le_of_lt (lt_of_lt_of_le hmem.2 hle)) hle).mp hcan
      obtain ⟨m', hm'⟩ := ih _ (length_filter_lt hmem) hu0 hcan' hends' rfl
      refine ⟨m + m' + 1, fun fuel hfuel extra => ?_⟩
      obtain ⟨fuel, rfl⟩ := Nat.exists_eq_succ_of_ne_zero (show fuel ≠ 0 by omega)
      have hpass : info.nextPass cal now (fuel + 1) rule fromTime = .done (.inl u) :=
        nextPass_eq_done.mpr ⟨u, hm _ (by omega), Or.inr ⟨hu0, false, hvalid fuel, rfl⟩⟩
      rw [show m + m' + 1 + extra = m' + (m + extra) + 1 by omega,
        Outcome.loop_succ_of_inl hpass]
      exact hm' (fuel + 1) (by omega) (m + extra)
    have hleave (hpass : ∀ fuel, m ≤ fuel →
        info.nextPass cal now (fuel + 1) rule fromTime = .done (.inr t)) :
        ∃ m, ∀ fuel ≥ m, ∀ extra,
          Outcome.loop (info.nextPass cal now fuel rule) (m + extra) fromTime = .done t := by
      refine ⟨m + 1, fun fuel hfuel extra => ?_⟩
      obtain ⟨fuel, rfl⟩ := Nat.exists_eq_succ_of_ne_zero (show fuel ≠ 0 by omega)
      rw [show m + 1 + extra = m + extra + 1 by omega]
      exact Outcome.loop_succ_of_inr (hpass fuel (by omega))
    obtain rfl | hu0 := eq_or_ne u 0
    · have hearly : info.earlyDates fromTime = ∅ :=
        Set.eq_empty_iff_forall_notMem.mpr fun d hd =>
          Set.eq_empty_iff_forall_notMem.mp (offered_eq_empty hu) d
            (mem_offered_of_mem_earlyDates hd)
      obtain hleast | ⟨-, -, -, rfl⟩ := hends
      · exact absurd hleast.1 (hearly ▸ Set.notMem_empty t)
      · exact hleave fun fuel hfuel =>
          nextPass_eq_done.mpr ⟨0, hm _ (by omega), Or.inl ⟨rfl, rfl⟩⟩
    · have hleast := isLeast_offered hu0 hu
      obtain hlt | rfl | hgt := lt_trichotomy u info.getStartTime
      · by_cases hmem : u ∈ info.eDateList
        · exact hgo hu0 (mem_datesAfter_of_lt hleast.1 hlt) (le_of_lt hlt)
            ((ends_iff_of_mem hleast hlt hmem).mp hends)
            fun fuel => by rw [isValid_of_lt hne hlt, decide_eq_false (not_not.mpr hmem)]
        · have hu := isLeast_earlyDates hleast hlt hmem
          obtain ht | ⟨hempty, -⟩ := hends
          · obtain rfl := ht.unique hu
            refine hleave fun fuel hfuel => nextPass_eq_done.mpr
              ⟨t, hm _ (by omega), Or.inr ⟨hu0, true, ?_, rfl⟩⟩
            rw [isValid_of_lt hne hlt, decide_eq_true hmem]
          · exact absurd hu.1 (hempty ▸ Set.notMem_empty u)
      · obtain ⟨hmem, -⟩ := datesAfter_of_ends hleast (le_refl _) hends
        exact hgo hu0 hmem (le_refl _) ((ends_iff_of_start hleast).mp hends)
          fun fuel => isValid_start hne
      · obtain ⟨-, hu, -⟩ := datesAfter_of_ends hleast (le_of_lt hgt) hends
        exact absurd hu (ne_of_gt hgt)

/-- **With exception rules, the loop ends only before the start or where nothing is left.** -/
theorem exists_nextOfRule_iff_of_ne_nil (hfrom : fromTime ≠ 0) (hne : info.eRulesList ≠ []) :
    (∃ fuel, info.nextOfRule cal now fuel rule fromTime = .done t) ↔
      info.CanAnswer cal now rule fromTime ∧ info.Ends cal now rule fromTime t := by
  constructor
  · rintro ⟨fuel, h⟩
    exact ⟨canAnswer_of_nextOfRule hfrom h, ends_of_nextOfRule hfrom hne h⟩
  · rintro ⟨hcan, hends⟩
    obtain ⟨m, hm⟩ := exists_nextOfRule hfrom hne hcan hends
    exact ⟨m, hm m (le_refl m) 0⟩

/-! ### The occurrences -/

theorem mem_occurrences_of_datesAfter (h : t ∈ info.datesAfter fromTime)
    (hmem : t ∉ info.eDateList) (hrules : info.eRulesList = [] ∨ t < info.getStartTime) :
    t ∈ info.occurrences cal now fromTime := by
  refine ⟨h.2, Or.inr h.1, ?_⟩
  rintro (⟨e, he, hexcluded⟩ | hdate)
  · obtain hnil | hlt := hrules
    · exact absurd he (hnil ▸ List.not_mem_nil)
    · obtain rfl | ⟨-, -, hle, -⟩ := hexcluded
      · exact absurd hlt (lt_irrefl _)
      · exact absurd hle (not_le.mpr hlt)
  · exact hmem hdate

theorem datesAfter_of_mem_occurrences (h : t ∈ info.occurrences cal now fromTime)
    (hlt : t < info.getStartTime) : t ∈ info.datesAfter fromTime ∧ t ∉ info.eDateList := by
  obtain ⟨hfrom, ⟨r, -, -, -, hle, -⟩ | hdate, hnot⟩ := h
  · exact absurd hle (not_le.mpr hlt)
  · exact ⟨⟨hdate, hfrom⟩, fun hmem => hnot (Or.inr hmem)⟩

theorem isLeast_of_leastOrZero {s : Set ℤ} (hne : t ≠ 0) (h : LeastOrZero s t) : IsLeast s t :=
  h.resolve_right fun h => hne h.2

theorem leastOrZero_zero_iff (hempty : info.earlyDates fromTime = ∅) :
    LeastOrZero (info.occurrences cal now fromTime) 0 ↔
      info.occurrences cal now fromTime = ∅ ∨ 0 ∈ info.occurrences cal now fromTime := by
  constructor
  · rintro (h | ⟨h, -⟩)
    · exact Or.inr h.1
    · exact Or.inl h
  · rintro (h | h)
    · exact Or.inr ⟨h, rfl⟩
    · refine Or.inl ⟨h, fun t ht => ?_⟩
      by_contra hneg
      have hlt : t < info.getStartTime := lt_trans (not_le.mp hneg) getStartTime_pos
      obtain ⟨hdate, hmem⟩ := datesAfter_of_mem_occurrences ht hlt
      exact absurd (show t ∈ info.earlyDates fromTime from
        ⟨hdate, hlt, ne_of_lt (not_le.mp hneg), hmem⟩) (hempty ▸ Set.notMem_empty t)

theorem leastOrZero_start_iff :
    LeastOrZero (info.occurrences cal now fromTime) info.getStartTime ↔
      info.StartIsNext cal now fromTime := by
  constructor
  · intro h
    obtain ⟨⟨hlt, hproduced, hnot⟩, hleast⟩ := isLeast_of_leastOrZero (ne_of_gt getStartTime_pos) h
    have hnil : info.eRulesList = [] := by
      by_contra hne
      obtain ⟨e, rest, he⟩ := List.exists_cons_of_ne_nil hne
      exact hnot (Or.inl ⟨e, he ▸ List.mem_cons_self, Or.inl rfl⟩)
    refine ⟨hlt, hproduced, hnil, fun hmem => hnot (Or.inr hmem), fun d hd hds => ?_⟩
    by_contra hmem
    exact absurd (hleast (mem_occurrences_of_datesAfter hd hmem (Or.inl hnil))) (not_le.mpr hds)
  · rintro ⟨hlt, hproduced, hnil, hmem, hearly⟩
    refine Or.inl ⟨⟨hlt, hproduced, ?_⟩, fun t ht => ?_⟩
    · rintro (⟨e, he, -⟩ | hdate)
      · exact absurd he (hnil ▸ List.not_mem_nil)
      · exact hmem hdate
    · by_contra hts
      obtain ⟨hdate, hnot⟩ := datesAfter_of_mem_occurrences ht (not_le.mp hts)
      exact hnot (hearly t hdate (not_le.mp hts))

theorem mem_offered_self (h : info.ValidRun cal now rule fromTime fromTime) :
    fromTime ∈ info.offered cal now rule fromTime := by
  refine Or.inr ⟨h, fun hzero => ?_⟩
  have hpos := lt_of_lt_of_le getStartTime_pos h.2.1.start_le
  exact absurd hzero.1.2 (not_lt.mpr (le_of_lt hpos))

theorem earlyDates_of_offered (h : info.offered cal now rule fromTime = ∅) :
    info.earlyDates fromTime = ∅ :=
  Set.eq_empty_iff_forall_notMem.mpr fun d hd =>
    Set.eq_empty_iff_forall_notMem.mp h d (mem_offered_of_mem_earlyDates hd)

theorem mem_occurrences_of_offered (hnil : info.eRulesList = [])
    (hrule : rule ∈ info.rRulesList) (h : t ∈ info.offered cal now rule fromTime)
    (hself : ¬ info.ValidRun cal now rule fromTime fromTime) (hmem : t ∉ info.eDateList) :
    t ∈ info.occurrences cal now fromTime := by
  obtain ⟨hdate, -⟩ | ⟨hrun, -⟩ := h
  · exact mem_occurrences_of_datesAfter hdate hmem (Or.inl hnil)
  · refine ⟨lt_of_le_of_ne hrun.2.1.le ?_, Or.inl ⟨rule, hrule, ?_⟩, ?_⟩
    · rintro rfl
      exact hself hrun
    · obtain ⟨hactive, hfirst, hvalid⟩ := hrun
      have hle := hfirst.start_le
      obtain ⟨k, hk, -⟩ := hfirst
      exact ⟨hactive, hvalid, hle, k, hk⟩
    · rintro (⟨e, he, -⟩ | hdate)
      · exact absurd he (hnil ▸ List.not_mem_nil)
      · exact hmem hdate

theorem offersLeast_iff (hnil : info.eRulesList = []) (hrule : rule ∈ info.rRulesList) :
    (∃ t, LeastOrZero (info.offered cal now rule fromTime) t ∧
        LeastOrZero (info.occurrences cal now fromTime) t) ↔
      (∃ t, LeastOrZero (info.offered cal now rule fromTime) t) ∧
        info.OffersLeast cal now rule fromTime := by
  constructor
  · rintro ⟨t, ht, hnext⟩
    refine ⟨⟨t, ht⟩, fun hself => ?_, ?_⟩
    · have hmem := mem_offered_self hself
      obtain ht | ⟨hempty, -⟩ := ht
      · have hleast := isLeast_of_leastOrZero (ne_zero_of_mem_offered ht.1) hnext
        exact absurd (ht.2 hmem) (not_le.mpr hleast.1.1)
      · exact absurd hmem (hempty ▸ Set.notMem_empty _)
    · obtain rfl | hne := eq_or_ne t 0
      · have hempty := offered_eq_empty ht
        exact Or.inr ⟨hempty, (leastOrZero_zero_iff (earlyDates_of_offered hempty)).mp hnext⟩
      · have hleast := isLeast_of_leastOrZero hne hnext
        exact Or.inl ⟨t, isLeast_offered hne ht, fun hmem => hleast.1.2.2 (Or.inr hmem), hleast.2⟩
  · rintro ⟨-, hself, ⟨t, ht, hmem, hlower⟩ | ⟨hempty, hzero⟩⟩
    · exact ⟨t, Or.inl ht,
        Or.inl ⟨mem_occurrences_of_offered hnil hrule ht.1 hself hmem, hlower⟩⟩
    · exact ⟨0, Or.inr ⟨hempty, rfl⟩,
        (leastOrZero_zero_iff (earlyDates_of_offered hempty)).mpr hzero⟩

theorem endsBeforeStart_iff :
    (∃ t, info.Ends cal now rule fromTime t ∧
        LeastOrZero (info.occurrences cal now fromTime) t) ↔
      info.EndsBeforeStart cal now rule fromTime := by
  constructor
  · rintro ⟨t, hleast | ⟨hempty, hlate, hrun, rfl⟩, hnext⟩
    · exact Or.inl ⟨t, hleast, (isLeast_of_leastOrZero hleast.1.2.2.1 hnext).2⟩
    · exact Or.inr ⟨hempty, hlate, hrun, (leastOrZero_zero_iff hempty).mp hnext⟩
  · rintro (⟨t, hleast, hlower⟩ | ⟨hempty, hlate, hrun, hzero⟩)
    · obtain ⟨hdate, hlt, -, hmem⟩ := hleast.1
      exact ⟨t, Or.inl hleast,
        Or.inl ⟨mem_occurrences_of_datesAfter hdate hmem (Or.inr hlt), hlower⟩⟩
    · exact ⟨0, Or.inr ⟨hempty, hlate, hrun, rfl⟩, (leastOrZero_zero_iff hempty).mpr hzero⟩

/-! ### The result of `next` -/

theorem nextOfRules_false {rules : List RecurrenceRule} :
    info.nextOfRules cal now fuel rules false t = .done t := by
  induction rules with
  | nil => rfl
  | cons rule rest ih => exact ih

theorem nextOfRules_cons {rest : List RecurrenceRule} :
    info.nextOfRules cal now fuel (rule :: rest) true fromTime = .done t ↔
      info.nextOfRule cal now fuel rule fromTime = .done t := by
  rw [nextOfRules, Outcome.bind_eq_done]
  simp only [nextOfRules_false, Outcome.done.injEq, exists_eq_right]

theorem not_nextIsLeast_of_nil (hfirst : ¬ (info.getCurrentCount = 0 ∨ fromTime = 0 ∨
    fromTime = info.getStartTime)) (hnil : info.rRulesList = []) :
    ¬ info.NextIsLeast cal now fromTime := by
  rintro ⟨fuel, t, hdone, ht⟩
  rw [next, if_neg hfirst, hnil] at hdone
  obtain rfl := Outcome.done.inj hdone
  have hleast := isLeast_of_leastOrZero (fun h => hfirst (Or.inr (Or.inl h))) ht
  exact absurd hleast.1.1 (lt_irrefl _)

theorem nextIsLeast_iff_of_rule (hfirst : ¬ (info.getCurrentCount = 0 ∨ fromTime = 0 ∨
    fromTime = info.getStartTime)) {rest : List RecurrenceRule}
    (hrules : info.rRulesList = rule :: rest) :
    info.NextIsLeast cal now fromTime ↔
      ∃ t, (∃ fuel, info.nextOfRule cal now fuel rule fromTime = .done t) ∧
        LeastOrZero (info.occurrences cal now fromTime) t := by
  simp only [NextIsLeast, next, if_neg hfirst, hrules, nextOfRules_cons]
  rw [exists_comm]
  simp only [exists_and_right]

def secondCalendar : Calendar where
  add _ amount t := t + 1000 * amount
  get _ t := t / 1000 % 60
  getActualMaximum _ _ := 59

def everySecond : RecurrenceRule where
  frequency := .secondly
  intervalNumber := 1
  untilDateTime := none
  countNumber := some (-1)
  bySecondList := []
  byMinuteList := []
  byHourList := []
  byDayList := []
  byMonthDayList := []
  byYearDayList := []
  byWeekNoList := []
  byMonthList := []
  one_le_interval := le_refl 1

def exceptSecond : RecurrenceInfo where
  startDateTime := Timestamp.ofMillis 1000 (by decide)
  recurrenceCount := some 1
  rRulesList := [everySecond]
  eRulesList := []
  rDateList := []
  eDateList := [2000]
  start_pos := by decide
  rDateList_sorted := List.Pairwise.nil
  eDateList_sorted := List.pairwise_singleton _ _

end RecurrenceInfo

end OfficeAuto.Service
