import Mathlib.Algebra.Ring.Nat
import OfficeAuto.Entity.Value
import OfficeAuto.Logic.Loop
import OfficeAuto.Text.Split

/-!
# Recurrence rules

`RecurrenceRule`: a frequency with an interval, the lists of seconds, minutes, hours and days
that a run must match, and the limits of the rule. Its runs are the start time and what the
calendar makes of it by adding the interval again and again; `getNextFreq` steps along them
until it is no longer before a given time.

The calendar class is not part of the repository: a `Calendar` is what `add`, `get` and
`getActualMaximum` of an instance give when its time is set, with the time zone and the rules
of the calendar as they are. Times are milliseconds.

Two things go wrong in every rule. `next` seeks from the run that it has just found not to
match, and comes to the same run again, so that it gives up with `0` (`seek_of_not_valid`);
and `isValid` asks for the runs after the start from the start itself, so that it never ends
for a later time (`isValid_ne_done`).
-/

namespace OfficeAuto.Service

open Decimal

/-! ### The calendar -/

inductive CalendarField
  | second
  | minute
  | hourOfDay
  | dayOfWeek
  | weekOfMonth
  | dayOfMonth
  | weekOfYear
  | dayOfYear
  | month
  | year
  deriving DecidableEq

/-- What a calendar computes from its time: the time after `add(field, amount)`, the fields,
and their actual maxima. -/
structure Calendar where
  add : CalendarField → ℤ → ℤ → ℤ
  get : CalendarField → ℤ → ℤ
  getActualMaximum : CalendarField → ℤ → ℤ

/-! ### The rule -/

inductive RecurrenceFrequency
  | secondly
  | minutely
  | hourly
  | daily
  | weekly
  | monthly
  | yearly
  deriving DecidableEq

/-- A value of the entity `RecurrenceRule` whose lists are parsed; an absent list is empty. -/
structure RecurrenceRule where
  frequency : RecurrenceFrequency
  intervalNumber : ℤ
  untilDateTime : Option Timestamp
  countNumber : Option ℤ
  bySecondList : List (List Char)
  byMinuteList : List (List Char)
  byHourList : List (List Char)
  byDayList : List (List Char)
  byMonthDayList : List (List Char)
  byYearDayList : List (List Char)
  byWeekNoList : List (List Char)
  byMonthList : List (List Char)
  /-- `init` rejects any other interval. -/
  one_le_interval : 1 ≤ intervalNumber

/-- `getTime()` of a timestamp with `getNanos() / 1000000` added, which counts the
milliseconds twice. -/
def stampTime (stamp : Timestamp) : ℤ :=
  stamp.getTime + (stamp.getTime % 1000 * 1000000 + stamp.nanosBelow) / 1000000

/-- `Integer.parseInt` with its exception caught, which leaves the initial `0`. -/
def parseIntOrZero (s : List Char) : ℤ :=
  ((readInt s).filter fun n => -2 ^ 31 ≤ n ∧ n < 2 ^ 31).getD 0

/-- `hasNumber`: whether a text begins with a sign or a digit; `substring(0, 1)` throws where
it is empty. -/
def hasNumber (str : List Char) : Option Bool :=
  (Text.substring str 0 1).map fun firstChar =>
    ["+", "-", "1", "2", "3", "4", "5", "6", "7", "8", "9", "0"].contains (String.ofList firstChar)

def getDailyString (str : List Char) : List Char :=
  str.filter fun c => hasNumber [c] = some false

/-- `getDailyNumber`: the characters that are part of a number, except that it looks at the
empty text between `i` and `i`. -/
def getDailyNumber (str : List Char) : Option ℤ := do
  let numberStr ← (List.range str.length).foldlM (fun numberBuf i => do
    let thisChar ← Text.substring str i i
    let isNumber ← hasNumber thisChar
    pure (if isNumber then numberBuf ++ thisChar else numberBuf)) []
  pure (if numberStr = [] ∨ numberStr = ['+'] ∨ numberStr = ['-'] then 0
    else parseIntOrZero numberStr)

/-- `getCalendarDay`: the day of the week of the calendar, `0` for no day. -/
def getCalendarDay (day : List Char) : ℤ :=
  let day := String.ofList ((Text.trim day).map Char.toUpper)
  if day = "MO" then 2
  else if day = "TU" then 3
  else if day = "WE" then 4
  else if day = "TH" then 5
  else if day = "FR" then 6
  else if day = "SA" then 7
  else if day = "SU" then 1
  else 0

namespace RecurrenceRule

variable (cal : Calendar) (now : ℤ) (r : RecurrenceRule)

def getEndTime : ℤ :=
  match r.untilDateTime with
  | none => 0
  | some stamp => stampTime stamp

def getCount : ℤ := r.countNumber.getD 0

def getIntervalInt : ℤ := r.intervalNumber.bmod (2 ^ 32)

def field : CalendarField :=
  match r.frequency with
  | .secondly => .second
  | .minutely => .minute
  | .hourly => .hourOfDay
  | .daily => .dayOfMonth
  | .weekly => .weekOfYear
  | .monthly => .month
  | .yearly => .year

/-! ### The lists of the rule -/

/-- A list that names the values of a field, which is the test of `bySecondList`,
`byMinuteList` and `byHourList`. -/
def namesValue (list : List (List Char)) (value : ℤ) : Bool :=
  list = [] || list.contains (showInt value)

/-- A list of positions from the front, or from the back where they are negative, which is
the test of `byMonthDayList`, `byYearDayList` and `byWeekNoList`. -/
def namesPosition (list : List (List Char)) (current max : ℤ) : Bool :=
  list = [] || list.any fun str =>
    (0 < parseIntOrZero str && parseIntOrZero str = current) ||
      (parseIntOrZero str < 0 && parseIntOrZero str = current - max - 1)

/-- Whether the day is the one that the modifier counts within a month or a year, in the
weeks of it. -/
def isNthDay (modifier week day maxDay : ℤ) : Bool :=
  let dayPosCalc := day - (week - 1) * 7
  let currentPos := if dayPosCalc < 1 then week - 1 else week
  if 0 < modifier then currentPos = modifier
  else if modifier < 0 then
    let firstDay := if 0 < dayPosCalc then dayPosCalc else dayPosCalc + 7
    let totalDay := (maxDay - firstDay).tdiv 7 + 1
    currentPos - totalDay - 1 = modifier
  else true

def matchesDay (t : ℤ) (dayRule : List Char) : Option Bool :=
  if cal.get .dayOfWeek t = getCalendarDay (getDailyString dayRule) then
    (hasNumber dayRule).bind fun numbered =>
      if numbered && r.frequency = .monthly then
        (getDailyNumber dayRule).map fun modifier =>
          isNthDay modifier (cal.get .weekOfMonth t) (cal.get .dayOfMonth t)
            (cal.getActualMaximum .dayOfMonth t)
      else if numbered && r.frequency = .yearly then
        (getDailyNumber dayRule).map fun modifier =>
          isNthDay modifier (cal.get .weekOfYear t) (cal.get .dayOfYear t)
            (cal.getActualMaximum .dayOfYear t)
      else some true
  else some false

/-- `validByRule`: whether a time passes the lists of the rule, tested one after the other. -/
def validByRule (t : ℤ) : Option Bool :=
  if !namesValue r.bySecondList (cal.get .second t) then some false
  else if !namesValue r.byMinuteList (cal.get .minute t) then some false
  else if !namesValue r.byHourList (cal.get .hourOfDay t) then some false
  else
    (if r.byDayList = [] then some true else r.byDayList.anyM (r.matchesDay cal t)).map
      fun foundDay =>
        foundDay
          && namesPosition r.byMonthDayList (cal.get .dayOfMonth t)
            (cal.getActualMaximum .dayOfMonth t)
          && namesPosition r.byYearDayList (cal.get .dayOfYear t)
            (cal.getActualMaximum .dayOfYear t)
          && namesPosition r.byWeekNoList (cal.get .weekOfYear t)
            (cal.getActualMaximum .weekOfYear t)
          && (r.byMonthList = [] ||
            r.byMonthList.any fun str => parseIntOrZero str = cal.get .month t)

/-! ### The runs of the rule -/

/-- `getNextFreq`: adds the interval to the start until it is no longer before `fromTime`. -/
def getNextFreq (fuel : ℕ) (startTime fromTime : ℤ) : Outcome ℤ :=
  Outcome.loop (fun nextStartTime => .done <|
    if nextStartTime < fromTime then .inl (cal.add r.field r.getIntervalInt nextStartTime)
    else .inr nextStartTime) fuel startTime

/-- The loop of `next`, with the passes that its protection still allows. -/
def seek (fuel : ℕ) (startTime : ℤ) : ℕ → ℤ → Outcome ℤ
  | 0, _ => .done 0
  | n + 1, seekTime =>
    (r.getNextFreq cal fuel startTime seekTime).bind fun nextRun =>
      match r.validByRule cal nextRun with
      | none => .threw
      | some true => .done nextRun
      | some false => seek fuel startTime n nextRun

def maxLoop : ℕ := 10 * 10 * 10 * 10 * 10

def next (fuel : ℕ) (startTime fromTime currentCount : ℤ) : Outcome ℤ :=
  let startTime := if startTime = 0 then now else startTime
  let fromTime := if fromTime = 0 then startTime else fromTime
  if r.getEndTime ≠ 0 ∧ r.getEndTime ≤ now then .done 0
  else if r.getCount ≠ -1 ∧ r.getCount ≤ currentCount then .done 0
  else r.seek cal fuel startTime maxLoop fromTime

def isValid (fuel : ℕ) (startTime dateTime : ℤ) : Outcome Bool :=
  if startTime = dateTime then .done true
  else
    Outcome.loop (fun testTime =>
      if testTime < dateTime then
        (r.next cal now fuel startTime testTime 1).bind fun testTime =>
          .done (if testTime = dateTime then .inr true else .inl testTime)
      else .done (.inr false)) fuel startTime

/-! ### What the rule answers -/

def startOf (startTime : ℤ) : ℤ := if startTime = 0 then now else startTime

def fromOf (startTime fromTime : ℤ) : ℤ :=
  if fromTime = 0 then startOf now startTime else fromTime

def run (startTime : ℤ) (k : ℕ) : ℤ := (cal.add r.field r.getIntervalInt)^[k] startTime

def FirstRun (startTime fromTime t : ℤ) : Prop :=
  ∃ k, r.run cal startTime k = t ∧ fromTime ≤ t ∧ ∀ j < k, r.run cal startTime j < fromTime

def Active (currentCount : ℤ) : Prop :=
  (r.getEndTime = 0 ∨ now < r.getEndTime) ∧ (r.getCount = -1 ∨ currentCount < r.getCount)

/-- The first run that is not before `fromTime` passes the lists of a rule that is active. -/
def ValidRun (startTime fromTime currentCount t : ℤ) : Prop :=
  r.Active now currentCount ∧ r.FirstRun cal startTime fromTime t ∧
    r.validByRule cal t = some true

/-- What `next` answers: the first run that is not before `fromTime` where it passes the lists,
and `0` where it does not. -/
inductive Answers (startTime fromTime currentCount : ℤ) : ℤ → Prop
  | inactive (h : ¬ r.Active now currentCount) : Answers startTime fromTime currentCount 0
  | valid {t : ℤ} (h : r.ValidRun cal now startTime fromTime currentCount t) :
      Answers startTime fromTime currentCount t
  | invalid {t : ℤ} (hactive : r.Active now currentCount)
      (hrun : r.FirstRun cal startTime fromTime t) (h : r.validByRule cal t = some false) :
      Answers startTime fromTime currentCount 0

variable {cal now r} {fuel n : ℕ} {startTime fromTime dateTime currentCount t t' : ℤ}

theorem FirstRun.unique (h : r.FirstRun cal startTime fromTime t)
    (h' : r.FirstRun cal startTime fromTime t') : t = t' := by
  obtain ⟨k, rfl, hle, hlt⟩ := h
  obtain ⟨k', rfl, hle', hlt'⟩ := h'
  obtain hk | rfl | hk := lt_trichotomy k k'
  · exact absurd (hlt' k hk) (not_lt.mpr hle)
  · rfl
  · exact absurd (hlt k' hk) (not_lt.mpr hle')

theorem firstRun_iff_of_le (h : fromTime ≤ startTime) :
    r.FirstRun cal startTime fromTime t ↔ t = startTime := by
  have hstart : r.FirstRun cal startTime fromTime startTime := ⟨0, rfl, h, fun j hj => by omega⟩
  exact ⟨fun ht => ht.unique hstart, fun ht => ht ▸ hstart⟩

theorem FirstRun.start_le (h : r.FirstRun cal startTime fromTime t) : startTime ≤ t := by
  obtain ⟨k, rfl, hle, hlt⟩ := h
  cases k with
  | zero => exact le_refl _
  | succ k => exact le_of_lt (lt_of_lt_of_le (hlt 0 k.succ_pos) hle)

theorem FirstRun.le (h : r.FirstRun cal startTime fromTime t) : fromTime ≤ t := by
  obtain ⟨k, -, hle, -⟩ := h
  exact hle

theorem firstRun_of_getNextFreq (h : r.getNextFreq cal fuel startTime fromTime = .done t) :
    r.FirstRun cal startTime fromTime t := by
  -- The loop stands at a run, and all runs before it are before `fromTime`.
  refine Outcome.of_loop_eq_done
    (I := fun s => ∃ k, r.run cal startTime k = s ∧ ∀ j < k, r.run cal startTime j < fromTime)
    ?_ ?_ ⟨0, rfl, fun j hj => by omega⟩ h
  · rintro s s' ⟨k, rfl, hlt⟩ hs
    by_cases hguard : r.run cal startTime k < fromTime
    · rw [if_pos hguard] at hs
      obtain rfl := Sum.inl.inj (Outcome.done.inj hs)
      refine ⟨k + 1, Function.iterate_succ_apply' _ _ _, fun j hj => ?_⟩
      obtain hj | rfl := Nat.lt_succ_iff_lt_or_eq.mp hj
      · exact hlt j hj
      · exact hguard
    · rw [if_neg hguard] at hs
      exact absurd (Outcome.done.inj hs) (by simp)
  · rintro s b ⟨k, rfl, hlt⟩ hs
    by_cases hguard : r.run cal startTime k < fromTime
    · rw [if_pos hguard] at hs
      exact absurd (Outcome.done.inj hs) (by simp)
    · rw [if_neg hguard] at hs
      obtain rfl := Sum.inr.inj (Outcome.done.inj hs)
      exact ⟨k, rfl, not_lt.mp hguard, hlt⟩

theorem exists_getNextFreq (h : r.FirstRun cal startTime fromTime t) :
    ∃ m, ∀ fuel ≥ m, r.getNextFreq cal fuel startTime fromTime = .done t := by
  obtain ⟨k, rfl, hle, hlt⟩ := h
  -- From the run `j`, the passes up to the run `k` and one more are enough.
  have hloop : ∀ i j fuel, i + j = k → i < fuel →
      Outcome.loop (fun s => .done <|
        if s < fromTime then .inl (cal.add r.field r.getIntervalInt s) else .inr s)
        fuel (r.run cal startTime j) = .done (r.run cal startTime k) := by
    intro i
    induction i with
    | zero =>
      intro j fuel hj hfuel
      obtain ⟨fuel, rfl⟩ := Nat.exists_eq_succ_of_ne_zero (Nat.ne_of_gt hfuel)
      obtain rfl : j = k := by omega
      exact Outcome.loop_succ_of_inr (by rw [if_neg (not_lt.mpr hle)])
    | succ i ih =>
      intro j fuel hj hfuel
      obtain ⟨fuel, rfl⟩ := Nat.exists_eq_succ_of_ne_zero (Nat.ne_of_gt (Nat.zero_lt_of_lt hfuel))
      have hstep : cal.add r.field r.getIntervalInt (r.run cal startTime j)
          = r.run cal startTime (j + 1) := (Function.iterate_succ_apply' _ _ _).symm
      rw [Outcome.loop_succ_of_inl (t := r.run cal startTime (j + 1))
        (by rw [if_pos (hlt j (by omega)), hstep])]
      exact ih (j + 1) fuel (by omega) (by omega)
  exact ⟨k + 1, fun fuel hfuel => hloop k 0 fuel (by omega) (by omega)⟩

theorem getNextFreq_self (h : r.getNextFreq cal fuel startTime fromTime = .done t) :
    r.getNextFreq cal fuel startTime t = .done t := by
  have hle : fromTime ≤ t := (firstRun_of_getNextFreq h).le
  unfold getNextFreq at h ⊢
  generalize startTime = s at h ⊢
  induction fuel generalizing s with
  | zero => exact absurd h (by simp [Outcome.loop])
  | succ fuel ih =>
    by_cases hs : s < fromTime
    · rw [Outcome.loop_succ_of_inl (by rw [if_pos hs])] at h
      rw [Outcome.loop_succ_of_inl (by rw [if_pos (lt_of_lt_of_le hs hle)])]
      exact ih _ h
    · rw [Outcome.loop_succ_of_inr (by rw [if_neg hs])] at h
      obtain rfl := Outcome.done.inj h
      exact Outcome.loop_succ_of_inr (by rw [if_neg (lt_irrefl s)])

/-- **A run that does not match holds up the search**, which gives up with `0`. -/
theorem seek_of_not_valid (h : r.getNextFreq cal fuel startTime fromTime = .done t)
    (hvalid : r.validByRule cal t = some false) :
    r.seek cal fuel startTime n fromTime = .done 0 := by
  induction n generalizing fromTime with
  | zero => rfl
  | succ n ih =>
    rw [seek, h]
    simp only [Outcome.bind, hvalid]
    exact ih (getNextFreq_self h)

theorem next_of_inactive (h : ¬ r.Active now currentCount) :
    r.next cal now fuel startTime fromTime currentCount = .done 0 := by
  have hlimits : (r.getEndTime ≠ 0 ∧ r.getEndTime ≤ now) ∨
      (r.getCount ≠ -1 ∧ r.getCount ≤ currentCount) := by
    unfold Active at h
    omega
  obtain hend | hcount := hlimits
  · rw [next, if_pos hend]
  · rw [next, if_pos hcount, ite_self]

theorem next_of_active (h : r.Active now currentCount) :
    r.next cal now fuel startTime fromTime currentCount
      = r.seek cal fuel (startOf now startTime) (maxLoop - 1 + 1)
          (fromOf now startTime fromTime) := by
  obtain ⟨hend, hcount⟩ := h
  rw [next, if_neg (by omega), if_neg (by omega)]
  rfl

theorem answers_next (h : r.next cal now fuel startTime fromTime currentCount = .done t) :
    r.Answers cal now (startOf now startTime) (fromOf now startTime fromTime) currentCount t := by
  by_cases hactive : r.Active now currentCount
  · rw [next_of_active hactive, seek, Outcome.bind_eq_done] at h
    obtain ⟨run, hrun, h⟩ := h
    have hfirst := firstRun_of_getNextFreq hrun
    cases hvalid : r.validByRule cal run with
    | none => simp [hvalid] at h
    | some b =>
      cases b with
      | true =>
        obtain rfl : run = t := by simpa [hvalid] using h
        exact .valid ⟨hactive, hfirst, hvalid⟩
      | false =>
        rw [hvalid] at h
        obtain rfl : (0 : ℤ) = t :=
          Outcome.done.inj ((seek_of_not_valid (getNextFreq_self hrun) hvalid).symm.trans h)
        exact .invalid hactive hfirst hvalid
  · obtain rfl : (0 : ℤ) = t := Outcome.done.inj ((next_of_inactive hactive).symm.trans h)
    exact .inactive hactive

theorem exists_next_of_answers (h : r.Answers cal now (startOf now startTime)
    (fromOf now startTime fromTime) currentCount t) :
    ∃ m, ∀ fuel ≥ m, r.next cal now fuel startTime fromTime currentCount = .done t := by
  cases h with
  | inactive h => exact ⟨0, fun fuel _ => next_of_inactive h⟩
  | valid h =>
    obtain ⟨hactive, hrun, hvalid⟩ := h
    obtain ⟨m, hm⟩ := exists_getNextFreq hrun
    refine ⟨m, fun fuel hfuel => ?_⟩
    rw [next_of_active hactive, seek, hm fuel hfuel]
    simp only [Outcome.bind, hvalid]
  | invalid hactive hrun hvalid =>
    obtain ⟨m, hm⟩ := exists_getNextFreq hrun
    refine ⟨m, fun fuel hfuel => ?_⟩
    rw [next_of_active hactive]
    exact seek_of_not_valid (hm fuel hfuel) hvalid

theorem startOf_of_ne (hstart : startTime ≠ 0) : startOf now startTime = startTime :=
  if_neg hstart

theorem fromOf_of_ne (hfrom : fromTime ≠ 0) : fromOf now startTime fromTime = fromTime :=
  if_neg hfrom

theorem answers_of_next (hstart : startTime ≠ 0) (hfrom : fromTime ≠ 0)
    (h : r.next cal now fuel startTime fromTime currentCount = .done t) :
    r.Answers cal now startTime fromTime currentCount t := by
  have hanswer := answers_next h
  rwa [startOf_of_ne hstart, fromOf_of_ne hfrom] at hanswer

theorem exists_next (hstart : startTime ≠ 0) (hfrom : fromTime ≠ 0)
    (h : r.Answers cal now startTime fromTime currentCount t) :
    ∃ m, ∀ fuel ≥ m, r.next cal now fuel startTime fromTime currentCount = .done t :=
  exists_next_of_answers (by rwa [startOf_of_ne hstart, fromOf_of_ne hfrom])

theorem Answers.eq_start_or_zero (h : r.Answers cal now startTime startTime currentCount t) :
    t = startTime ∨ t = 0 := by
  cases h with
  | inactive _ => exact Or.inr rfl
  | valid h => exact Or.inl ((firstRun_iff_of_le (le_refl _)).mp h.2.1)
  | invalid _ _ _ => exact Or.inr rfl

theorem isValid_start : r.isValid cal now fuel startTime startTime = .done true := by
  rw [isValid, if_pos rfl]

theorem isValid_of_lt (h : dateTime < startTime) :
    r.isValid cal now (fuel + 1) startTime dateTime = .done false := by
  rw [isValid, if_neg (ne_of_gt h)]
  exact Outcome.loop_succ_of_inr (by rw [if_neg (not_lt.mpr (le_of_lt h))])

/-- **`isValid` never ends for a time after the start.** -/
theorem isValid_ne_done {b : Bool} (hstart : 0 < startTime) (h : startTime < dateTime) :
    r.isValid cal now fuel startTime dateTime ≠ .done b := by
  rw [isValid, if_neg (ne_of_lt h)]
  -- The test time stays at the start or at `0`, which `next` reads as the start.
  refine Outcome.loop_ne_done (I := fun s => s = startTime ∨ s = 0) ?_ (Or.inl rfl)
  rintro s res hs hres
  have hnext : r.next cal now fuel startTime s 1 = r.next cal now fuel startTime startTime 1 := by
    obtain rfl | rfl := hs
    · rfl
    · simp only [next, if_neg (ne_of_gt hstart), if_pos]
  rw [if_pos (by omega), Outcome.bind_eq_done] at hres
  obtain ⟨t, ht, hres⟩ := hres
  rw [hnext] at ht
  have ht' := (answers_of_next (ne_of_gt hstart) (ne_of_gt hstart) ht).eq_start_or_zero
  rw [if_neg (by omega)] at hres
  exact ⟨t, (Outcome.done.inj hres).symm, ht'⟩

end RecurrenceRule

end OfficeAuto.Service
