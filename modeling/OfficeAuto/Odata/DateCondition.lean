import OfficeAuto.Entity.Agreement
import Mathlib.Algebra.Ring.Nat

/-!
# Dates compared with times

A property may be a date to a client while its column holds a time. `convertDateToTime` of the
expression visitor turns the comparison with a date into one or two comparisons with the start and
the end of a day, as `UtilDateTime` computes them. The end of a day is the start of its last second.

**The comparisons are consistent** (`Consistent`) if equality is to be on the day, exactly one of
less, equal and greater holds, and the other three are made of these. They are so exactly at the
times that are not in the last second of the day, on a clock that does not jump at the ends of the
day (`consistent_iff`).
-/

namespace OfficeAuto.Odata

open Entity Decimal

/-! ### Times -/

def nanos (t : Timestamp) : ℤ := t.getTime * 1000000 + t.nanosBelow

theorem compareTo_timestamp (t u : Timestamp) :
    (Value.timestamp t).compareTo (.timestamp u) = some (compare (nanos t) (nanos u)) := by
  have ht := t.nanos_lt
  have hu := u.nanos_lt
  rw [Value.compareTo, Option.some.injEq, nanos, nanos]
  rcases lt_trichotomy t.getTime u.getTime with hlt | heq | hgt
  · have hnanos : t.getTime * 1000000 + t.nanosBelow < u.getTime * 1000000 + u.nanosBelow := by
      omega
    rw [compare_lt_iff_lt.mpr hlt, compare_lt_iff_lt.mpr hnanos]
    rfl
  · rw [compare_eq_iff_eq.mpr heq, heq, Ordering.then]
    rcases lt_trichotomy t.nanosBelow u.nanosBelow with hlt | heq | hgt
    · rw [compare_lt_iff_lt.mpr hlt, compare_lt_iff_lt.mpr (by omega)]
    · rw [compare_eq_iff_eq.mpr heq, compare_eq_iff_eq.mpr (by omega)]
    · rw [compare_gt_iff_gt.mpr hgt, compare_gt_iff_gt.mpr (by omega)]
  · have hnanos : u.getTime * 1000000 + u.nanosBelow < t.getTime * 1000000 + t.nanosBelow := by
      omega
    rw [compare_gt_iff_gt.mpr hgt, compare_gt_iff_gt.mpr hnanos]
    rfl

/-! ### Days -/

/-- The calendar class in its time zone: what the clock on the wall reads at a time, and the time
that a calendar comes to when it is set to a reading. Both are in milliseconds. -/
structure WallClock where
  reading : ℤ → ℤ
  timeOf : ℤ → ℤ

def WallClock.day (clock : WallClock) (time : ℤ) : ℤ := clock.reading time / 86400000

/-- `tempCal.set(year, month, day, hour, minute, second)` with the day that the calendar has. The
milliseconds stay. -/
def WallClock.set (clock : WallClock) (time hour minute second : ℤ) : ℤ :=
  clock.timeOf (clock.day time * 86400000 + hour * 3600000 + minute * 60000 + second * 1000 +
    clock.reading time % 1000)

def toLong (n : ℤ) : ℤ := n.bmod (2 ^ 64)

theorem isLong_toLong (n : ℤ) : Decimal.IsLong (toLong n) := by
  have hlower := Int.le_bmod (x := n) (m := 2 ^ 64) (by decide)
  have hupper := Int.bmod_lt (x := n) (m := 2 ^ 64) (by decide)
  rw [Decimal.IsLong, toLong]
  omega

def wholeSecond (time : ℤ) : Timestamp := .ofMillis (toLong (time / 1000 * 1000)) (isLong_toLong _)

/-- `UtilDateTime.getDayStart` -/
def getDayStart (clock : WallClock) (time : ℤ) : Timestamp := wholeSecond (clock.set time 0 0 0)

/-- `UtilDateTime.getDayEnd` -/
def getDayEnd (clock : WallClock) (time : ℤ) : Timestamp := wholeSecond (clock.set time 23 59 59)

/-! ### Conditions -/

/-- `BinaryOperatorKind` -/
inductive BinaryOperatorKind
  | has
  | isIn
  | mul
  | div
  | mod
  | add
  | sub
  | gt
  | ge
  | lt
  | le
  | eq
  | ne
  | and
  | or
  deriving DecidableEq, Repr

def timeCondition (propertyName : FieldName) (operator : ComparableOperator) (time : Timestamp) :
    EntityCondition :=
  .comparable ⟨propertyName, operator, .value (.timestamp time), fun h => Bool.noConfusion h⟩

/-- **`convertDateToTime`** -/
def convertDateToTime (clock : WallClock) (propertyName : FieldName) (date : ℤ)
    (operator : BinaryOperatorKind) : Option EntityCondition :=
  let dayStart := getDayStart clock date
  let dayEnd := getDayEnd clock date
  let startCond := timeCondition propertyName .greaterThanEqualTo dayStart
  let endCond := timeCondition propertyName .lessThanEqualTo dayEnd
  match operator with
  | .eq => some (.list [startCond, endCond] .and)
  | .gt => some (timeCondition propertyName .greaterThan dayEnd)
  | .ge =>
    let gtCond := timeCondition propertyName .greaterThan dayEnd
    let eqCond := .list [startCond, endCond] .and
    some (.list [eqCond, gtCond] .or)
  | .lt => some (timeCondition propertyName .lessThan dayStart)
  | .le =>
    let ltCond := timeCondition propertyName .lessThan dayStart
    let eqCond := .list [startCond, endCond] .and
    some (.list [eqCond, ltCond] .or)
  | .ne =>
    let neStartCond := timeCondition propertyName .lessThan dayStart
    let neEndCond := timeCondition propertyName .greaterThanEqualTo dayEnd
    some (.list [neStartCond, neEndCond] .or)
  | _ => none

def Selects (clock : WallClock) (propertyName : FieldName) (date : ℤ) (row : Row)
    (operator : BinaryOperatorKind) : Prop :=
  ∃ condition, convertDateToTime clock propertyName date operator = some condition ∧
    selects row condition.makeWhereString = true

/-! ### What the conditions select -/

section Selects

variable {clock : WallClock} {propertyName : FieldName} {date : ℤ} {row : Row} {t : Timestamp}

theorem eval_timeCondition {operator : ComparableOperator} {keeps : Ordering → Bool}
    (hop : ∀ u v, operator.sql u v = sqlCompare keeps u v) (time : Timestamp)
    (hrow : row propertyName = some (.timestamp t)) :
    (Sql.compare operator propertyName (.param (some (.timestamp time)))).eval row = .true ↔
      keeps (compare (nanos t) (nanos time)) = true := by
  rw [Sql.eval, hop, hrow, SqlOperand.eval, sqlCompare, compareTo_timestamp, Option.map_some,
    Kleene.ofOption_eq_true, Option.some.injEq]

variable (hrow : row propertyName = some (.timestamp t))
include hrow

theorem eval_before (time : Timestamp) :
    (Sql.compare .lessThan propertyName (.param (some (.timestamp time)))).eval row = .true ↔
      nanos t < nanos time := by
  rw [eval_timeCondition (fun _ _ => rfl) time hrow, Ordering.isLT_iff_eq_lt, compare_lt_iff_lt]

theorem eval_after (time : Timestamp) :
    (Sql.compare .greaterThan propertyName (.param (some (.timestamp time)))).eval row = .true ↔
      nanos time < nanos t := by
  rw [eval_timeCondition (fun _ _ => rfl) time hrow, Ordering.isGT_iff_eq_gt, compare_gt_iff_gt]

theorem eval_upTo (time : Timestamp) :
    (Sql.compare .lessThanEqualTo propertyName (.param (some (.timestamp time)))).eval row =
      .true ↔ nanos t ≤ nanos time := by
  rw [eval_timeCondition (fun _ _ => rfl) time hrow, ← compare_le_iff_le]
  exact Ordering.isLE_iff_ne_gt

theorem eval_from (time : Timestamp) :
    (Sql.compare .greaterThanEqualTo propertyName (.param (some (.timestamp time)))).eval row =
      .true ↔ nanos time ≤ nanos t := by
  rw [eval_timeCondition (fun _ _ => rfl) time hrow, ← compare_ge_iff_ge]
  exact Ordering.isGE_iff_ne_lt

omit hrow in
theorem selects_iff_eval {operator : BinaryOperatorKind} {condition : EntityCondition} {sql : Sql}
    (hmake : convertDateToTime clock propertyName date operator = some condition)
    (htext : condition.HasText) (hsql : condition.toSql = some sql) :
    Selects clock propertyName date row operator ↔ sql.eval row = .true := by
  simp [Selects, hmake, EntityCondition.selects_makeWhereString htext, hsql]

theorem selects_lt :
    Selects clock propertyName date row .lt ↔ nanos t < nanos (getDayStart clock date) := by
  have hmake : convertDateToTime clock propertyName date .lt =
      some (timeCondition propertyName .lessThan (getDayStart clock date)) := rfl
  rw [selects_iff_eval hmake trivial rfl]
  exact eval_before hrow _

theorem selects_gt :
    Selects clock propertyName date row .gt ↔ nanos (getDayEnd clock date) < nanos t := by
  have hmake : convertDateToTime clock propertyName date .gt =
      some (timeCondition propertyName .greaterThan (getDayEnd clock date)) := rfl
  rw [selects_iff_eval hmake trivial rfl]
  exact eval_after hrow _

theorem eval_onDay :
    (Sql.and (.compare .greaterThanEqualTo propertyName
        (.param (some (.timestamp (getDayStart clock date)))))
      (.compare .lessThanEqualTo propertyName
        (.param (some (.timestamp (getDayEnd clock date)))))).eval row = .true ↔
      nanos (getDayStart clock date) ≤ nanos t ∧ nanos t ≤ nanos (getDayEnd clock date) := by
  rw [Sql.eval, Kleene.and_eq_true, eval_from hrow, eval_upTo hrow]

theorem selects_eq :
    Selects clock propertyName date row .eq ↔
      nanos (getDayStart clock date) ≤ nanos t ∧ nanos t ≤ nanos (getDayEnd clock date) := by
  have hmake : convertDateToTime clock propertyName date .eq =
      some (.list [timeCondition propertyName .greaterThanEqualTo (getDayStart clock date),
        timeCondition propertyName .lessThanEqualTo (getDayEnd clock date)] .and) := rfl
  rw [selects_iff_eval hmake ⟨trivial, trivial, trivial⟩ rfl]
  exact eval_onDay hrow

theorem selects_ne :
    Selects clock propertyName date row .ne ↔
      nanos t < nanos (getDayStart clock date) ∨ nanos (getDayEnd clock date) ≤ nanos t := by
  have hmake : convertDateToTime clock propertyName date .ne =
      some (.list [timeCondition propertyName .lessThan (getDayStart clock date),
        timeCondition propertyName .greaterThanEqualTo (getDayEnd clock date)] .or) := rfl
  rw [selects_iff_eval hmake ⟨trivial, trivial, trivial⟩ rfl]
  exact Kleene.or_eq_true.trans (or_congr (eval_before hrow _) (eval_from hrow _))

theorem selects_le :
    Selects clock propertyName date row .le ↔
      Selects clock propertyName date row .lt ∨ Selects clock propertyName date row .eq := by
  have hmake : convertDateToTime clock propertyName date .le =
      some (.list [.list [timeCondition propertyName .greaterThanEqualTo (getDayStart clock date),
        timeCondition propertyName .lessThanEqualTo (getDayEnd clock date)] .and,
        timeCondition propertyName .lessThan (getDayStart clock date)] .or) := rfl
  rw [selects_iff_eval hmake ⟨⟨trivial, trivial, trivial⟩, trivial, trivial⟩ rfl, selects_lt hrow,
    selects_eq hrow, or_comm]
  exact Kleene.or_eq_true.trans (or_congr (eval_onDay hrow) (eval_before hrow _))

theorem selects_ge :
    Selects clock propertyName date row .ge ↔
      Selects clock propertyName date row .gt ∨ Selects clock propertyName date row .eq := by
  have hmake : convertDateToTime clock propertyName date .ge =
      some (.list [.list [timeCondition propertyName .greaterThanEqualTo (getDayStart clock date),
        timeCondition propertyName .lessThanEqualTo (getDayEnd clock date)] .and,
        timeCondition propertyName .greaterThan (getDayEnd clock date)] .or) := rfl
  rw [selects_iff_eval hmake ⟨⟨trivial, trivial, trivial⟩, trivial, trivial⟩ rfl, selects_gt hrow,
    selects_eq hrow, or_comm]
  exact Kleene.or_eq_true.trans (or_congr (eval_onDay hrow) (eval_after hrow _))

end Selects

/-! ### Consistent comparisons -/

def OnDay (clock : WallClock) (date : ℤ) (t : Timestamp) : Prop :=
  clock.day t.getTime = clock.day date

def holding (propertyName : FieldName) (row : Row) (t : Timestamp) : Row :=
  Function.update row propertyName (some (.timestamp t))

def ExactlyOne (p q r : Prop) : Prop := (p ∧ ¬ q ∧ ¬ r) ∨ (¬ p ∧ q ∧ ¬ r) ∨ (¬ p ∧ ¬ q ∧ r)

/-- **The comparisons of a time with a date are those of days.** -/
structure Consistent (clock : WallClock) (propertyName : FieldName) (date : ℤ) (row : Row)
    (t : Timestamp) : Prop where
  eq : Selects clock propertyName date (holding propertyName row t) .eq ↔ OnDay clock date t
  partition : ExactlyOne (Selects clock propertyName date (holding propertyName row t) .lt)
    (Selects clock propertyName date (holding propertyName row t) .eq)
    (Selects clock propertyName date (holding propertyName row t) .gt)
  ne : Selects clock propertyName date (holding propertyName row t) .ne ↔
    ¬ Selects clock propertyName date (holding propertyName row t) .eq
  le : Selects clock propertyName date (holding propertyName row t) .le ↔
    Selects clock propertyName date (holding propertyName row t) .lt ∨
      Selects clock propertyName date (holding propertyName row t) .eq
  ge : Selects clock propertyName date (holding propertyName row t) .ge ↔
    Selects clock propertyName date (holding propertyName row t) .gt ∨
      Selects clock propertyName date (holding propertyName row t) .eq

def InLastSecond (clock : WallClock) (date : ℤ) (t : Timestamp) : Prop :=
  OnDay clock date t ∧ nanos (getDayEnd clock date) ≤ nanos t

/-- The clock jumps: the time is on the day before what counts as the start, or between the start
and the end without being on the day, or the end comes before the start. -/
def Displaced (clock : WallClock) (date : ℤ) (t : Timestamp) : Prop :=
  (OnDay clock date t ∧ nanos t < nanos (getDayStart clock date)) ∨
  (¬ OnDay clock date t ∧ nanos (getDayStart clock date) ≤ nanos t ∧
    nanos t ≤ nanos (getDayEnd clock date)) ∨
  (nanos (getDayEnd clock date) < nanos t ∧ nanos t < nanos (getDayStart clock date))

theorem consistent_iff (clock : WallClock) (propertyName : FieldName) (date : ℤ) (row : Row)
    (t : Timestamp) :
    Consistent clock propertyName date row t ↔
      ¬ InLastSecond clock date t ∧ ¬ Displaced clock date t := by
  have hrow : holding propertyName row t propertyName = some (.timestamp t) :=
    Function.update_self _ _ _
  constructor
  · rintro ⟨hday, hpartition, hnot, -, -⟩
    rw [selects_eq hrow] at hday hnot
    rw [selects_ne hrow] at hnot
    rw [ExactlyOne, selects_lt hrow, selects_eq hrow, selects_gt hrow] at hpartition
    rw [InLastSecond, Displaced, ← hday]
    omega
  · rintro ⟨hsecond, hjump⟩
    have hstart (hday : OnDay clock date t) : nanos (getDayStart clock date) ≤ nanos t :=
      not_lt.mp fun h => hjump (.inl ⟨hday, h⟩)
    have hend (hday : OnDay clock date t) : nanos t < nanos (getDayEnd clock date) :=
      not_le.mp fun h => hsecond ⟨hday, h⟩
    -- the clock may jump, so that a time between the ends need not be on the day
    have hday (h : nanos (getDayStart clock date) ≤ nanos t ∧
        nanos t ≤ nanos (getDayEnd clock date)) : OnDay clock date t :=
      by_contra fun hday => hjump (.inr (.inl ⟨hday, h⟩))
    have horder : ¬ (nanos (getDayEnd clock date) < nanos t ∧
        nanos t < nanos (getDayStart clock date)) := fun h => hjump (.inr (.inr h))
    refine ⟨?_, ?_, ?_, selects_le hrow, selects_ge hrow⟩
    · rw [selects_eq hrow]
      exact ⟨hday, fun h => ⟨hstart h, (hend h).le⟩⟩
    · rw [ExactlyOne, selects_lt hrow, selects_eq hrow, selects_gt hrow]
      omega
    · rw [selects_ne hrow, selects_eq hrow]
      constructor
      · rintro (hbefore | hafter) ⟨hfrom, hupTo⟩
        · exact absurd hfrom (not_le.mpr hbefore)
        · exact absurd hafter (not_le.mpr (hend (hday ⟨hfrom, hupTo⟩)))
      · intro hnot
        omega

/-! ### Clocks without jumps -/

/-- A time zone that is always some seconds ahead of the universal time. -/
def WallClock.fixed (offset : ℤ) : WallClock where
  reading time := time + offset * 1000
  timeOf reading := reading - offset * 1000

def IsInner (time : ℤ) : Prop :=
  Decimal.IsLong (time - 2 * 86400000) ∧ Decimal.IsLong (time + 2 * 86400000)

section Fixed

variable {offset date : ℤ}

theorem toLong_eq {n : ℤ} (h : Decimal.IsLong n) : toLong n = n := by
  obtain ⟨hlower, hupper⟩ := h
  rw [toLong, Int.bmod_eq_of_le (by omega) (by omega)]

theorem nanos_wholeSecond {time : ℤ} (h : Decimal.IsLong (time / 1000 * 1000)) :
    nanos (wholeSecond time) = time / 1000 * 1000 * 1000000 := by
  simp [nanos, wholeSecond, Timestamp.ofMillis, toLong_eq h]

theorem nanos_getDayEnd_fixed (h : IsInner date) :
    nanos (getDayEnd (.fixed offset) date) =
      ((WallClock.fixed offset).day date * 86400000 + 86399000 - offset * 1000) * 1000000 := by
  obtain ⟨hlower, hupper⟩ := h
  rw [Decimal.IsLong] at hlower hupper
  have hset : (WallClock.fixed offset).set date 23 59 59 / 1000 * 1000 =
      (WallClock.fixed offset).day date * 86400000 + 86399000 - offset * 1000 := by
    simp only [WallClock.set, WallClock.day, WallClock.fixed]
    omega
  have hday : (WallClock.fixed offset).day date * 86400000 ≤ date + offset * 1000 ∧
      date + offset * 1000 < (WallClock.fixed offset).day date * 86400000 + 86400000 := by
    simp only [WallClock.day, WallClock.fixed]
    omega
  rw [getDayEnd, nanos_wholeSecond, hset]
  rw [hset, Decimal.IsLong]
  omega

theorem onDay_fixed_iff {t : Timestamp} :
    OnDay (.fixed offset) date t ↔
      (WallClock.fixed offset).day date * 86400000 ≤ t.getTime + offset * 1000 ∧
        t.getTime + offset * 1000 < (WallClock.fixed offset).day date * 86400000 + 86400000 := by
  have hdiv : (WallClock.fixed offset).day t.getTime = (t.getTime + offset * 1000) / 86400000 := rfl
  rw [OnDay, hdiv]
  omega

theorem inLastSecond_fixed_iff (h : IsInner date) (t : Timestamp) :
    InLastSecond (.fixed offset) date t ↔
      (WallClock.fixed offset).day date * 86400000 + 86399000 ≤ t.getTime + offset * 1000 ∧
        t.getTime + offset * 1000 < (WallClock.fixed offset).day date * 86400000 + 86400000 := by
  have ht := t.nanos_lt
  rw [InLastSecond, onDay_fixed_iff, nanos_getDayEnd_fixed h, nanos]
  omega

end Fixed

/-! ### Half a second before midnight -/

def halfBeforeMidnight : Timestamp := .ofMillis 86399500 (by decide)

theorem not_consistent_halfBeforeMidnight :
    ¬ Consistent (.fixed 0) ['d'] 0 (fun _ => none) halfBeforeMidnight := by
  rw [consistent_iff]
  rintro ⟨hsecond, -⟩
  refine hsecond ((inLastSecond_fixed_iff ⟨by decide, by decide⟩ _).mpr ?_)
  decide

end OfficeAuto.Odata
