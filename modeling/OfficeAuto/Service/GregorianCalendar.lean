import OfficeAuto.Service.TemporalExpression

/-!
# The Gregorian calendar in UTC

A calendar as the expressions use it, without daylight saving time and without the days that the
reform of 1582 left out. A day is its number from the first of January 1970 on, and a month its
number from January of the year 0 on. `monthStart` is the first day of a month, and `monthOf`
the month of a day (`monthOf_spec`).
-/

namespace OfficeAuto.Service.Gregorian

/-! ### Months -/

/-- The number of the first of March. The year begins with it, so that its last day is the leap
day. -/
def yearStart (year : ℤ) : ℤ := 365 * year + year / 4 - year / 100 + year / 400 - 719468

def monthStart (month : ℤ) : ℤ :=
  yearStart ((month - 2) / 12) + (153 * ((month - 2) % 12) + 2) / 5

/-- The month of a day: the mean length of a month leads to it or to one next to it. -/
def monthOf (day : ℤ) : ℤ :=
  let month := (4800 * (day + 719468)) / 146097 + 2
  if day < monthStart month then month - 1
  else if monthStart (month + 1) ≤ day then month + 1
  else month

theorem yearStart_succ (year : ℤ) :
    yearStart year + 365 ≤ yearStart (year + 1) ∧ yearStart (year + 1) ≤ yearStart year + 366 := by
  -- A year that ends a century is a fourth one, and a leap century is a fourth century.
  have hcentury : ∀ y : ℤ, y / 100 = y / 4 / 25 := fun y => by omega
  have hcycle : ∀ y : ℤ, y / 400 = y / 4 / 25 / 4 := fun y => by omega
  rw [yearStart, yearStart, hcentury, hcycle, hcentury, hcycle]
  omega

theorem monthStart_succ (month : ℤ) :
    monthStart month + 28 ≤ monthStart (month + 1) ∧
      monthStart (month + 1) ≤ monthStart month + 31 := by
  have hyear := yearStart_succ ((month - 2) / 12)
  obtain h | h : (month - 2) % 12 = 11 ∨ (month - 2) % 12 < 11 := by omega
  · have hnext : (month + 1 - 2) / 12 = (month - 2) / 12 + 1 := by omega
    rw [monthStart, monthStart, hnext]
    omega
  · have hnext : (month + 1 - 2) / 12 = (month - 2) / 12 := by omega
    rw [monthStart, monthStart, hnext]
    omega

theorem monthOf_spec (day : ℤ) :
    monthStart (monthOf day) ≤ day ∧ day < monthStart (monthOf day + 1) := by
  have h : monthStart ((4800 * (day + 719468)) / 146097 + 2 - 1) ≤ day ∧
      day < monthStart ((4800 * (day + 719468)) / 146097 + 2 + 2) := by
    dsimp only [monthStart, yearStart]
    omega
  unfold monthOf
  dsimp only
  split_ifs with hbefore hafter
  · exact ⟨h.1, by simpa using hbefore⟩
  · exact ⟨hafter, by rw [add_assoc]; exact h.2⟩
  · exact ⟨not_lt.mp hbefore, not_le.mp hafter⟩

/-! ### Times -/

def dayOf (t : ℤ) : ℤ := t / 86400000

def timeOf (t : ℤ) : ℤ := t % 86400000

def dayOfMonth (t : ℤ) : ℤ := dayOf t - monthStart (monthOf (dayOf t)) + 1

def monthLength (month : ℤ) : ℤ := monthStart (month + 1) - monthStart month

def addMonths (amount t : ℤ) : ℤ :=
  let month := monthOf (dayOf t) + amount
  (monthStart month + min (dayOfMonth t) (monthLength month) - 1) * 86400000 + timeOf t

/-- The fields that the expressions do not ask for are `0`, and those that they do not set are
left. -/
def calendar : SettableCalendar where
  get field t :=
    match field with
    | .second => t / 1000 % 60
    | .minute => t / 60000 % 60
    | .hourOfDay => t / 3600000 % 24
    | .dayOfWeek => (dayOf t + 4) % 7 + 1
    | .dayOfMonth => dayOfMonth t
    | .month => monthOf (dayOf t) % 12
    | .year => monthOf (dayOf t) / 12
    | .weekOfMonth | .weekOfYear | .dayOfYear => 0
  add field amount t :=
    match field with
    | .second => t + 1000 * amount
    | .minute => t + 60000 * amount
    | .hourOfDay => t + 3600000 * amount
    | .dayOfWeek | .dayOfMonth | .dayOfYear => t + 86400000 * amount
    | .weekOfMonth | .weekOfYear => t + 604800000 * amount
    | .month => addMonths amount t
    | .year => addMonths (12 * amount) t
  getActualMaximum field t :=
    match field with
    | .second | .minute => 59
    | .hourOfDay => 23
    | .dayOfWeek => 7
    | .dayOfMonth => monthLength (monthOf (dayOf t))
    | .month => 11
    | .weekOfMonth | .weekOfYear | .dayOfYear | .year => 0
  set field value t :=
    match field with
    | .minute => t + 60000 * (value - t / 60000 % 60)
    | .hourOfDay => t + 3600000 * (value - t / 3600000 % 24)
    | .dayOfMonth => t + 86400000 * (value - dayOfMonth t)
    | _ => t

end OfficeAuto.Service.Gregorian
