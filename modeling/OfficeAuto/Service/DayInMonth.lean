import Mathlib.Data.Nat.Count
import Mathlib.Order.Bounds.Basic
import Mathlib.Tactic.Ring
import OfficeAuto.Service.GregorianCalendar

/-!
# A day in the month

`DayInMonth` is the n-th weekday of a month, counted from its start or from its end. The code goes
to the first or the last such weekday of the month and from there in weeks, so it comes to one day
for every month (`aligned`); this day is the n-th one if it lies in the month (`isOccurrence_iff`).
For the fifth weekday it may lie in a month next to it. Then `includesDate` says no, but `first` and
`next` return the day all the same (`first_isLeast_iff`, `next_isLeast_iff`).

The calendar class keeps the time of the day where days and months are added. So a time is a day and
the time of the day, which is fixed here (`KeepsTime`).
-/

namespace OfficeAuto.Service

open Gregorian

/-! ### Days -/

def weekday (day : ℤ) : ℤ := (day + 4) % 7 + 1

/-- `moment day` is one time of the day on every day, and the calendar keeps it. -/
structure KeepsTime (K : SettableCalendar) (moment : ℤ → ℤ) : Prop where
  lt_iff_lt : ∀ {day day' : ℤ}, moment day < moment day' ↔ day < day'
  getDayOfWeek : ∀ day, K.get .dayOfWeek (moment day) = weekday day
  getDayOfMonth : ∀ day, K.get .dayOfMonth (moment day) = day - monthStart (monthOf day) + 1
  getMonth : ∀ day, K.get .month (moment day) = monthOf day % 12
  setDayOfMonth : ∀ day, K.set .dayOfMonth 1 (moment day) = moment (monthStart (monthOf day))
  addDayOfMonth : ∀ amount day, K.add .dayOfMonth amount (moment day) = moment (day + amount)
  addMonth : ∀ month, K.add .month 1 (moment (monthStart month)) = moment (monthStart (month + 1))

section

variable {K : SettableCalendar} {moment : ℤ → ℤ} {day day' : ℤ}

theorem KeepsTime.le_iff_le (h : KeepsTime K moment) : moment day ≤ moment day' ↔ day ≤ day' := by
  rw [← not_lt, ← not_lt, h.lt_iff_lt]

theorem KeepsTime.injective (h : KeepsTime K moment) (heq : moment day = moment day') :
    day = day' :=
  Int.le_antisymm (h.le_iff_le.mp heq.le) (h.le_iff_le.mp heq.ge)

end

theorem monthStart_lt_iff {month month' : ℤ} :
    monthStart month < monthStart month' ↔ month < month' := by
  have hmono : StrictMono monthStart := strictMono_int_of_lt_succ fun month => by
    have hlength := monthStart_succ month
    omega
  exact hmono.lt_iff_lt

theorem monthOf_eq {day month : ℤ} (h : monthStart month ≤ day)
    (h' : day < monthStart (month + 1)) : monthOf day = month := by
  obtain ⟨hstart, hend⟩ := monthOf_spec day
  have hle := monthStart_lt_iff.mp (lt_of_le_of_lt h hend)
  have hge := monthStart_lt_iff.mp (lt_of_le_of_lt hstart h')
  omega

theorem monthOf_monthStart (month : ℤ) : monthOf (monthStart month) = month :=
  monthOf_eq le_rfl (monthStart_lt_iff.mpr (by omega))

/-! ### Occurrences -/

def countFromStart (day : ℤ) : ℕ :=
  Nat.count (fun i : ℕ => weekday (day - i) = weekday day)
    (day - monthStart (monthOf day) + 1).toNat

def countToEnd (day : ℤ) : ℕ :=
  Nat.count (fun i : ℕ => weekday (day + i) = weekday day)
    (monthStart (monthOf day + 1) - day).toNat

theorem count_weeks {p : ℕ → Prop} [DecidablePred p] (hp : ∀ i, p i ↔ i % 7 = 0) (n : ℕ) :
    Nat.count p (n + 1) = n / 7 + 1 := by
  induction n with
  | zero => simp [Nat.count_succ, hp]
  | succ n ih =>
    rw [Nat.count_succ, ih]
    split_ifs with h
    · have hmod := (hp (n + 1)).mp h
      omega
    · have hmod := (hp (n + 1)).not.mp h
      omega

theorem countFromStart_eq (day : ℤ) :
    (countFromStart day : ℤ) = (day - monthStart (monthOf day)) / 7 + 1 := by
  have hstart := (monthOf_spec day).1
  obtain ⟨n, hn⟩ := Int.eq_ofNat_of_zero_le (Int.sub_nonneg_of_le hstart)
  have hcount := count_weeks (p := fun i : ℕ => weekday (day - i) = weekday day) (fun i => by
    unfold weekday
    omega) n
  have hlength : (day - monthStart (monthOf day) + 1).toNat = n + 1 := by omega
  rw [countFromStart, hlength, hcount, hn]
  rfl

theorem countToEnd_eq (day : ℤ) :
    (countToEnd day : ℤ) = (monthStart (monthOf day + 1) - 1 - day) / 7 + 1 := by
  have hend := (monthOf_spec day).2
  obtain ⟨n, hn⟩ := Int.eq_ofNat_of_zero_le (Int.sub_nonneg_of_le (Int.le_sub_one_of_lt hend))
  have hcount := count_weeks (p := fun i : ℕ => weekday (day + i) = weekday day) (fun i => by
    unfold weekday
    omega) n
  have hlength : (monthStart (monthOf day + 1) - day).toNat = n + 1 := by omega
  rw [countToEnd, hlength, hcount, hn]
  rfl

namespace DayInMonth

variable (e : DayInMonth)

/-- The day is the n-th of its weekday in the month, from the start or from the end. -/
def IsOccurrence (day : ℤ) : Prop :=
  weekday day = e.dayOfWeek ∧
    if 0 < e.occurrence then countFromStart day = e.occurrence else countToEnd day = -e.occurrence

instance (day : ℤ) : Decidable (e.IsOccurrence day) := inferInstanceAs (Decidable (_ ∧ _))

def aligned (month : ℤ) : ℤ :=
  if 0 < e.occurrence then
    monthStart month + (e.dayOfWeek - weekday (monthStart month)) % 7 + (e.occurrence - 1) * 7
  else
    monthStart (month + 1) - 1 - (weekday (monthStart (month + 1) - 1) - e.dayOfWeek) % 7 +
      (e.occurrence + 1) * 7

variable {e} {K : SettableCalendar} {moment : ℤ → ℤ} {n : ℕ} {day month : ℤ}

theorem isOccurrence_iff : e.IsOccurrence day ↔ e.aligned (monthOf day) = day := by
  obtain ⟨hstart, hend⟩ := monthOf_spec day
  have hday := e.isDay
  rw [IsOccurrence, aligned]
  split_ifs with hpos
  · rw [countFromStart_eq]
    unfold weekday
    omega
  · rw [countToEnd_eq]
    unfold weekday
    omega

theorem aligned_lt_iff {month month' : ℤ} :
    e.aligned month < e.aligned month' ↔ month < month' := by
  have hmono : StrictMono e.aligned := strictMono_int_of_lt_succ fun month => by
    have hlength := monthStart_succ month
    have hlength' := monthStart_succ (month + 1)
    rw [aligned, aligned]
    split_ifs <;> omega
  exact hmono.lt_iff_lt

theorem aligned_le {month month' : ℤ} (h : month ≤ month') :
    e.aligned month ≤ e.aligned month' :=
  not_lt.mp fun hlt => not_lt.mpr h (aligned_lt_iff.mp hlt)

theorem aligned_bounds (month : ℤ) :
    monthStart month - 7 ≤ e.aligned month ∧ e.aligned month < monthStart (month + 1) + 7 := by
  have hlength := monthStart_succ month
  have hbounds := e.isOccurrence
  rw [aligned]
  split_ifs <;> omega

/-! ### The alignment -/

theorem seek_moment (h : KeepsTime K moment) (step : ℤ) (distance : ℤ → ℕ)
    (hzero : ∀ day, weekday day = e.dayOfWeek ↔ distance day = 0)
    (hsucc : ∀ day k, distance day = k + 1 → distance (day + step) = k) (day : ℤ)
    (hn : distance day < n) :
    seek n (fun t => .done (e.isDayOfWeek K t)) (K.add .dayOfMonth step) (moment day) =
      .done (moment (day + step * distance day)) := by
  -- The induction is on the distance to the day that is sought.
  generalize hk : distance day = k at hn ⊢
  induction k generalizing day n with
  | zero =>
    obtain ⟨n, rfl⟩ := Nat.exists_eq_add_one.mpr hn
    have hthere : e.isDayOfWeek K (moment day) = true := by
      rw [isDayOfWeek, h.getDayOfWeek, (hzero day).mpr hk, beq_self_eq_true]
    rw [seek, Outcome.loop_succ_of_inr (b := moment day) (by rw [hthere]; rfl)]
    simp
  | succ k ih =>
    obtain ⟨n, rfl⟩ := Nat.exists_eq_add_one.mpr (Nat.zero_lt_of_lt hn)
    have hnot : e.isDayOfWeek K (moment day) = false := by
      rw [isDayOfWeek, h.getDayOfWeek, beq_eq_false_iff_ne]
      intro hday
      rw [(hzero day).mp hday] at hk
      exact absurd hk (Nat.succ_ne_zero k).symm
    have hbody : (Outcome.done (e.isDayOfWeek K (moment day))).bind (fun b =>
        .done (if b then .inr (moment day) else .inl (K.add .dayOfMonth step (moment day)))) =
        (.done (.inl (moment (day + step))) : Outcome (ℤ ⊕ ℤ)) := by
      rw [hnot, h.addDayOfMonth]
      rfl
    have hday : day + step * (k + 1 : ℕ) = day + step + step * k := by
      push_cast
      ring
    rw [seek, Outcome.loop_succ_of_inl hbody, ← seek, hday]
    exact ih (day + step) (hsucc day k hk) (Nat.lt_of_succ_lt_succ hn)

theorem alignDayOfWeek_moment (h : KeepsTime K moment) (hn : 7 ≤ n) (day : ℤ) :
    e.alignDayOfWeek K n (moment day) = .done (moment (e.aligned (monthOf day))) := by
  have hday := e.isDay
  rw [alignDayOfWeek, aligned]
  dsimp only
  rw [h.setDayOfMonth]
  split_ifs with hpos
  · rw [seek_moment h 1 (fun day => ((e.dayOfWeek - weekday day) % 7).toNat)
      (fun day => by
        unfold weekday
        omega)
      (fun day k => by
        unfold weekday
        omega) (monthStart (monthOf day)) (by omega)]
    simp only [Outcome.bind, h.addDayOfMonth]
    congr 2
    omega
  · rw [h.addMonth, h.addDayOfMonth, seek_moment h (-1)
      (fun day => ((weekday day - e.dayOfWeek) % 7).toNat)
      (fun day => by
        unfold weekday
        omega)
      (fun day k => by
        unfold weekday
        omega) (monthStart (monthOf day + 1) + -1) (by omega)]
    simp only [Outcome.bind, h.addDayOfMonth]
    congr 2
    rw [← Int.sub_eq_add_neg]
    omega

theorem monthOf_mono {day day' : ℤ} (h : day ≤ day') : monthOf day ≤ monthOf day' := by
  by_contra hlt
  have hnext : ¬ monthStart (monthOf day) < monthStart (monthOf day' + 1) := by
    rw [monthStart_lt_iff]
    omega
  have hend := (monthOf_spec day').2
  have hday := (monthOf_spec day).1
  omega

theorem monthOf_aligned (e : DayInMonth) (month : ℤ) :
    month - 1 ≤ monthOf (e.aligned month) ∧ monthOf (e.aligned month) ≤ month + 1 := by
  obtain ⟨hlow, hhigh⟩ := e.aligned_bounds month
  obtain ⟨hstart, hend⟩ := monthOf_spec (e.aligned month)
  have hbefore := monthStart_succ (month - 1)
  have hafter := monthStart_succ (month + 1)
  rw [Int.sub_add_cancel] at hbefore
  have hge := monthStart_lt_iff.mp
    (show monthStart (month - 1) < monthStart (monthOf (e.aligned month) + 1) by omega)
  have hle := monthStart_lt_iff.mp
    (show monthStart (monthOf (e.aligned month)) < monthStart (month + 1 + 1) by omega)
  omega

/-! ### The month has an occurrence -/

def HasOccurrence (e : DayInMonth) (month : ℤ) : Prop :=
  ∃ day, e.IsOccurrence day ∧ monthOf day = month

theorem hasOccurrence_iff : e.HasOccurrence month ↔ monthOf (e.aligned month) = month := by
  constructor
  · rintro ⟨day, hday, rfl⟩
    rw [isOccurrence_iff.mp hday]
  · intro h
    exact ⟨e.aligned month, isOccurrence_iff.mpr (by rw [h]), h⟩

theorem isOccurrence_aligned_iff : e.IsOccurrence (e.aligned month) ↔ e.HasOccurrence month := by
  rw [isOccurrence_iff, hasOccurrence_iff]
  constructor
  · intro h
    exact Int.le_antisymm (not_lt.mp fun hlt => absurd h (aligned_lt_iff.mpr hlt).ne')
      (not_lt.mp fun hlt => absurd h (aligned_lt_iff.mpr hlt).ne)
  · intro h
    rw [h]

/-- **The walk of the code is right** exactly if the month of the day has an occurrence, and it is
not before the day `low` from which on one is sought, or the month after has one too. -/
theorem isLeast_aligned_iff {low : ℤ} (hlow : day ≤ low) (hlow' : low ≤ day + 1) :
    IsLeast {d | e.IsOccurrence d ∧ low ≤ d}
        (if e.aligned (monthOf day) < low then
          e.aligned (if monthOf (e.aligned (monthOf day)) = monthOf day then monthOf day + 1
            else monthOf (e.aligned (monthOf day)))
        else e.aligned (monthOf day)) ↔
      ∃ d, e.IsOccurrence d ∧ monthOf d = monthOf day ∧
        (low ≤ d ∨ e.HasOccurrence (monthOf day + 1)) := by
  -- An occurrence from `low` on is in the month of the day or after it.
  have hlater : ∀ d, e.IsOccurrence d → low ≤ d →
      monthOf day ≤ monthOf d ∧ e.aligned (monthOf d) = d := fun d hd hle =>
    ⟨monthOf_mono (hlow.trans hle), isOccurrence_iff.mp hd⟩
  -- There is no other occurrence in the month than the day that the code comes to.
  have honly : (∃ d, e.IsOccurrence d ∧ monthOf d = monthOf day ∧
      (low ≤ d ∨ e.HasOccurrence (monthOf day + 1))) ↔
      e.HasOccurrence (monthOf day) ∧
        (low ≤ e.aligned (monthOf day) ∨ e.HasOccurrence (monthOf day + 1)) := by
    constructor
    · rintro ⟨d, hd, hmonth, h⟩
      have hd' := isOccurrence_iff.mp hd
      rw [hmonth] at hd'
      exact ⟨⟨d, hd, hmonth⟩, hd'.symm ▸ h⟩
    · rintro ⟨hhas, h⟩
      exact ⟨_, isOccurrence_aligned_iff.mpr hhas, hasOccurrence_iff.mp hhas, h⟩
  rw [honly]
  split_ifs with hbefore hsame
  · have hhas : e.HasOccurrence (monthOf day) := hasOccurrence_iff.mpr hsame
    rw [and_iff_right hhas, or_iff_right (not_le.mpr hbefore), ← isOccurrence_aligned_iff]
    refine ⟨fun h => h.1.1, fun h => ⟨⟨h, ?_⟩, fun d hd => ?_⟩⟩
    · have hmonth := hasOccurrence_iff.mp (isOccurrence_aligned_iff.mp h)
      have hstart := (monthOf_spec (e.aligned (monthOf day + 1))).1
      have hend := (monthOf_spec day).2
      rw [hmonth] at hstart
      omega
    · obtain ⟨hle, hd'⟩ := hlater d hd.1 hd.2
      have hne : monthOf d ≠ monthOf day := by
        intro hmonth
        rw [hmonth] at hd'
        exact absurd hd.2 (not_le.mpr (hd' ▸ hbefore))
      rw [← hd']
      exact aligned_le (by omega)
  · have hnot : ¬ e.HasOccurrence (monthOf day) := hasOccurrence_iff.not.mpr hsame
    refine iff_of_false (fun h => ?_) fun h => hnot h.1
    have hle : monthOf (e.aligned (monthOf day)) ≤ monthOf day := monthOf_mono (by omega)
    have hlt : e.aligned (monthOf (e.aligned (monthOf day))) < e.aligned (monthOf day) :=
      aligned_lt_iff.mpr (lt_of_le_of_ne hle hsame)
    have hge := h.1.2
    omega
  · rw [or_iff_left_of_imp fun _ => not_lt.mp hbefore, and_iff_left (not_lt.mp hbefore),
      ← isOccurrence_aligned_iff]
    refine ⟨fun h => h.1.1, fun h => ⟨⟨h, not_lt.mp hbefore⟩, fun d hd => ?_⟩⟩
    obtain ⟨hle, hd'⟩ := hlater d hd.1 hd.2
    rw [← hd']
    exact aligned_le hle

/-! ### The calls -/

theorem alignNextMonth_moment (h : KeepsTime K moment) (hn : 7 ≤ n) (day : ℤ) :
    e.alignNextMonth K n (K.get .month (moment day)) (moment (e.aligned (monthOf day))) =
      .done (moment (e.aligned
        (if monthOf (e.aligned (monthOf day)) = monthOf day then monthOf day + 1
          else monthOf (e.aligned (monthOf day))))) := by
  obtain ⟨hge, hle⟩ := e.monthOf_aligned (monthOf day)
  rw [alignNextMonth, h.setDayOfMonth, h.getMonth, h.getMonth, monthOf_monthStart]
  by_cases hsame : monthOf (e.aligned (monthOf day)) = monthOf day
  · rw [if_pos (by rw [hsame]), if_pos hsame, hsame, h.addMonth, alignDayOfWeek_moment h hn,
      monthOf_monthStart]
  · rw [if_neg (by omega), if_neg hsame, alignDayOfWeek_moment h hn, monthOf_monthStart]

theorem first_moment (h : KeepsTime K moment) (hn : 7 ≤ n) (day : ℤ) :
    e.first K n (moment day) = .done (moment
      (if e.aligned (monthOf day) < day then
        e.aligned (if monthOf (e.aligned (monthOf day)) = monthOf day then monthOf day + 1
          else monthOf (e.aligned (monthOf day)))
      else e.aligned (monthOf day))) := by
  rw [first, alignDayOfWeek_moment h hn]
  simp only [Outcome.bind, h.lt_iff_lt]
  rw [alignNextMonth_moment h hn]
  split_ifs <;> rfl

theorem next_moment (h : KeepsTime K moment) (hn : 7 ≤ n) (day : ℤ) :
    e.next K n (moment day) = .done (moment
      (if e.aligned (monthOf day) < day + 1 then
        e.aligned (if monthOf (e.aligned (monthOf day)) = monthOf day then monthOf day + 1
          else monthOf (e.aligned (monthOf day)))
      else e.aligned (monthOf day))) := by
  rw [next, alignDayOfWeek_moment h hn]
  simp only [Outcome.bind, h.le_iff_le, Int.lt_add_one_iff]
  rw [alignNextMonth_moment h hn]
  split_ifs <;> rfl

theorem includesDate_moment (h : KeepsTime K moment) (hn : 7 ≤ n) (day : ℤ) :
    e.includesDate K n (moment day) = .done (decide (e.IsOccurrence day)) := by
  obtain ⟨hge, hle⟩ := e.monthOf_aligned (monthOf day)
  rw [includesDate, isDayOfWeek, h.getDayOfWeek]
  by_cases hday : weekday day = e.dayOfWeek
  · rw [if_pos (by rw [hday, beq_self_eq_true]), alignDayOfWeek_moment h hn]
    simp only [Outcome.bind, h.getDayOfMonth, h.getMonth]
    congr 1
    rw [Bool.eq_iff_iff, Bool.and_eq_true, beq_iff_eq, beq_iff_eq, decide_eq_true_iff,
      isOccurrence_iff]
    constructor
    · rintro ⟨hdom, hmonth⟩
      have hsame : monthOf (e.aligned (monthOf day)) = monthOf day := by omega
      rw [hsame] at hdom
      omega
    · intro heq
      rw [heq]
      exact ⟨rfl, rfl⟩
  · have hnot : ¬ e.IsOccurrence day := fun hocc => hday hocc.1
    rw [if_neg (by rw [beq_iff_eq]; exact hday), decide_eq_false hnot]

/-! ### The occurrences -/

def occurrences (e : DayInMonth) (moment : ℤ → ℤ) : Set ℤ :=
  {t | ∃ d, e.IsOccurrence d ∧ moment d = t}

theorem isLeast_moment_iff (h : KeepsTime K moment) {low : ℤ} {p : ℤ → Prop} {d : ℤ}
    (hp : ∀ d, p (moment d) ↔ low ≤ d) :
    IsLeast {t | t ∈ e.occurrences moment ∧ p t} (moment d) ↔
      IsLeast {d | e.IsOccurrence d ∧ low ≤ d} d := by
  constructor
  · rintro ⟨⟨⟨d', hocc, heq⟩, hlow⟩, hleast⟩
    rw [h.injective heq] at hocc
    refine ⟨⟨hocc, (hp d).mp hlow⟩, fun c hc => h.le_iff_le.mp ?_⟩
    exact hleast ⟨⟨c, hc.1, rfl⟩, (hp c).mpr hc.2⟩
  · rintro ⟨⟨hocc, hlow⟩, hleast⟩
    refine ⟨⟨⟨d, hocc, rfl⟩, (hp d).mpr hlow⟩, ?_⟩
    rintro t ⟨⟨c, hc, rfl⟩, ht⟩
    exact h.le_iff_le.mpr (hleast ⟨hc, (hp c).mp ht⟩)

/-- **A day in the month.** `includesDate` says whether the day is the n-th weekday of its month;
`first` and `next` return the earliest occurrence exactly if one is in this month, and not too
early, or in the month after. -/
theorem dayInMonth_correct (e : DayInMonth) (h : KeepsTime K moment) (hn : 7 ≤ n) (day : ℤ) :
    e.includesDate K n (moment day) = .done (decide (e.IsOccurrence day)) ∧
    ((∃ first, e.first K n (moment day) = .done first ∧
        IsLeast {t | t ∈ e.occurrences moment ∧ moment day ≤ t} first) ↔
      ∃ d, e.IsOccurrence d ∧ monthOf d = monthOf day ∧
        (day ≤ d ∨ e.HasOccurrence (monthOf day + 1))) ∧
    ((∃ next, e.next K n (moment day) = .done next ∧
        IsLeast {t | t ∈ e.occurrences moment ∧ moment day < t} next) ↔
      ∃ d, e.IsOccurrence d ∧ monthOf d = monthOf day ∧
        (day < d ∨ e.HasOccurrence (monthOf day + 1))) := by
  refine ⟨includesDate_moment h hn day, ?_, ?_⟩
  · rw [first_moment h hn]
    simp only [Outcome.done.injEq, exists_eq_left']
    rw [isLeast_moment_iff h fun d => h.le_iff_le,
      isLeast_aligned_iff (Int.le_refl day) (by omega)]
  · rw [next_moment h hn]
    simp only [Outcome.done.injEq, exists_eq_left']
    have hlater : ∀ d, moment day < moment d ↔ day + 1 ≤ d := fun d =>
      h.lt_iff_lt.trans Int.add_one_le_iff.symm
    rw [isLeast_moment_iff h hlater, isLeast_aligned_iff (by omega) (Int.le_refl _)]
    simp only [Int.add_one_le_iff]

end DayInMonth

/-! ### In UTC -/

namespace Gregorian

theorem keepsTime {time : ℤ} (htime : 0 ≤ time) (htime' : time < 86400000) :
    KeepsTime calendar fun day => day * 86400000 + time := by
  have hday : ∀ day, dayOf (day * 86400000 + time) = day := fun day => by
    unfold dayOf
    omega
  refine ⟨fun {d d'} => ?_, fun day => ?_, fun day => ?_, fun day => ?_, fun day => ?_,
    fun amount day => ?_, fun month => ?_⟩
  · omega
  · simp only [calendar, hday, weekday]
  · simp only [calendar, dayOfMonth, hday]
  · simp only [calendar, hday]
  · simp only [calendar, dayOfMonth, hday]
    omega
  · simp only [calendar]
    omega
  · have hlength := monthStart_succ (month + 1)
    have htimeOf : timeOf (monthStart month * 86400000 + time) = time := by
      unfold timeOf
      omega
    simp only [calendar, addMonths, dayOfMonth, hday, htimeOf, monthOf_monthStart, monthLength]
    omega

end Gregorian

namespace DayInMonth

def fifthMonday : DayInMonth := ⟨2, 5, by decide, by decide⟩

def midnight (day : ℤ) : ℤ := day * 86400000 + 0

theorem dayInMonth_correct_february :
    fifthMonday.includesDate calendar 7 (midnight 31) =
        .done (decide (fifthMonday.IsOccurrence 31)) ∧
    ((∃ first, fifthMonday.first calendar 7 (midnight 31) = .done first ∧
        IsLeast {t | t ∈ fifthMonday.occurrences midnight ∧ midnight 31 ≤ t} first) ↔
      ∃ d, fifthMonday.IsOccurrence d ∧ monthOf d = monthOf 31 ∧
        (31 ≤ d ∨ fifthMonday.HasOccurrence (monthOf 31 + 1))) ∧
    ((∃ next, fifthMonday.next calendar 7 (midnight 31) = .done next ∧
        IsLeast {t | t ∈ fifthMonday.occurrences midnight ∧ midnight 31 < t} next) ↔
      ∃ d, fifthMonday.IsOccurrence d ∧ monthOf d = monthOf 31 ∧
        (31 < d ∨ fifthMonday.HasOccurrence (monthOf 31 + 1))) :=
  dayInMonth_correct fifthMonday (keepsTime (by decide) (by decide)) (Nat.le_refl 7) 31

/-- **February has no fifth Monday**: from the first of February 1970 on, the code comes to the
second of March, which is the first Monday of its month. -/
theorem first_february :
    fifthMonday.first calendar 7 (midnight 31) = .done (midnight 60) ∧
      ¬ IsLeast {t | t ∈ fifthMonday.occurrences midnight ∧ midnight 31 ≤ t} (midnight 60) := by
  refine ⟨rfl, ?_⟩
  rintro ⟨⟨⟨d, hd, hmidnight⟩, -⟩, -⟩
  have h60 : d = 60 := by
    unfold midnight at hmidnight
    omega
  subst h60
  exact absurd (isOccurrence_iff.mp hd) (by decide)

end DayInMonth

end OfficeAuto.Service
