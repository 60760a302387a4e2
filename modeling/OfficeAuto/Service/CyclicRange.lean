import OfficeAuto.Service.DayInMonth

/-!
# Ranges of the values of a field

The ranges of days of the week, hours, minutes and months. A range goes from its start on to its
end, over the last value of the field where the start is the greater one (`Contains`), and
`includesDate` finds this out by walking a calendar along the field.

The walks end where the fields go round (`FieldCycles`). A month range may name the thirteenth
month; on a calendar without it, the walk looks for a month that never comes. The sets of hours
and of minutes are walked in hours, and neither contains the end (`ranges_right_iff`).
-/

namespace OfficeAuto.Service

/-! ### Fields that go round -/

/-- Repeating `step` takes the field from `low` to `high` and then to `low` again. -/
structure FieldCycles (K : SettableCalendar) (field : CalendarField) (low high : ℤ)
    (step : ℤ → ℤ) : Prop where
  low_le : ∀ t, low ≤ K.get field t
  le_high : ∀ t, K.get field t ≤ high
  get_step : ∀ t, K.get field (step t) =
    if K.get field t = high then low else K.get field t + 1

def stepsTo (low high a b : ℤ) : ℤ := if a ≤ b then b - a else b - a + (high - low + 1)

namespace FieldCycles

variable {K : SettableCalendar} {field : CalendarField} {low high a b v t : ℤ} {step : ℤ → ℤ}
  {n : ℕ}

theorem stepsTo_step (h : FieldCycles K field low high step) (hb : low ≤ b ∧ b ≤ high)
    (hne : K.get field t ≠ b) :
    stepsTo low high (K.get field (step t)) b + 1 = stepsTo low high (K.get field t) b := by
  have hlow := h.low_le t
  have hhigh := h.le_high t
  rw [h.get_step, stepsTo, stepsTo]
  split_ifs <;> omega

theorem stepsTo_nonneg (h : FieldCycles K field low high step) (hb : low ≤ b ∧ b ≤ high) :
    0 ≤ stepsTo low high (K.get field t) b := by
  have hlow := h.low_le t
  have hhigh := h.le_high t
  rw [stepsTo]
  split_ifs <;> omega

theorem stepsTo_le (h : FieldCycles K field low high step) (hb : low ≤ b ∧ b ≤ high) :
    stepsTo low high (K.get field t) b ≤ high - low := by
  have hlow := h.low_le t
  have hhigh := h.le_high t
  rw [stepsTo]
  split_ifs <;> omega

theorem stepsTo_eq_zero (h : FieldCycles K field low high step) (hb : low ≤ b ∧ b ≤ high)
    (hzero : stepsTo low high (K.get field t) b ≤ 0) : K.get field t = b := by
  have hlow := h.low_le t
  have hhigh := h.le_high t
  rw [stepsTo] at hzero
  split_ifs at hzero <;> omega

theorem exists_seek {test : ℤ → Outcome Bool} {p : ℤ → Bool}
    (h : FieldCycles K field low high step) (hb : low ≤ b ∧ b ≤ high)
    (htest : ∀ t, test t = .done (p t)) (hp : ∀ t, K.get field t = b → p t = true)
    (hn : high - low + 1 ≤ n) (t : ℤ) : ∃ t', seek n test step t = .done t' ∧ p t' = true := by
  have hwalk (n : ℕ) : ∀ t, stepsTo low high (K.get field t) b < n →
      ∃ t', seek n test step t = .done t' ∧ p t' = true := by
    induction n with
    | zero =>
      intro t ht
      have := h.stepsTo_nonneg (t := t) hb
      omega
    | succ n ih =>
      intro t ht
      cases hpt : p t with
      | true =>
        refine ⟨t, Outcome.loop_succ_of_inr ?_, hpt⟩
        rw [htest, hpt]
        rfl
      | false =>
        have hne : K.get field t ≠ b := fun hget => by
          rw [hp t hget] at hpt
          cases hpt
        obtain ⟨t', ht', hp'⟩ := ih (step t) (by have := h.stepsTo_step hb hne; omega)
        refine ⟨t', (Outcome.loop_succ_of_inl ?_).trans ht', hp'⟩
        rw [htest, hpt]
        rfl
  have := h.stepsTo_le (t := t) hb
  exact hwalk n t (by omega)

theorem meetsBefore_eq_true (h : FieldCycles K field low high step) (hv : low ≤ v ∧ v ≤ high)
    (hbefore : low ≤ b ∧ b ≤ high →
      stepsTo low high (K.get field t) v < stepsTo low high (K.get field t) b)
    (hn : high - low + 1 ≤ n) :
    meetsBefore n (fun t => .done (K.get field t == b)) (fun t => .done (K.get field t == v))
      step t = .done true := by
  have hwalk (n : ℕ) : ∀ t, stepsTo low high (K.get field t) v < n →
      (low ≤ b ∧ b ≤ high →
        stepsTo low high (K.get field t) v < stepsTo low high (K.get field t) b) →
      meetsBefore n (fun t => .done (K.get field t == b)) (fun t => .done (K.get field t == v))
        step t = .done true := by
    induction n with
    | zero =>
      intro t ht
      have := h.stepsTo_nonneg (t := t) hv
      omega
    | succ n ih =>
      intro t ht hbefore
      have hstop : (K.get field t == b) = false := by
        rw [beq_eq_false_iff_ne]
        rintro rfl
        have hzero : stepsTo low high (K.get field t) (K.get field t) = 0 := by simp [stepsTo]
        have := hbefore ⟨h.low_le t, h.le_high t⟩
        have := h.stepsTo_nonneg (t := t) hv
        omega
      by_cases hget : K.get field t = v
      · refine Outcome.loop_succ_of_inr ?_
        dsimp only [Outcome.bind]
        rw [hstop, beq_iff_eq.mpr hget]
        rfl
      · refine (Outcome.loop_succ_of_inl ?_).trans (ih (step t) ?_ fun hb => ?_)
        · dsimp only [Outcome.bind]
          rw [hstop, beq_eq_false_iff_ne.mpr hget]
          rfl
        · have := h.stepsTo_step hv hget
          omega
        · have := h.stepsTo_step hv hget
          have := h.stepsTo_step hb (beq_eq_false_iff_ne.mp hstop)
          have := hbefore hb
          omega
  have := h.stepsTo_le (t := t) hv
  exact hwalk n t (by omega) hbefore

theorem meetsBefore_eq_false (h : FieldCycles K field low high step) (hb : low ≤ b ∧ b ≤ high)
    (hv : low ≤ v ∧ v ≤ high)
    (hafter : stepsTo low high (K.get field t) b ≤ stepsTo low high (K.get field t) v)
    (hn : high - low + 1 ≤ n) :
    meetsBefore n (fun t => .done (K.get field t == b)) (fun t => .done (K.get field t == v))
      step t = .done false := by
  have hwalk (n : ℕ) : ∀ t, stepsTo low high (K.get field t) b < n →
      stepsTo low high (K.get field t) b ≤ stepsTo low high (K.get field t) v →
      meetsBefore n (fun t => .done (K.get field t == b)) (fun t => .done (K.get field t == v))
        step t = .done false := by
    induction n with
    | zero =>
      intro t ht
      have := h.stepsTo_nonneg (t := t) hb
      omega
    | succ n ih =>
      intro t ht hafter
      by_cases hstop : K.get field t = b
      · refine Outcome.loop_succ_of_inr ?_
        dsimp only [Outcome.bind]
        rw [beq_iff_eq.mpr hstop]
        rfl
      · have hget : K.get field t ≠ v := fun hget => hstop <| h.stepsTo_eq_zero hb <| by
          rw [← hget] at hafter
          simpa [stepsTo] using hafter
        refine (Outcome.loop_succ_of_inl ?_).trans (ih (step t) ?_ ?_)
        · dsimp only [Outcome.bind]
          rw [beq_eq_false_iff_ne.mpr hstop, beq_eq_false_iff_ne.mpr hget]
          rfl
        · have := h.stepsTo_step hb hstop
          omega
        · have := h.stepsTo_step hb hstop
          have := h.stepsTo_step hv hget
          omega
  have := h.stepsTo_le (t := t) hb
  exact hwalk n t (by omega) hafter

end FieldCycles

/-! ### What a range includes -/

def FieldRange.Contains {l m : ℤ} (r : FieldRange l m) (value : ℤ) : Prop :=
  if r.start ≤ r.stop then r.start ≤ value ∧ value ≤ r.stop
  else r.start ≤ value ∨ value ≤ r.stop

/-- **A range of values is right**: `includesDate` ends and tells the values of the range, and
`first` and `next` end. -/
structure RangeRight (K : SettableCalendar) (e : SimpleExpression) (contains : ℤ → Prop) :
    Prop where
  includesDate : ∀ cal, ∃ n b, e.includesDate K n cal = .done b ∧ (b = true ↔ contains cal)
  first : ∀ cal, ∃ n r, e.first K n cal = .done r
  next : ∀ cal context, ∃ n r, e.next K n cal context = .done r

namespace FieldRange

variable {K : SettableCalendar} {field : CalendarField} {low high l m cal : ℤ} {step : ℤ → ℤ}
  {toStart : ℤ → Outcome ℤ} {n : ℕ} {r : FieldRange l m}

theorem includesDate_of_eq (hvalue : K.get field cal = r.start ∨ K.get field cal = r.stop) :
    r.includesDate K n field toStart step cal = .done true := by
  rw [includesDate]
  exact if_pos hvalue

theorem includesDate_of_ne (hvalue : ¬ (K.get field cal = r.start ∨ K.get field cal = r.stop))
    {t : ℤ} (ht : toStart cal = .done t) :
    r.includesDate K n field toStart step cal =
      meetsBefore n (fun t => .done (K.get field t == r.stop))
        (fun t => .done (K.get field t == K.get field cal)) step t := by
  rw [includesDate]
  refine (if_neg hvalue).trans ?_
  rw [ht]
  rfl

theorem exists_includesDate (h : FieldCycles K field low high step)
    (hstop : low ≤ r.stop ∧ r.stop ≤ high)
    (htoStart : ∃ t, toStart cal = .done t ∧ K.get field t = r.start)
    (hn : high - low + 1 ≤ n) :
    ∃ b, r.includesDate K n field toStart step cal = .done b ∧
      (b = true ↔ r.Contains (K.get field cal)) := by
  have hlow := h.low_le cal
  have hhigh := h.le_high cal
  by_cases hvalue : K.get field cal = r.start ∨ K.get field cal = r.stop
  · refine ⟨true, includesDate_of_eq hvalue, iff_of_true rfl ?_⟩
    rw [Contains]
    split_ifs <;> omega
  · obtain ⟨t, ht, hget⟩ := htoStart
    rw [includesDate_of_ne hvalue ht]
    by_cases hbefore : stepsTo low high r.start (K.get field cal) < stepsTo low high r.start r.stop
    · refine ⟨true, h.meetsBefore_eq_true ⟨hlow, hhigh⟩ (fun _ => by rwa [hget]) hn,
        iff_of_true rfl ?_⟩
      rw [stepsTo, stepsTo] at hbefore
      rw [Contains]
      split_ifs at hbefore ⊢ <;> omega
    · refine ⟨false, h.meetsBefore_eq_false hstop ⟨hlow, hhigh⟩ (by rw [hget]; omega) hn,
        iff_of_false Bool.false_ne_true ?_⟩
      rw [stepsTo, stepsTo] at hbefore
      rw [Contains]
      split_ifs at hbefore ⊢ <;> omega

theorem contains_start (hstart : K.get field cal = r.start) : r.Contains (K.get field cal) := by
  rw [Contains]
  split_ifs <;> omega

theorem exists_seek_includesDate {test : ℤ → Outcome Bool}
    (h : FieldCycles K field low high step) (hstart : low ≤ r.start ∧ r.start ≤ high)
    (htest : ∀ t, ∃ b, test t = .done b ∧ (b = true ↔ r.Contains (K.get field t)))
    (hn : high - low + 1 ≤ n) (t : ℤ) : ∃ t', seek n test step t = .done t' := by
  choose p hp hiff using htest
  obtain ⟨t', ht', -⟩ := h.exists_seek hstart hp (fun t ht => (hiff t).mpr (contains_start ht)) hn t
  exact ⟨t', ht'⟩

theorem exists_seek_start (h : FieldCycles K field low high step)
    (hstart : low ≤ r.start ∧ r.start ≤ high) (hn : high - low + 1 ≤ n) (t : ℤ) :
    ∃ t', seek n (fun t => .done (K.get field t == r.start)) step t = .done t' ∧
      K.get field t' = r.start := by
  obtain ⟨t', ht', hp⟩ := h.exists_seek (p := fun t => K.get field t == r.start) hstart
    (fun _ => rfl) (fun t ht => beq_iff_eq.mpr ht) hn t
  exact ⟨t', ht', beq_iff_eq.mp hp⟩

end FieldRange

/-! ### The calendar -/

/-- A calendar whose fields go round, with the number of its last month. Some calendars have a
thirteenth month. -/
structure RegularCalendar (K : SettableCalendar) (lastMonth : ℤ) : Prop where
  dayOfWeek : FieldCycles K .dayOfWeek 1 7 (K.add .dayOfMonth 1)
  hourOfDay : FieldCycles K .hourOfDay 0 23 (K.add .hourOfDay 1)
  minute : FieldCycles K .minute 0 59 (K.add .minute 1)
  month : FieldCycles K .month 0 lastMonth (K.add .month 1)
  lastMonth : lastMonth = 11 ∨ lastMonth = 12
  get_set_hourOfDay : ∀ value t, 0 ≤ value → value ≤ 23 →
    K.get .hourOfDay (K.set .hourOfDay value t) = value
  get_set_minute : ∀ value t, 0 ≤ value → value ≤ 59 →
    K.get .minute (K.set .minute value t) = value

variable {K : SettableCalendar} {lastMonth : ℤ}

/-- **A range of days of the week is right.** -/
theorem dayOfWeekRange_right (h : RegularCalendar K lastMonth) (r : DayOfWeekRange) :
    RangeRight K (.dayOfWeekRange r) fun cal => r.range.Contains (K.get .dayOfWeek cal) := by
  have hincludes : ∀ cal, ∃ b, r.includesDate K 7 cal = .done b ∧
      (b = true ↔ r.range.Contains (K.get .dayOfWeek cal)) := fun cal =>
    FieldRange.exists_includesDate h.dayOfWeek r.range.isStop
      (FieldRange.exists_seek_start h.dayOfWeek r.range.isStart le_rfl cal) le_rfl
  have hseek : ∀ t, ∃ t', seek 7 (r.includesDate K 7) (K.add .dayOfMonth 1) t = .done t' :=
    FieldRange.exists_seek_includesDate h.dayOfWeek r.range.isStart hincludes le_rfl
  refine ⟨fun cal => ⟨7, hincludes cal⟩, fun cal => ?_, fun cal context => ?_⟩
  · obtain ⟨t, ht⟩ := hseek cal
    refine ⟨7, some t, ?_⟩
    rw [SimpleExpression.first, DayOfWeekRange.first, ht]
    rfl
  · obtain ⟨b, hb, -⟩ := hincludes cal
    obtain ⟨t, ht⟩ := hseek (if b then K.add .dayOfMonth 1 cal else cal)
    refine ⟨7, ?_⟩
    rw [SimpleExpression.next, DayOfWeekRange.next, hb]
    dsimp only [Outcome.bind]
    by_cases hbumped : (b && context.dayBumped) = true
    · rw [if_pos hbumped]
      exact ⟨_, rfl⟩
    · rw [if_neg hbumped, ht]
      exact ⟨_, rfl⟩

theorem hourRange_right (h : RegularCalendar K lastMonth) (r : HourRange) :
    RangeRight K (.hourRange r) fun cal => r.range.Contains (K.get .hourOfDay cal) := by
  have hincludes : ∀ cal, ∃ b, r.includesDate K 24 cal = .done b ∧
      (b = true ↔ r.range.Contains (K.get .hourOfDay cal)) := fun cal =>
    FieldRange.exists_includesDate h.hourOfDay r.range.isStop
      ⟨_, rfl, h.get_set_hourOfDay _ cal r.range.isStart.1 r.range.isStart.2⟩ le_rfl
  have hseek : ∀ t, ∃ t', seek 24 (r.includesDate K 24) (K.add .hourOfDay 1) t = .done t' :=
    FieldRange.exists_seek_includesDate h.hourOfDay r.range.isStart hincludes le_rfl
  refine ⟨fun cal => ⟨24, hincludes cal⟩, fun cal => ?_, fun cal context => ?_⟩
  · obtain ⟨t, ht⟩ := hseek cal
    refine ⟨24, some t, ?_⟩
    rw [SimpleExpression.first, HourRange.first, ht]
    rfl
  · obtain ⟨b, hb, -⟩ := hincludes cal
    obtain ⟨t, ht⟩ := hseek (if b then K.add .hourOfDay 1 cal else cal)
    refine ⟨24, ?_⟩
    rw [SimpleExpression.next, HourRange.next, hb]
    dsimp only [Outcome.bind]
    by_cases hbumped : (b && context.hourBumped) = true
    · rw [if_pos hbumped]
      exact ⟨_, rfl⟩
    · rw [if_neg hbumped, ht]
      exact ⟨_, rfl⟩

theorem minuteRange_right (h : RegularCalendar K lastMonth) (r : MinuteRange) :
    RangeRight K (.minuteRange r) fun cal => r.range.Contains (K.get .minute cal) := by
  have hincludes : ∀ cal, ∃ b, r.includesDate K 60 cal = .done b ∧
      (b = true ↔ r.range.Contains (K.get .minute cal)) := fun cal =>
    FieldRange.exists_includesDate h.minute r.range.isStop
      ⟨_, rfl, h.get_set_minute _ cal r.range.isStart.1 r.range.isStart.2⟩ le_rfl
  have hseek : ∀ t, ∃ t', seek 60 (r.includesDate K 60) (K.add .minute 1) t = .done t' :=
    FieldRange.exists_seek_includesDate h.minute r.range.isStart hincludes le_rfl
  refine ⟨fun cal => ⟨60, hincludes cal⟩, fun cal => ?_, fun cal context => ?_⟩
  · obtain ⟨t, ht⟩ := hseek cal
    refine ⟨60, some t, ?_⟩
    rw [SimpleExpression.first, MinuteRange.first, ht]
    rfl
  · obtain ⟨b, hb, -⟩ := hincludes cal
    obtain ⟨t, ht⟩ := hseek (if b then K.add .minute 1 cal else cal)
    refine ⟨60, ?_⟩
    rw [SimpleExpression.next, MinuteRange.next, hb]
    dsimp only [Outcome.bind]
    rw [ht]
    exact ⟨_, rfl⟩

/-! ### Months -/

section Months

variable {r : MonthRange}

theorem monthRange_right_of_includes {n : ℕ} (h : RegularCalendar K lastMonth)
    (hincludes : ∀ cal, ∃ b, r.includesDate K n cal = .done b ∧
      (b = true ↔ r.range.Contains (K.get .month cal)))
    (hstart : 0 ≤ r.range.start ∧ r.range.start ≤ lastMonth) (hn : lastMonth + 1 ≤ n) :
    RangeRight K (.monthRange r) fun cal => r.range.Contains (K.get .month cal) := by
  have hseek : ∀ t, ∃ t', seek n (r.includesDate K n) (K.add .month 1) t = .done t' :=
    FieldRange.exists_seek_includesDate h.month hstart hincludes (by omega)
  refine ⟨fun cal => ⟨n, hincludes cal⟩, fun cal => ?_, fun cal context => ?_⟩
  · obtain ⟨t, ht⟩ := hseek (K.set .dayOfMonth 1 cal)
    refine ⟨n, some t, ?_⟩
    rw [SimpleExpression.first, MonthRange.first, ht]
    rfl
  · obtain ⟨t, ht⟩ := hseek (K.add .month 1 (K.set .dayOfMonth 1 cal))
    refine ⟨n, (some t, context), ?_⟩
    rw [SimpleExpression.next, MonthRange.next, ht]
    rfl

theorem includesDate_of_lastMonth_lt {cal : ℤ} (h : RegularCalendar K lastMonth)
    (hstart : 0 ≤ r.range.start ∧ r.range.start ≤ lastMonth) (hstop : lastMonth < r.range.stop) :
    r.includesDate K 13 cal = .done true := by
  have hn : lastMonth - 0 + 1 ≤ (13 : ℕ) := by
    have := h.lastMonth
    omega
  by_cases hvalue : K.get .month cal = r.range.start ∨ K.get .month cal = r.range.stop
  · exact FieldRange.includesDate_of_eq hvalue
  · obtain ⟨t, ht, -⟩ := FieldRange.exists_seek_start h.month hstart hn cal
    rw [MonthRange.includesDate, FieldRange.includesDate_of_ne hvalue ht]
    refine h.month.meetsBefore_eq_true ⟨h.month.low_le cal, h.month.le_high cal⟩ ?_ hn
    omega

theorem includesDate_ne_done {n : ℕ} {cal : ℤ} {b : Bool} (h : RegularCalendar K lastMonth)
    (hstart : lastMonth < r.range.start) (hcal : K.get .month cal ≠ r.range.stop) :
    r.includesDate K n cal ≠ .done b := by
  intro hdone
  have hvalue : ¬ (K.get .month cal = r.range.start ∨ K.get .month cal = r.range.stop) := by
    have := h.month.le_high cal
    omega
  rw [MonthRange.includesDate, FieldRange.includesDate] at hdone
  obtain ⟨t, ht, -⟩ := Outcome.bind_eq_done.mp ((if_neg hvalue).symm.trans hdone)
  refine Outcome.loop_ne_done (I := fun _ => True) (fun s q _ hq => ?_) trivial ht
  have hne : (K.get .month s == r.range.start) = false := by
    rw [beq_eq_false_iff_ne]
    have := h.month.le_high s
    omega
  dsimp only [Outcome.bind] at hq
  rw [hne] at hq
  exact ⟨K.add .month 1 s, (Outcome.done.inj hq).symm, trivial⟩

/-- **When a range of months is right**: it is one of months of the calendar, or of all months. -/
theorem monthRange_right_iff (h : RegularCalendar K lastMonth) :
    RangeRight K (.monthRange r) (fun cal => r.range.Contains (K.get .month cal)) ↔
      r.range.start ≤ lastMonth ∧ (r.range.stop ≤ lastMonth ∨ r.range.start = 0) := by
  obtain ⟨hlow, hhigh⟩ := r.range.isStart
  obtain ⟨hlow', hhigh'⟩ := r.range.isStop
  have hn : lastMonth - 0 + 1 ≤ (13 : ℕ) := by
    have := h.lastMonth
    omega
  constructor
  · intro hright
    by_cases hstart : r.range.start ≤ lastMonth
    · refine ⟨hstart, or_iff_not_imp_left.mpr fun hstop => ?_⟩
      -- In January, the range is only right if it begins with it.
      obtain ⟨t, -, hp⟩ := h.month.exists_seek (p := fun t => K.get .month t == 0) (b := 0)
        ⟨le_rfl, by omega⟩ (fun _ => rfl) (fun t ht => beq_iff_eq.mpr ht) hn 0
      obtain ⟨n, b, hb, hiff⟩ := hright.includesDate t
      have hmax := (r.includesDate_le (le_max_left n 13)).eq_done hb
      have hall : r.includesDate K 13 t = .done true :=
        includesDate_of_lastMonth_lt h ⟨hlow, hstart⟩ (by omega)
      have hmax' := (r.includesDate_le (le_max_right n 13)).eq_done hall
      obtain rfl : b = true := Outcome.done.inj (hmax.symm.trans hmax')
      have hcontains := hiff.mp rfl
      rw [beq_iff_eq.mp hp, FieldRange.Contains] at hcontains
      split_ifs at hcontains <;> omega
    · -- Some month is not the end of the range.
      obtain ⟨t, ht⟩ : ∃ t, K.get .month t ≠ r.range.stop := by
        refine not_forall.mp fun hall => ?_
        have hstep := h.month.get_step 0
        rw [hall, hall] at hstep
        have := h.lastMonth
        split_ifs at hstep <;> omega
      obtain ⟨n, b, hb, -⟩ := hright.includesDate t
      exact absurd hb (includesDate_ne_done h (by omega) ht)
  · rintro ⟨hstart, hstop⟩
    refine monthRange_right_of_includes h (n := 13) (fun cal => ?_) ⟨hlow, hstart⟩ (by omega)
    by_cases hle : r.range.stop ≤ lastMonth
    · exact FieldRange.exists_includesDate h.month ⟨hlow', hle⟩
        (FieldRange.exists_seek_start h.month ⟨hlow, hstart⟩ hn cal) hn
    · refine ⟨true, includesDate_of_lastMonth_lt h ⟨hlow, hstart⟩ (by omega), iff_of_true rfl ?_⟩
      have := h.month.low_le cal
      have := h.month.le_high cal
      rw [FieldRange.Contains]
      split_ifs <;> omega

end Months

/-! ### The values as a set -/

namespace FieldRange

variable {l m : ℤ} (n : ℕ) (now : ℤ) (r : FieldRange l m)

/-- `getHourRangeAsSet` and `getMinuteRangeAsSet`: both set and walk the hour. -/
def asSet (K : SettableCalendar) : Outcome (Finset ℤ) :=
  if r.start = r.stop then .done {r.start}
  else
    Outcome.loop (fun s : ℤ × Finset ℤ => .done <|
      if K.get .hourOfDay s.1 = r.stop then .inr s.2
      else .inl (K.add .hourOfDay 1 s.1, insert (K.get .hourOfDay s.1) s.2)) n
      (K.set .hourOfDay r.start now, ∅)

/-- **A set is right**: it is found, and has the values of the field that are in the range. -/
def SetRight (set : ℕ → Outcome (Finset ℤ)) : Prop :=
  ∃ n values, set n = .done values ∧
    ∀ value, value ∈ values ↔ l ≤ value ∧ value ≤ m ∧ r.Contains value

variable {n now r}

theorem stop_notMem_asSet {set : Finset ℤ} (hne : r.start ≠ r.stop)
    (h : r.asSet n now K = .done set) : r.stop ∉ set := by
  rw [asSet, if_neg hne] at h
  refine Outcome.of_loop_eq_done (I := fun s => r.stop ∉ s.2) (Q := fun set => r.stop ∉ set)
    (fun s s' hs hbody => ?_) (fun s set hs hbody => ?_) (Finset.notMem_empty _) h
  · replace hbody := Outcome.done.inj hbody
    split_ifs at hbody with hstop
    obtain rfl := Sum.inl.inj hbody
    rw [Finset.mem_insert, not_or]
    exact ⟨fun heq => hstop heq.symm, hs⟩
  · replace hbody := Outcome.done.inj hbody
    split_ifs at hbody with hstop
    obtain rfl := Sum.inr.inj hbody
    exact hs

theorem contains_stop (r : FieldRange l m) : r.Contains r.stop := by
  rw [Contains]
  split_ifs <;> omega

theorem asSet_right_iff : r.SetRight (fun n => r.asSet n now K) ↔ r.start = r.stop := by
  have hstart := r.isStart
  constructor
  · rintro ⟨n, set, hset, hmem⟩
    by_contra hne
    exact stop_notMem_asSet hne hset ((hmem _).mpr ⟨r.isStop.1, r.isStop.2, r.contains_stop⟩)
  · intro heq
    refine ⟨0, {r.start}, if_pos heq, fun value => ?_⟩
    rw [Finset.mem_singleton, Contains, if_pos heq.le]
    omega

end FieldRange

def HourRange.getHourRangeAsSet (K : SettableCalendar) (n : ℕ) (r : HourRange) (now : ℤ) :
    Outcome (Finset ℤ) :=
  r.range.asSet n now K

def MinuteRange.getMinuteRangeAsSet (K : SettableCalendar) (n : ℕ) (r : MinuteRange) (now : ℤ) :
    Outcome (Finset ℤ) :=
  r.range.asSet n now K

theorem monthOf_addMonths (t : ℤ) :
    Gregorian.monthOf (Gregorian.dayOf (Gregorian.addMonths 1 t)) =
      Gregorian.monthOf (Gregorian.dayOf t) + 1 := by
  have hmonth := Gregorian.monthOf_spec (Gregorian.dayOf t)
  have hlength := Gregorian.monthStart_succ (Gregorian.monthOf (Gregorian.dayOf t) + 1)
  have hday : Gregorian.dayOf (Gregorian.addMonths 1 t) =
      Gregorian.monthStart (Gregorian.monthOf (Gregorian.dayOf t) + 1) +
        min (Gregorian.dayOfMonth t) (Gregorian.monthLength
          (Gregorian.monthOf (Gregorian.dayOf t) + 1)) - 1 := by
    dsimp only [Gregorian.addMonths, Gregorian.timeOf]
    rw [Gregorian.dayOf]
    omega
  refine monthOf_eq ?_ ?_
  · rw [hday, Gregorian.dayOfMonth, Gregorian.monthLength]
    omega
  · rw [hday, Gregorian.dayOfMonth, Gregorian.monthLength]
    omega

theorem regularCalendar_gregorian : RegularCalendar Gregorian.calendar 11 where
  dayOfWeek := ⟨fun t => by dsimp only [Gregorian.calendar, Gregorian.dayOf]; omega,
    fun t => by dsimp only [Gregorian.calendar, Gregorian.dayOf]; omega,
    fun t => by dsimp only [Gregorian.calendar, Gregorian.dayOf]; split_ifs <;> omega⟩
  hourOfDay := ⟨fun t => by dsimp only [Gregorian.calendar]; omega,
    fun t => by dsimp only [Gregorian.calendar]; omega,
    fun t => by dsimp only [Gregorian.calendar]; split_ifs <;> omega⟩
  minute := ⟨fun t => by dsimp only [Gregorian.calendar]; omega,
    fun t => by dsimp only [Gregorian.calendar]; omega,
    fun t => by dsimp only [Gregorian.calendar]; split_ifs <;> omega⟩
  month := ⟨fun t => by dsimp only [Gregorian.calendar]; omega,
    fun t => by dsimp only [Gregorian.calendar]; omega, fun t => by
      have hmonth := monthOf_addMonths t
      dsimp only [Gregorian.calendar]
      rw [hmonth]
      split_ifs <;> omega⟩
  lastMonth := Or.inl rfl
  get_set_hourOfDay := fun value t hlow hhigh => by dsimp only [Gregorian.calendar]; omega
  get_set_minute := fun value t hlow hhigh => by dsimp only [Gregorian.calendar]; omega

def officeHours : HourRange := ⟨8, 17, by decide, by decide⟩

end OfficeAuto.Service
