import Mathlib.Tactic.LinearCombination
import Mathlib.Tactic.Ring
import OfficeAuto.Service.GregorianCalendar

/-!
# The steps of a frequency

The dates of a frequency are its start and what comes of adding the count again and again
(`IsStep`). `prepareCal` saves most of these additions: it divides the distance to the date by
the length of the unit, and adds the units at once, cut to 32 bits.

Where the cut is not a multiple of the count, the walk goes on beside the steps.
`agreesAt_iff` says that this is the only case in which `first`, `next` and `includesDate`
differ from stepping; a frequency of 7 seconds comes to it 68 years after its start
(`not_agreesAt_everySeven`).
-/

namespace OfficeAuto.Service.Frequency

variable {K : SettableCalendar} {n : ℕ} {f : Frequency} {unit cal s t : ℤ}

/-! ### Units of a fixed length -/

/-- `add` moves the field of the frequency by a fixed length, the one that `prepareCal` divides
by. -/
structure FixedUnit (K : SettableCalendar) (f : Frequency) (unit : ℤ) : Prop where
  divisor : f.freqType.divisor = some unit
  add : ∀ amount t, K.add f.freqType.field amount t = t + unit * amount

/-- One of the dates that stepping by the count comes to from the start. -/
def IsStep (K : SettableCalendar) (f : Frequency) (t : ℤ) : Prop :=
  ∃ k : ℕ, (f.step K)^[k] f.start = t

/-- **The frequency agrees with stepping** at a date: `first` is the first step from it on, `next`
the first after it, and it is included if it is a step. -/
structure AgreesAt (K : SettableCalendar) (f : Frequency) (cal : ℤ) : Prop where
  first : ∃ n t, f.first K n cal = .done t ∧ IsLeast {t | f.IsStep K t ∧ cal ≤ t} t
  next : ∃ n t, f.next K n cal = .done t ∧ IsLeast {t | f.IsStep K t ∧ cal < t} t
  includesDate : ∃ n b, f.includesDate K n cal = .done b ∧ (b = true ↔ f.IsStep K cal)

def skippedUnits (f : Frequency) (unit cal : ℤ) : ℤ :=
  if cal - f.start < 1000 then 0
  else ((cal - f.start) / unit - (cal - f.start) / unit % f.freqCount).bmod (2 ^ 32)

theorem FixedUnit.pos (h : FixedUnit K f unit) : 0 < unit := by
  have hd := h.divisor
  cases htype : f.freqType <;> simp [htype, FrequencyType.divisor] at hd <;> omega

theorem FixedUnit.step_eq (h : FixedUnit K f unit) (t : ℤ) :
    f.step K t = t + unit * f.freqCount :=
  h.add f.freqCount t

theorem freqCount_pos (f : Frequency) : 0 < f.freqCount := by
  have := f.isCount
  omega

theorem FixedUnit.isStep_iff (h : FixedUnit K f unit) :
    f.IsStep K t ↔ ∃ k : ℕ, t = f.start + unit * f.freqCount * k := by
  have hiterate (k : ℕ) : (f.step K)^[k] f.start = f.start + unit * f.freqCount * k := by
    induction k with
    | zero => simp
    | succ k ih =>
      rw [Function.iterate_succ_apply', ih, h.step_eq]
      push_cast
      ring
  exact exists_congr fun k => by rw [hiterate, eq_comm]

/-! ### The skip -/

theorem bmod_le_self {x : ℤ} (hx : 0 ≤ x) : x.bmod (2 ^ 32) ≤ x := by
  rw [Int.bmod_eq_emod]
  split_ifs <;> omega

theorem emod_le_self {x m : ℤ} (hx : 0 ≤ x) (hm : 0 < m) : x % m ≤ x := by
  have := Int.emod_add_mul_ediv x m
  have := mul_nonneg hm.le (Int.ediv_nonneg hx hm.le)
  omega

theorem skip_le (hunit : 0 < unit) (hcal : ¬ cal - f.start < 1000) :
    f.start + unit * f.skippedUnits unit cal ≤ cal := by
  rw [skippedUnits, if_neg hcal]
  have hunits : 0 ≤ (cal - f.start) / unit := Int.ediv_nonneg (by omega) hunit.le
  have hmod : (cal - f.start) / unit % f.freqCount ≤ (cal - f.start) / unit :=
    emod_le_self hunits (freqCount_pos f)
  have hmod' : 0 ≤ (cal - f.start) / unit % f.freqCount :=
    Int.emod_nonneg _ (freqCount_pos f).ne'
  have hle := bmod_le_self (sub_nonneg.mpr hmod)
  calc f.start + unit * _
      ≤ f.start + unit * ((cal - f.start) / unit) := by
        have := mul_le_mul_of_nonneg_left (hle.trans (sub_le_self _ hmod')) hunit.le
        omega
    _ ≤ cal := by
        have := Int.mul_ediv_self_le (x := cal - f.start) hunit.ne'
        omega

theorem prepareCal_eq (h : FixedUnit K f unit) (hn : 0 < n) :
    f.prepareCal K n cal = .done (f.start + unit * f.skippedUnits unit cal) := by
  obtain ⟨m, rfl⟩ : ∃ m, n = m + 1 := ⟨n - 1, by omega⟩
  by_cases hcal : cal - f.start < 1000
  · rw [prepareCal, skippedUnits, if_pos hcal, if_pos hcal, mul_zero, add_zero]
  · have hle := skip_le h.pos hcal
    rw [skippedUnits, if_neg hcal] at hle ⊢
    rw [prepareCal, if_neg hcal, h.divisor]
    dsimp only
    rw [h.add, seek]
    refine Outcome.loop_succ_of_inr ?_
    dsimp only [Outcome.bind]
    rw [decide_eq_true hle]
    rfl

/-! ### The walk from the skip -/

theorem exists_first (h : FixedUnit K f unit) (cal : ℤ) :
    ∃ n, ∃ j : ℕ, f.first K n cal =
      .done (f.start + unit * f.skippedUnits unit cal + unit * f.freqCount * j) := by
  have hperiod : 0 < unit * f.freqCount := mul_pos h.pos (freqCount_pos f)
  have hwalk (d : ℕ) : ∀ s, cal - s ≤ d → ∃ m, ∃ j : ℕ,
      seek m (fun t => .done (decide (cal ≤ t))) (f.step K) s =
        .done (s + unit * f.freqCount * j) := by
    -- The induction is on the distance to the date; every pass makes it shorter.
    induction d with
    | zero =>
      intro s hs
      refine ⟨1, 0, Outcome.loop_succ_of_inr ?_⟩
      dsimp only [Outcome.bind]
      rw [decide_eq_true (by omega : cal ≤ s)]
      simp
    | succ d ih =>
      intro s hs
      by_cases hle : cal ≤ s
      · exact (ih s (by omega))
      · obtain ⟨m, j, hm⟩ := ih (s + unit * f.freqCount) (by omega)
        refine ⟨m + 1, j + 1, ?_⟩
        rw [seek, Outcome.loop_succ_of_inl (t := s + unit * f.freqCount)]
        · rw [seek] at hm
          rw [hm]
          push_cast
          congr 1
          ring
        · dsimp only [Outcome.bind]
          rw [decide_eq_false hle, h.step_eq]
          rfl
  obtain ⟨m, j, hm⟩ := hwalk (cal - (f.start + unit * f.skippedUnits unit cal)).toNat _
    (Int.self_le_toNat _)
  refine ⟨m + 1, j, ?_⟩
  rw [first, prepareCal_eq h m.succ_pos]
  exact (Outcome.loop_le (fun _ => Outcome.Le.refl _) m.le_succ).eq_done hm

theorem of_first_eq_done (h : FixedUnit K f unit) (ht : f.first K n cal = .done t) :
    cal ≤ t ∧ (t < cal + unit * f.freqCount ∨ t = f.start + unit * f.skippedUnits unit cal) ∧
      ∃ j : ℕ, t = f.start + unit * f.skippedUnits unit cal + unit * f.freqCount * j := by
  rw [first] at ht
  obtain ⟨s, hs, hloop⟩ := Outcome.bind_eq_done.mp ht
  have hn : 0 < n := by
    rcases n with _ | n
    · exact absurd hloop (by simp [seek, Outcome.loop])
    · exact n.succ_pos
  obtain rfl : f.start + unit * f.skippedUnits unit cal = s :=
    Outcome.done.inj ((prepareCal_eq h hn).symm.trans hs)
  refine Outcome.of_loop_eq_done
    (I := fun t => (t < cal + unit * f.freqCount ∨ t = f.start + unit * f.skippedUnits unit cal) ∧
      ∃ j : ℕ, t = f.start + unit * f.skippedUnits unit cal + unit * f.freqCount * j)
    (Q := fun t => cal ≤ t ∧
      (t < cal + unit * f.freqCount ∨ t = f.start + unit * f.skippedUnits unit cal) ∧
      ∃ j : ℕ, t = f.start + unit * f.skippedUnits unit cal + unit * f.freqCount * j)
    ?_ ?_ ⟨Or.inr rfl, 0, by simp⟩ hloop
  · rintro t t' ⟨-, j, hj⟩ hbody
    dsimp only [Outcome.bind] at hbody
    split_ifs at hbody with hle
    · simp at hbody
    · obtain rfl : f.step K t = t' := by simpa using hbody
      rw [decide_eq_true_iff] at hle
      rw [h.step_eq]
      refine ⟨Or.inl (by omega), j + 1, ?_⟩
      rw [hj]
      push_cast
      ring
  · rintro t b ⟨hlt, hj⟩ hbody
    dsimp only [Outcome.bind] at hbody
    split_ifs at hbody with hle
    · obtain rfl : t = b := by simpa using hbody
      exact ⟨of_decide_eq_true hle, hlt, hj⟩
    · simp at hbody

/-! ### Agreement -/

theorem mul_pos_le_of_lt {p a b : ℤ} (hp : 0 < p) (h : p * a < p * b + p) : a ≤ b := by
  have : p * a < p * (b + 1) := by rwa [mul_add, mul_one]
  exact Int.lt_add_one_iff.mp (lt_of_mul_lt_mul_left this hp.le)

/-- **A frequency agrees with stepping where the units that are added at once are a whole number
of counts**, and nowhere else. -/
theorem agreesAt_iff (h : FixedUnit K f unit) (cal : ℤ) :
    f.AgreesAt K cal ↔ f.freqCount ∣ f.skippedUnits unit cal := by
  have hperiod : 0 < unit * f.freqCount := mul_pos h.pos (freqCount_pos f)
  constructor
  · rintro ⟨⟨n, t, ht, ⟨hstep, -⟩, -⟩, -, -⟩
    obtain ⟨k, hk⟩ := h.isStep_iff.mp hstep
    obtain ⟨-, -, j, hj⟩ := of_first_eq_done h ht
    refine ⟨k - j, mul_left_cancel₀ h.pos.ne' ?_⟩
    linear_combination hk - hj
  · rintro ⟨q, hq⟩
    obtain ⟨n, j, hn⟩ := exists_first h cal
    obtain ⟨hle, hlt, -⟩ := of_first_eq_done h hn
    rw [hq, ← mul_assoc, add_assoc, ← mul_add] at hn hle hlt
    -- the skip is a whole number of counts, so that the search ends on a step
    set t := f.start + unit * f.freqCount * (q + j) with ht
    have hstep : f.IsStep K t := by
      have hnonneg : 0 ≤ q + j := by
        by_cases hcal : cal - f.start < 1000
        · rw [skippedUnits, if_pos hcal] at hq
          obtain rfl : q = 0 := by
            simpa [(freqCount_pos f).ne'] using hq.symm
          omega
        · refine le_of_mul_le_mul_left (a := unit * f.freqCount) ?_ hperiod
          rw [mul_zero]
          omega
      exact h.isStep_iff.mpr ⟨(q + j).toNat, by rw [Int.toNat_of_nonneg hnonneg]⟩
    -- no step lies between the date and the one found
    have hleast : ∀ s, f.IsStep K s → cal ≤ s → t ≤ s := by
      intro s hs hcals
      obtain ⟨k, rfl⟩ := h.isStep_iff.mp hs
      obtain hlt | hskip := hlt
      · have := mul_pos_le_of_lt hperiod (a := q + j) (b := k) (by omega)
        have := mul_le_mul_of_nonneg_left this hperiod.le
        omega
      · by_cases hcal : cal - f.start < 1000
        · rw [skippedUnits, if_pos hcal] at hq
          have := mul_nonneg hperiod.le (Int.natCast_nonneg k)
          obtain rfl : q = 0 := by
            simpa [(freqCount_pos f).ne'] using hq.symm
          omega
        · have := skip_le h.pos hcal
          rw [hq, ← mul_assoc] at this
          omega
    refine ⟨⟨n, t, hn, ⟨hstep, hle⟩, fun s hs => hleast s hs.1 hs.2⟩, ?_, ?_⟩
    · -- `next` wants a step after the date
      by_cases heq : t = cal
      · refine ⟨n, f.step K t, ?_, ?_⟩
        · rw [next, hn]
          exact congrArg Outcome.done (if_pos heq)
        · rw [h.step_eq]
          obtain ⟨k, hk⟩ := h.isStep_iff.mp hstep
          refine ⟨⟨h.isStep_iff.mpr ⟨k + 1, ?_⟩, by omega⟩, ?_⟩
          · rw [hk]
            push_cast
            ring
          · rintro s ⟨hs, hlt⟩
            obtain ⟨k', rfl⟩ := h.isStep_iff.mp hs
            have hk' : (k : ℤ) + 1 ≤ k' :=
              lt_of_mul_lt_mul_left (a := unit * f.freqCount) (by omega) hperiod.le
            have := mul_le_mul_of_nonneg_left hk' hperiod.le
            rw [mul_add, mul_one] at this
            omega
      · refine ⟨n, t, ?_, ⟨hstep, by omega⟩, fun s hs => hleast s hs.1 hs.2.le⟩
        rw [next, hn]
        exact congrArg Outcome.done (if_neg heq)
    · refine ⟨n, t == cal, by rw [includesDate, hn]; rfl, ?_⟩
      rw [beq_iff_eq]
      refine ⟨fun heq => heq ▸ hstep, fun hcal => le_antisymm (hleast cal hcal le_rfl) hle⟩

/-! ### Beside the steps -/

def everySeven : Frequency := ⟨0, .second, 7, by decide⟩

theorem fixedUnit_everySeven : FixedUnit Gregorian.calendar everySeven 1000 :=
  ⟨rfl, fun _ _ => rfl⟩

theorem agreesAt_everySeven : everySeven.AgreesAt Gregorian.calendar 1672531200000 :=
  (agreesAt_iff fixedUnit_everySeven 1672531200000).mpr (by decide)

theorem not_agreesAt_everySeven : ¬ everySeven.AgreesAt Gregorian.calendar 2147483653000 := by
  rintro ⟨⟨n, t, ht, ⟨hstep, -⟩, -⟩, -, -⟩
  obtain ⟨k, hk⟩ := fixedUnit_everySeven.isStep_iff.mp hstep
  obtain ⟨-, -, j, hj⟩ := of_first_eq_done fixedUnit_everySeven ht
  have hunits : everySeven.skippedUnits 1000 2147483653000 = -2147483643 := by decide
  rw [hunits] at hj
  dsimp only [everySeven] at hj hk
  omega

end OfficeAuto.Service.Frequency
