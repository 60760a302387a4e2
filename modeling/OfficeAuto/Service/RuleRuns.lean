import OfficeAuto.Service.RecurrenceInfo

/-!
# What a rule enumerates

`RecurrenceRule.next` and `isValid` for any arguments, those that stand for a default included: a
start of `0` is the time of the call, and a from time of `0` is the start.

`next` answers with the first run that is not before the from time, or with `0`. It ends only if
the runs come that far, and its answer is strictly after the from time unless this is a run that
passes the lists. `isValid` goes on from the answers of `next`, of which the second is the first
again. It answers for a time up to the start, and for a later one hardly ever
(`rule_right_iff`).
-/

namespace OfficeAuto.Service.RecurrenceRule

variable (cal : Calendar) (now : ℤ) (r : RecurrenceRule)

/-- `next` ends, with `0` or with a time that is strictly after the from time, a whole number of
intervals from the start, and passes the lists. -/
def NextRight (startTime fromTime currentCount : ℤ) : Prop :=
  ∃ t, (∃ fuel, r.next cal now fuel startTime fromTime currentCount = .done t) ∧
    (t = 0 ∨ (fromOf now startTime fromTime < t ∧
      (∃ k, r.run cal (startOf now startTime) k = t) ∧ r.validByRule cal t = some true))

/-- The rule is past a limit; or there is a first run that is not before the from time, the lists
can be read on it, and the from time itself is no run that passes them. -/
def NextFits (startTime fromTime currentCount : ℤ) : Prop :=
  ¬r.Active now currentCount ∨
    ((∃ t, r.FirstRun cal (startOf now startTime) (fromOf now startTime fromTime) t ∧
        r.validByRule cal t ≠ none) ∧
      (fromOf now startTime fromTime ≠ 0 →
        ¬r.ValidRun cal now (startOf now startTime) (fromOf now startTime fromTime) currentCount
          (fromOf now startTime fromTime)))

/-- A time that `next` answers, asked from some time with the count of `isValid`. -/
def Enumerates (startTime t : ℤ) : Prop :=
  t ≠ 0 ∧ ∃ fromTime fuel, r.next cal now fuel startTime fromTime 1 = .done t

/-- `isValid` ends, and is true exactly for the times that `next` enumerates. -/
def IsValidRight (startTime dateTime : ℤ) : Prop :=
  ∃ b, (∃ fuel, r.isValid cal now fuel startTime dateTime = .done b) ∧
    (b = true ↔ r.Enumerates cal now startTime dateTime)

/-- A time up to the start: it is the start exactly if it is a run that passes the lists. A later
time: it is before `0`, no such run, and `next` answers `0` for the start; or the start is `0`,
and the time of the call is a run that passes the lists and not before it. -/
def IsValidFits (startTime dateTime : ℤ) : Prop :=
  (dateTime ≤ startTime → (dateTime = startTime ↔ dateTime ≠ 0 ∧
    r.ValidRun cal now (startOf now startTime) dateTime 1 dateTime)) ∧
  (startTime < dateTime →
    (startTime ≠ 0 ∧ dateTime < 0 ∧
        (¬r.Active now 1 ∨ r.validByRule cal startTime = some false) ∧
        ¬r.ValidRun cal now startTime dateTime 1 dateTime) ∨
      (startTime = 0 ∧ dateTime ≤ now ∧ r.ValidRun cal now now now 1 now))

variable {cal now r} {fuel : ℕ} {startTime fromTime dateTime currentCount t : ℤ}

/-! ### What `next` comes to -/

theorem next_done_iff :
    (∃ fuel, r.next cal now fuel startTime fromTime currentCount = .done t) ↔
      r.Answers cal now (startOf now startTime) (fromOf now startTime fromTime) currentCount t :=
  ⟨fun ⟨_, h⟩ => answers_next h,
    fun h => (exists_next_of_answers h).imp fun m hm => hm m le_rfl⟩

theorem nextRight_iff : r.NextRight cal now startTime fromTime currentCount ↔
    r.NextFits cal now startTime fromTime currentCount := by
  rw [NextRight, NextFits]
  simp only [next_done_iff]
  constructor
  · rintro ⟨t, hanswer, hright⟩
    cases hanswer with
    | inactive h => exact Or.inl h
    | valid h =>
      refine Or.inr ⟨⟨t, h.2.1, by rw [h.2.2]; exact Option.some_ne_none _⟩, fun hne hself => ?_⟩
      have hsame := h.2.1.unique hself.2.1
      obtain hzero | ⟨hlt, -⟩ := hright
      · exact hne (hsame ▸ hzero)
      · omega
    | @invalid t' hactive hrun h =>
      refine Or.inr ⟨⟨t', hrun, by rw [h]; exact Option.some_ne_none _⟩, fun _ hself => ?_⟩
      rw [hrun.unique hself.2.1, hself.2.2] at h
      exact Bool.false_ne_true (Option.some.inj h).symm
  · rintro (h | ⟨⟨t, hrun, hlists⟩, hself⟩)
    · exact ⟨0, .inactive h, Or.inl rfl⟩
    · by_cases hactive : r.Active now currentCount
      · cases hvalid : r.validByRule cal t with
        | none => exact absurd hvalid hlists
        | some b =>
          cases b with
          | false => exact ⟨0, .invalid hactive hrun hvalid, Or.inl rfl⟩
          | true =>
            refine ⟨t, .valid ⟨hactive, hrun, hvalid⟩, ?_⟩
            obtain hlt | heq := lt_or_eq_of_le hrun.le
            · obtain ⟨k, hk, -⟩ := hrun
              exact Or.inr ⟨hlt, ⟨k, hk⟩, hvalid⟩
            · -- The from time itself is the answer, which has to be `0`.
              rw [← heq] at hrun hvalid ⊢
              exact Or.inl (by_contra fun hne => hself hne ⟨hactive, hrun, hvalid⟩)
      · exact ⟨0, .inactive hactive, Or.inl rfl⟩

theorem FirstRun.self (h : r.FirstRun cal startTime fromTime t) :
    r.FirstRun cal startTime t t := by
  obtain ⟨k, hk, hle, hlt⟩ := h
  exact ⟨k, hk, le_rfl, fun j hj => lt_of_lt_of_le (hlt j hj) hle⟩

theorem enumerates_iff : r.Enumerates cal now startTime t ↔
    t ≠ 0 ∧ r.ValidRun cal now (startOf now startTime) t 1 t := by
  refine and_congr_right fun hne => ?_
  constructor
  · rintro ⟨fromTime, hanswer⟩
    cases next_done_iff.mp hanswer with
    | inactive h => exact absurd rfl hne
    | valid h => exact ⟨h.1, h.2.1.self, h.2.2⟩
    | invalid _ _ _ => exact absurd rfl hne
  · intro h
    have hfrom : fromOf now startTime t = t := if_neg hne
    exact ⟨t, next_done_iff.mpr (.valid (hfrom.symm ▸ h))⟩

/-! ### What `isValid` comes to -/

theorem fromOf_start : fromOf now startTime startTime = startOf now startTime := by
  rw [fromOf, startOf]
  split_ifs <;> rfl

theorem fromOf_of_answers (h : r.Answers cal now (startOf now startTime) (startOf now startTime)
    currentCount t) : fromOf now startTime t = startOf now startTime := by
  rw [fromOf]
  obtain rfl | rfl := h.eq_start_or_zero
  · exact ite_self _
  · exact if_pos rfl

theorem isValid_done_iff {b : Bool} (hlt : startTime < dateTime) :
    (∃ fuel, r.isValid cal now fuel startTime dateTime = .done b) ↔
      ∃ t, r.Answers cal now (startOf now startTime) (startOf now startTime) 1 t ∧
        ((t = dateTime ∧ b = true) ∨ (dateTime < t ∧ b = false)) := by
  constructor
  · rintro ⟨fuel, h⟩
    rw [isValid, if_neg (ne_of_lt hlt)] at h
    have hnext : ∀ s t, (s = startTime ∨
        (r.Answers cal now (startOf now startTime) (startOf now startTime) 1 s ∧ s ≠ dateTime)) →
        r.next cal now fuel startTime s 1 = .done t →
        r.Answers cal now (startOf now startTime) (startOf now startTime) 1 t := by
      rintro s t hs ht
      have hfrom : fromOf now startTime s = startOf now startTime := by
        obtain rfl | ⟨hanswer, -⟩ := hs
        · exact fromOf_start
        · exact fromOf_of_answers hanswer
      exact hfrom ▸ answers_next ht
    -- The test time is the start or an answer for the start that is not the date.
    refine Outcome.of_loop_eq_done (I := fun s => s = startTime ∨
      (r.Answers cal now (startOf now startTime) (startOf now startTime) 1 s ∧ s ≠ dateTime))
      (Q := fun b => ∃ t,
        r.Answers cal now (startOf now startTime) (startOf now startTime) 1 t ∧
          ((t = dateTime ∧ b = true) ∨ (dateTime < t ∧ b = false)))
      ?_ ?_ (Or.inl rfl) h
    · intro s s' hs hbody
      by_cases hguard : s < dateTime
      · rw [if_pos hguard, Outcome.bind_eq_done] at hbody
        obtain ⟨t, ht, hbody⟩ := hbody
        by_cases hdate : t = dateTime
        · rw [if_pos hdate] at hbody
          exact absurd (Outcome.done.inj hbody) (by simp)
        · rw [if_neg hdate] at hbody
          obtain rfl := Sum.inl.inj (Outcome.done.inj hbody)
          exact Or.inr ⟨hnext s t hs ht, hdate⟩
      · rw [if_neg hguard] at hbody
        exact absurd (Outcome.done.inj hbody) (by simp)
    · intro s b' hs hbody
      by_cases hguard : s < dateTime
      · rw [if_pos hguard, Outcome.bind_eq_done] at hbody
        obtain ⟨t, ht, hbody⟩ := hbody
        by_cases hdate : t = dateTime
        · rw [if_pos hdate] at hbody
          exact ⟨t, hnext s t hs ht, Or.inl ⟨hdate, (Sum.inr.inj (Outcome.done.inj hbody)).symm⟩⟩
        · rw [if_neg hdate] at hbody
          exact absurd (Outcome.done.inj hbody) (by simp)
      · rw [if_neg hguard] at hbody
        obtain rfl | ⟨hanswer, hne⟩ := hs
        · exact absurd hlt hguard
        · exact ⟨s, hanswer, Or.inr ⟨lt_of_le_of_ne (not_lt.mp hguard) hne.symm,
            (Sum.inr.inj (Outcome.done.inj hbody)).symm⟩⟩
  · rintro ⟨t, hanswer, hdate⟩
    have hstart : r.Answers cal now (startOf now startTime) (fromOf now startTime startTime) 1 t :=
      by rwa [fromOf_start]
    obtain ⟨m, hm⟩ := exists_next_of_answers hstart
    have hfirst := hm (m + 2) (by omega)
    refine ⟨m + 2, ?_⟩
    rw [isValid, if_neg (ne_of_lt hlt)]
    obtain ⟨rfl, rfl⟩ | ⟨hafter, rfl⟩ := hdate
    · refine Outcome.loop_succ_of_inr ?_
      rw [if_pos hlt, hfirst, Outcome.bind, if_pos rfl]
    · rw [Outcome.loop_succ_of_inl (t := t)]
      · exact Outcome.loop_succ_of_inr (if_neg (not_lt.mpr (le_of_lt hafter)))
      · rw [if_pos hlt, hfirst, Outcome.bind, if_neg (ne_of_gt hafter)]

theorem isValid_done_iff_of_le {b : Bool} (hle : dateTime ≤ startTime) :
    (∃ fuel, r.isValid cal now fuel startTime dateTime = .done b) ↔
      (b = true ↔ dateTime = startTime) := by
  obtain hlt | rfl := lt_or_eq_of_le hle
  · constructor
    · rintro ⟨fuel | fuel, h⟩
      · rw [isValid, if_neg (ne_of_gt hlt)] at h
        exact absurd h (by simp [Outcome.loop])
      · obtain rfl := Outcome.done.inj ((isValid_of_lt hlt).symm.trans h)
        exact iff_of_false Bool.false_ne_true (ne_of_lt hlt)
    · intro h
      have hfalse : b = false := Bool.eq_false_iff.mpr fun hb => ne_of_lt hlt (h.mp hb)
      exact ⟨1, hfalse ▸ isValid_of_lt hlt⟩
  · constructor
    · rintro ⟨fuel, h⟩
      exact iff_of_true (Outcome.done.inj (isValid_start.symm.trans h)).symm rfl
    · exact fun h => ⟨0, h.mpr rfl ▸ isValid_start⟩

theorem isValidRight_of_le (hle : dateTime ≤ startTime) :
    r.IsValidRight cal now startTime dateTime ↔
      (dateTime = startTime ↔ r.Enumerates cal now startTime dateTime) := by
  rw [IsValidRight]
  simp only [isValid_done_iff_of_le hle]
  constructor
  · rintro ⟨b, hb, hright⟩
    exact hb.symm.trans hright
  · intro h
    by_cases hsame : dateTime = startTime
    · exact ⟨true, iff_of_true rfl hsame, iff_of_true rfl (h.mp hsame)⟩
    · exact ⟨false, iff_of_false Bool.false_ne_true hsame,
        iff_of_false Bool.false_ne_true fun henum => hsame (h.mpr henum)⟩

theorem isValidRight_of_gt (hlt : startTime < dateTime) :
    r.IsValidRight cal now startTime dateTime ↔
      ∃ t, r.Answers cal now (startOf now startTime) (startOf now startTime) 1 t ∧
        ((t = dateTime ∧ r.Enumerates cal now startTime dateTime) ∨
          (dateTime < t ∧ ¬r.Enumerates cal now startTime dateTime)) := by
  rw [IsValidRight]
  simp only [isValid_done_iff hlt]
  constructor
  · rintro ⟨b, ⟨t, hanswer, ⟨hdate, rfl⟩ | ⟨hafter, rfl⟩⟩, hright⟩
    · exact ⟨t, hanswer, Or.inl ⟨hdate, hright.mp rfl⟩⟩
    · exact ⟨t, hanswer, Or.inr ⟨hafter, fun henum => Bool.false_ne_true (hright.mpr henum)⟩⟩
  · rintro ⟨t, hanswer, ⟨hdate, henum⟩ | ⟨hafter, hnot⟩⟩
    · exact ⟨true, ⟨t, hanswer, Or.inl ⟨hdate, rfl⟩⟩, iff_of_true rfl henum⟩
    · exact ⟨false, ⟨t, hanswer, Or.inr ⟨hafter, rfl⟩⟩,
        iff_of_false Bool.false_ne_true hnot⟩

theorem answers_zero_iff (hne : startTime ≠ 0) :
    r.Answers cal now startTime startTime currentCount 0 ↔
      ¬r.Active now currentCount ∨ r.validByRule cal startTime = some false := by
  have hself : r.FirstRun cal startTime startTime startTime :=
    (firstRun_iff_of_le le_rfl).mpr rfl
  constructor
  · intro h
    cases h with
    | inactive h => exact Or.inl h
    | valid h => exact absurd ((firstRun_iff_of_le le_rfl).mp h.2.1).symm hne
    | invalid _ hrun h => exact Or.inr ((firstRun_iff_of_le le_rfl).mp hrun ▸ h)
  · rintro (h | h)
    · exact .inactive h
    · by_cases hactive : r.Active now currentCount
      · exact .invalid hactive hself h
      · exact .inactive hactive

theorem isValidRight_iff : r.IsValidRight cal now startTime dateTime ↔
    r.IsValidFits cal now startTime dateTime := by
  rw [IsValidFits]
  obtain hle | hlt := le_or_gt dateTime startTime
  · rw [isValidRight_of_le hle, enumerates_iff]
    exact ⟨fun h => ⟨fun _ => h, fun hgt => absurd hgt (not_lt.mpr hle)⟩, fun h => h.1 hle⟩
  rw [isValidRight_of_gt hlt, enumerates_iff]
  refine ⟨fun h => ⟨fun hle => absurd hlt (not_lt.mpr hle), fun _ => ?_⟩, fun h => ?_⟩
  · obtain ⟨t, hanswer, hdate⟩ := h
    by_cases hzero : startTime = 0
    · -- The answer is the time of the call, since the date is after `0`.
      have hstart : startOf now startTime = now := if_pos hzero
      rw [hstart] at hanswer
      refine Or.inr ⟨hzero, ?_⟩
      cases hanswer with
      | inactive _ => omega
      | invalid _ _ _ => omega
      | valid h =>
        have hself := (firstRun_iff_of_le le_rfl).mp h.2.1
        rw [hself] at h hdate
        refine ⟨?_, h⟩
        omega
    · have hstart : startOf now startTime = startTime := startOf_of_ne hzero
      rw [hstart] at hanswer hdate
      obtain rfl | rfl := hanswer.eq_start_or_zero
      · omega
      · refine Or.inl ⟨hzero, ?_, (answers_zero_iff hzero).mp hanswer, ?_⟩
        · obtain ⟨hdate, henum, -⟩ | ⟨hafter, -⟩ := hdate
          · exact absurd hdate.symm henum
          · exact hafter
        · obtain ⟨hdate, henum, -⟩ | ⟨hafter, hnot⟩ := hdate
          · exact absurd hdate.symm henum
          · exact fun hrun => hnot ⟨ne_of_lt hafter, hrun⟩
  · obtain ⟨hzero, hneg, hanswer, hnot⟩ | ⟨hzero, hle, hrun⟩ := h.2 hlt
    · rw [startOf_of_ne hzero]
      exact ⟨0, (answers_zero_iff hzero).mpr hanswer, Or.inr ⟨hneg, fun henum => hnot henum.2⟩⟩
    · have hstart : startOf now startTime = now := if_pos hzero
      rw [hstart]
      refine ⟨now, .valid hrun, ?_⟩
      obtain hbefore | rfl := lt_or_eq_of_le hle
      · exact Or.inr ⟨hbefore, fun henum => absurd henum.2.2.1.start_le (not_le.mpr hbefore)⟩
      · exact Or.inl ⟨rfl, by omega, hrun⟩

end OfficeAuto.Service.RecurrenceRule
