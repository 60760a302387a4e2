import OfficeAuto.Service.GregorianCalendar

/-!
# The occurrences of a temporal expression in a range of dates

`getRange` seeks the first date of an expression and goes on with `next`, as long as the dates
lie in the range. The occurrences are the dates of this walk without an end; nothing is said
about their order here, since `next` may return a date that is not later.

`getRange_right_iff` says when `getRange` returns the occurrences in the range: the walk comes
to an end, does not go back behind its start, and does not enter the range again once it is
outside. The last condition fails for the plainest use: where the first date is before the
range, nothing is returned at all.
-/

namespace OfficeAuto.Service

/-- `TreeSet.add` of a date. -/
def insertDate (date : ℤ) : List ℤ → List ℤ
  | [] => [date]
  | d :: ds =>
    if date < d then date :: d :: ds else if date = d then d :: ds else d :: insertDate date ds

theorem mem_insertDate {date t : ℤ} {ds : List ℤ} :
    t ∈ insertDate date ds ↔ t = date ∨ t ∈ ds := by
  induction ds with
  | nil => simp [insertDate]
  | cons d ds ih =>
    rw [insertDate]
    split_ifs with hlt heq
    · exact List.mem_cons
    · subst heq
      simp
    · rw [List.mem_cons, ih, List.mem_cons]
      exact or_left_comm

theorem pairwise_insertDate {date : ℤ} {ds : List ℤ} (h : ds.Pairwise (· < ·)) :
    (insertDate date ds).Pairwise (· < ·) := by
  induction ds with
  | nil => exact List.pairwise_singleton _ _
  | cons d ds ih =>
    obtain ⟨hhead, htail⟩ := List.pairwise_cons.mp h
    rw [insertDate]
    split_ifs with hlt heq
    · refine List.pairwise_cons.mpr ⟨fun t ht => ?_, h⟩
      obtain rfl | ht := List.mem_cons.mp ht
      · exact hlt
      · exact hlt.trans (hhead t ht)
    · exact h
    · refine List.pairwise_cons.mpr ⟨fun t ht => ?_, ih htail⟩
      obtain rfl | ht := mem_insertDate.mp ht
      · omega
      · exact hhead t ht

namespace TemporalExpression

variable (K : SettableCalendar) (n : ℕ) (e : TemporalExpression) (range : DateRange) (cal : ℤ)

/-- One pass of `getRange`: the set so far and the next date. The loop is left as well where
`next` returns the date that it was given. -/
def rangeStep (s : List ℤ × Option ℤ) : Outcome ((List ℤ × Option ℤ) ⊕ List ℤ) :=
  match s.2 with
  | none => .done (.inr s.1)
  | some last =>
    if range.includesDate last then
      (e.next K n last).bind fun next =>
        if next = some last then .done (.inr (insertDate last s.1))
        else .done (.inl (insertDate last s.1, next))
    else .done (.inr s.1)

def getRange : Outcome (List ℤ) :=
  (e.first K n cal).bind fun next => Outcome.loop (rangeStep K n e range) n ([], next)

/-! ### Occurrences -/

def First (r : Option ℤ) : Prop := ∃ n, e.first K n cal = .done r

def Next (t : ℤ) (r : Option ℤ) : Prop := ∃ n, e.next K n t = .done r

/-- From the date `r` on, the walk comes to `t` over dates with the property `P`. -/
inductive Onward (P : ℤ → Prop) : Option ℤ → ℤ → Prop
  | here {t : ℤ} (h : P t) : Onward P (some t) t
  | later {s t : ℤ} {r : Option ℤ} (h : P s) (hnext : Next K e s r) (hrest : Onward P r t) :
      Onward P (some s) t

/-- The occurrences: the first date, and the successive values of `next`. -/
def Occurs (t : ℤ) : Prop := ∃ r, First K e cal r ∧ Onward K e (fun _ => True) r t

/-- **`getRange` returns the occurrences in the range**, from the start on, in increasing order
and each of them once. -/
def RangeIsRight : Prop :=
  ∃ set, (∃ n, getRange K n e range cal = .done set) ∧ set.Pairwise (· < ·) ∧
    ∀ t, t ∈ set ↔ Occurs K e cal t ∧ range.includesDate t = true ∧ cal ≤ t

/-! ### When the walk ends -/

/-- From the date `r` on, the walk comes to the end of the expression, leaves the range, or
stays where it is. -/
inductive Ends : Option ℤ → Prop
  | null : Ends none
  | outside {t : ℤ} (h : range.includesDate t = false) : Ends (some t)
  | stays {t : ℤ} (h : range.includesDate t = true) (hnext : Next K e t (some t)) : Ends (some t)
  | next {t : ℤ} {r : Option ℤ} (h : range.includesDate t = true) (hnext : Next K e t r)
      (hrest : Ends r) : Ends (some t)

/-- The walk from the start ends, the dates up to its end are not before the start, and after it
no occurrence in the range follows that is not among them. -/
structure RangeHoldsWhen (r : Option ℤ) : Prop where
  ends : Ends K e range r
  notBefore : ∀ t, Onward K e (fun s => range.includesDate s = true) r t → cal ≤ t
  notAgain : ∀ t, Onward K e (fun _ => True) r t → range.includesDate t = true → cal ≤ t →
    Onward K e (fun s => range.includesDate s = true) r t

section Walk

variable {K n e range cal}
variable {m : ℕ} {r : Option ℤ} {t : ℤ} {ds set : List ℤ}

theorem next_unique {r' : Option ℤ} (h : Next K e t r) (h' : Next K e t r') : r = r' := by
  obtain ⟨n, hn⟩ := h
  obtain ⟨m, hm⟩ := h'
  have hmax := (next_le e (le_max_left n m)).eq_done hn
  rw [(next_le e (le_max_right n m)).eq_done hm] at hmax
  exact (Outcome.done.inj hmax).symm

theorem first_unique {r' : Option ℤ} (h : First K e cal r) (h' : First K e cal r') : r = r' := by
  obtain ⟨n, hn⟩ := h
  obtain ⟨m, hm⟩ := h'
  have hmax := (first_le e (le_max_left n m) cal).eq_done hn
  rw [(first_le e (le_max_right n m) cal).eq_done hm] at hmax
  exact (Outcome.done.inj hmax).symm

theorem rangeStep_le (h : n ≤ m) (s : List ℤ × Option ℤ) :
    Outcome.Le (rangeStep K n e range s) (rangeStep K m e range s) := by
  obtain ⟨ds, _ | t⟩ := s
  · exact Outcome.Le.refl _
  · exact Outcome.Le.ite ((next_le e h).bind fun _ => Outcome.Le.refl _) (Outcome.Le.refl _)

theorem getRange_le (h : n ≤ m) :
    Outcome.Le (getRange K n e range cal) (getRange K m e range cal) :=
  (first_le e h cal).bind fun _ => Outcome.loop_le (rangeStep_le h) h

theorem rangeStep_of_not_includes (h : range.includesDate t = false) :
    rangeStep K n e range (ds, some t) = .done (.inr ds) := by
  rw [rangeStep]
  exact if_neg (by rw [h]; decide)

theorem rangeStep_of_next (h : range.includesDate t = true) (hnext : e.next K n t = .done r) :
    rangeStep K n e range (ds, some t) =
      if r = some t then .done (.inr (insertDate t ds)) else .done (.inl (insertDate t ds, r)) := by
  rw [rangeStep]
  refine (if_pos h).trans ?_
  rw [hnext]
  rfl

theorem not_onward_none {P : ℤ → Prop} : ¬ Onward K e P none t := by
  intro h
  cases h

theorem Onward.start {P : ℤ → Prop} {s : ℤ} (h : Onward K e P (some s) t) : P s := by
  cases h with
  | here h => exact h
  | later h => exact h

theorem Onward.holds {P : ℤ → Prop} (h : Onward K e P r t) : P t := by
  induction h with
  | here h => exact h
  | later _ _ _ ih => exact ih

theorem Onward.mono {P Q : ℤ → Prop} (h : Onward K e P r t) (hPQ : ∀ s, P s → Q s) :
    Onward K e Q r t := by
  induction h with
  | here h => exact .here (hPQ _ h)
  | later h hnext _ ih => exact .later (hPQ _ h) hnext ih

theorem onward_of_stays {P : ℤ → Prop} {s : ℤ} (hnext : Next K e t (some t))
    (h : Onward K e P (some t) s) : s = t := by
  generalize hr : some t = r at h
  induction h with
  | here h => exact (Option.some.inj hr).symm
  | later h hnext' hrest ih =>
    obtain rfl := Option.some.inj hr
    exact ih (next_unique hnext hnext')

theorem of_loop_rangeStep (hset : Outcome.loop (rangeStep K n e range) m (ds, r) = .done set) :
    (ds.Pairwise (· < ·) → set.Pairwise (· < ·)) ∧ Ends K e range r ∧
      ∀ t, t ∈ set ↔ t ∈ ds ∨ Onward K e (fun s => range.includesDate s = true) r t := by
  induction m generalizing ds r with
  | zero => exact absurd hset (by simp [Outcome.loop])
  | succ m ih =>
    have hstep := Outcome.loop_succ_eq_done.mp hset
    cases r with
    | none =>
      obtain h | ⟨s, h, -⟩ := hstep
      · obtain rfl : ds = set := Sum.inr.inj (Outcome.done.inj h)
        exact ⟨id, .null, fun t => ⟨Or.inl, fun h => h.resolve_right not_onward_none⟩⟩
      · exact absurd (Outcome.done.inj h) Sum.inr_ne_inl
    | some last =>
      cases hrange : range.includesDate last with
      | false =>
        rw [rangeStep_of_not_includes hrange] at hstep
        obtain h | ⟨s, h, -⟩ := hstep
        · obtain rfl : ds = set := Sum.inr.inj (Outcome.done.inj h)
          refine ⟨id, .outside hrange,
            fun t => ⟨Or.inl, fun hor => hor.resolve_right fun hon => ?_⟩⟩
          exact absurd (hrange.symm.trans hon.start) (by decide)
        · exact absurd (Outcome.done.inj h) Sum.inr_ne_inl
      | true =>
        obtain ⟨next, hnext⟩ : ∃ next, e.next K n last = .done next := by
          obtain h | ⟨s, h, -⟩ := hstep
          all_goals
            replace h := (if_pos hrange).symm.trans h
            obtain ⟨next, hnext, -⟩ := Outcome.bind_eq_done.mp h
            exact ⟨next, hnext⟩
        rw [rangeStep_of_next hrange hnext] at hstep
        -- a date whose next date is itself ends the loop after it has been added
        by_cases hstays : next = some last
        · subst hstays
          rw [if_pos rfl] at hstep
          obtain h | ⟨s, h, -⟩ := hstep
          · obtain rfl : insertDate last ds = set := Sum.inr.inj (Outcome.done.inj h)
            refine ⟨pairwise_insertDate, .stays hrange ⟨n, hnext⟩, fun t => ?_⟩
            rw [mem_insertDate, or_comm]
            refine or_congr_right ⟨?_, onward_of_stays ⟨n, hnext⟩⟩
            rintro rfl
            exact .here hrange
          · exact absurd (Outcome.done.inj h) Sum.inr_ne_inl
        · rw [if_neg hstays] at hstep
          obtain h | ⟨s, h, hrest⟩ := hstep
          · exact absurd (Outcome.done.inj h) Sum.inl_ne_inr
          · obtain rfl : (insertDate last ds, next) = s := Sum.inl.inj (Outcome.done.inj h)
            obtain ⟨hsorted, hends, hmem⟩ := ih hrest
            refine ⟨fun h => hsorted (pairwise_insertDate h), .next hrange ⟨n, hnext⟩ hends,
              fun t => ?_⟩
            rw [hmem, mem_insertDate, or_comm (a := t = last), or_assoc]
            refine or_congr_right ⟨?_, fun hon => ?_⟩
            · rintro (rfl | hrest)
              · exact .here hrange
              · exact .later hrange ⟨n, hnext⟩ hrest
            · cases hon with
              | here hin => exact Or.inl rfl
              | later hin hnext' hrest =>
                exact Or.inr (next_unique hnext' ⟨n, hnext⟩ ▸ hrest)

theorem exists_loop_of_ends (h : Ends K e range r) (ds : List ℤ) :
    ∃ m set, Outcome.loop (rangeStep K m e range) m (ds, r) = .done set := by
  induction h generalizing ds with
  | null => exact ⟨1, ds, rfl⟩
  | outside h => exact ⟨1, ds, Outcome.loop_succ_of_inr (rangeStep_of_not_includes h)⟩
  | @stays t h hnext =>
    obtain ⟨n, hn⟩ := hnext
    refine ⟨n + 1, insertDate t ds, Outcome.loop_succ_of_inr ?_⟩
    rw [rangeStep_of_next h ((next_le e (Nat.le_succ n)).eq_done hn), if_pos rfl]
  | @next t r h hnext hrest ih =>
    obtain ⟨n, hn⟩ := hnext
    by_cases hstays : r = some t
    · refine ⟨n + 1, insertDate t ds, Outcome.loop_succ_of_inr ?_⟩
      rw [rangeStep_of_next h ((next_le e (Nat.le_succ n)).eq_done hn), if_pos hstays]
    · obtain ⟨m, set, hm⟩ := ih (insertDate t ds)
      have hle : n ≤ max n m + 1 := (le_max_left n m).trans (Nat.le_succ _)
      have hle' : m ≤ max n m + 1 := (le_max_right n m).trans (Nat.le_succ _)
      refine ⟨max n m + 1, set, ?_⟩
      rw [Outcome.loop_succ_of_inl (t := (insertDate t ds, r))]
      · exact (Outcome.loop_le (rangeStep_le hle') (le_max_right n m)).eq_done hm
      · rw [rangeStep_of_next h ((next_le e hle).eq_done hn), if_neg hstays]

theorem of_getRange (h : getRange K n e range cal = .done set) :
    ∃ r, First K e cal r ∧ Ends K e range r ∧ set.Pairwise (· < ·) ∧
      ∀ t, t ∈ set ↔ Onward K e (fun s => range.includesDate s = true) r t := by
  obtain ⟨r, hr, hloop⟩ := Outcome.bind_eq_done.mp h
  obtain ⟨hsorted, hends, hmem⟩ := of_loop_rangeStep hloop
  refine ⟨r, ⟨n, hr⟩, hends, hsorted .nil, fun t => ?_⟩
  rw [hmem]
  exact or_iff_right List.not_mem_nil

theorem exists_getRange (hfirst : First K e cal r) (hends : Ends K e range r) :
    ∃ set n, getRange K n e range cal = .done set := by
  obtain ⟨n, hn⟩ := hfirst
  obtain ⟨m, set, hm⟩ := exists_loop_of_ends hends []
  refine ⟨set, max n m, ?_⟩
  rw [getRange, (first_le e (le_max_left n m) cal).eq_done hn]
  exact (Outcome.loop_le (rangeStep_le (le_max_right n m)) (le_max_right n m)).eq_done hm

end Walk

def everyDay : TemporalExpression := .simple (.dayOfMonthRange ⟨1, 31, by decide⟩)

def twoDays : DateRange := ⟨1672617600000, 1672704000000, by decide⟩

theorem getRange_unique {n m : ℕ} {set set' : List ℤ} (h : getRange K n e range cal = .done set)
    (h' : getRange K m e range cal = .done set') : set = set' := by
  have hmax := (getRange_le (le_max_left n m)).eq_done h
  rw [(getRange_le (le_max_right n m)).eq_done h'] at hmax
  exact (Outcome.done.inj hmax).symm

end TemporalExpression

end OfficeAuto.Service
