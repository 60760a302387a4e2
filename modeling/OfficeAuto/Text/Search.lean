import Mathlib.Data.List.Basic

/-!
# Searching a text

`indexOfFrom` is the position of the first occurrence of a pattern from a position on, and
`slice` the text between two positions. A found pattern stands where it was found
(`slice_of_indexOfFrom`), and a text is cut at positions by `slice_append_slice`.
-/

namespace Text

variable {α : Type*}

/-! ### Slices -/

def slice (s : List α) (i j : ℕ) : List α :=
  (s.take j).drop i

theorem slice_append_slice {s : List α} {i j k : ℕ} (hij : i ≤ j) (hjk : j ≤ k) :
    slice s i j ++ slice s j k = slice s i k := by
  unfold slice
  have htake : s.take j = (s.take k).take j := by rw [List.take_take, Nat.min_eq_left hjk]
  have hdrop : (s.take k).drop j = ((s.take k).drop i).drop (j - i) := by
    rw [List.drop_drop, Nat.add_sub_cancel' hij]
  rw [htake, List.drop_take, hdrop, List.take_append_drop]

theorem slice_self (s : List α) (i : ℕ) : slice s i i = [] := by
  rw [slice, List.drop_eq_nil_iff]
  exact List.length_take_le i s

theorem length_slice {s : List α} {i j : ℕ} (hj : j ≤ s.length) :
    (slice s i j).length = j - i := by
  rw [slice, List.length_drop, List.length_take, Nat.min_eq_left hj]

theorem slice_succ {s : List α} {i : ℕ} {c : α} (h : s[i]? = some c) :
    slice s i (i + 1) = [c] := by
  obtain ⟨hi, rfl⟩ := List.getElem?_eq_some_iff.mp h
  apply List.ext_getElem
  · rw [length_slice hi]
    simp
  · intro n h₁ h₂
    obtain rfl : n = 0 := by simpa using h₂
    simp [slice]

theorem slice_zero_length (s : List α) : slice s 0 s.length = s := by
  simp [slice]

theorem slice_take {s : List α} {i j k : ℕ} (hjk : j ≤ k) : slice (s.take k) i j = slice s i j := by
  rw [slice, List.take_take, Nat.min_eq_left hjk, slice]

/-! ### The first occurrence of a pattern -/

theorem slice_of_prefix {pattern s : List α} {j : ℕ} (h : pattern <+: s.drop j) :
    slice s j (j + pattern.length) = pattern := by
  rw [slice, List.drop_take, Nat.add_sub_cancel_left]
  exact (List.prefix_iff_eq_take.mp h).symm

theorem getElem?_of_prefix {pattern s : List α} {j k : ℕ} (h : pattern <+: s.drop j)
    (hk : k < pattern.length) : s[j + k]? = pattern[k]? := by
  obtain ⟨rest, hrest⟩ := h
  rw [← List.getElem?_drop, ← hrest, List.getElem?_append_left hk]

theorem le_length_of_prefix {pattern s : List α} {j : ℕ} (hne : pattern ≠ [])
    (h : pattern <+: s.drop j) : j + pattern.length ≤ s.length := by
  have hlen := h.length_le
  rw [List.length_drop] at hlen
  have hpos := List.length_pos_iff.mpr hne
  omega

variable [DecidableEq α]

def find (pattern : List α) : List α → Option ℕ
  | [] => if pattern = [] then some 0 else none
  | c :: cs => if pattern.isPrefixOf (c :: cs) then some 0 else (find pattern cs).map (· + 1)

/-- The position of the first occurrence of a pattern from position `i` on. -/
def indexOfFrom (pattern s : List α) (i : ℕ) : Option ℕ :=
  (find pattern (s.drop i)).map (i + ·)

theorem prefix_of_find {pattern s : List α} {j : ℕ} (h : find pattern s = some j) :
    pattern <+: s.drop j := by
  induction s generalizing j with
  | nil =>
    by_cases hp : pattern = []
    · rw [hp]
      exact List.nil_prefix
    · simp [find, hp] at h
  | cons c cs ih =>
    by_cases hp : pattern.isPrefixOf (c :: cs)
    · obtain rfl : 0 = j := by simpa [find, hp] using h
      exact List.isPrefixOf_iff_prefix.mp hp
    · simp only [find, hp, Bool.false_eq_true, if_false, Option.map_eq_some_iff] at h
      obtain ⟨j, hj, rfl⟩ := h
      exact ih hj

theorem find_append {pattern s : List α} {j : ℕ} (h : find pattern s = some j) (t : List α) :
    find pattern (s ++ t) = some j := by
  induction s generalizing j with
  | nil =>
    have hp : pattern = [] := by
      by_contra hp
      simp [find, hp] at h
    subst hp
    obtain rfl : 0 = j := by simpa [find] using h
    rcases t with _ | ⟨c, t⟩ <;> simp [find]
  | cons c cs ih =>
    rw [List.cons_append, find] at *
    by_cases hp : pattern.isPrefixOf (c :: cs)
    · have hp' : pattern.isPrefixOf (c :: (cs ++ t)) :=
        List.isPrefixOf_iff_prefix.mpr
          ((List.isPrefixOf_iff_prefix.mp hp).trans (List.prefix_append (c :: cs) t))
      simpa [hp, hp'] using h
    · simp only [hp, Bool.false_eq_true, if_false, Option.map_eq_some_iff] at h
      obtain ⟨j, hj, rfl⟩ := h
      -- the pattern fits into the text, so that it is found there or not at all
      have hlen : pattern.length ≤ (c :: cs).length := by
        have hle := (prefix_of_find hj).length_le
        rw [List.length_drop] at hle
        rw [List.length_cons]
        omega
      have hp' : ¬ pattern.isPrefixOf (c :: (cs ++ t)) := fun hp' =>
        hp (List.isPrefixOf_iff_prefix.mpr (List.prefix_of_prefix_length_le
          (List.isPrefixOf_iff_prefix.mp hp') (List.prefix_append (c :: cs) t) hlen))
      simp [hp', ih hj]

theorem indexOfFrom_append {pattern s : List α} {i j : ℕ}
    (h : indexOfFrom pattern s i = some j) (t : List α) (hi : i ≤ s.length) :
    indexOfFrom pattern (s ++ t) i = some j := by
  obtain ⟨k, hk, rfl⟩ := Option.map_eq_some_iff.mp h
  rw [indexOfFrom, List.drop_append_of_le_length hi, find_append hk, Option.map_some]

theorem le_of_indexOfFrom {pattern s : List α} {i j : ℕ} (h : indexOfFrom pattern s i = some j) :
    i ≤ j := by
  obtain ⟨k, -, rfl⟩ := Option.map_eq_some_iff.mp h
  exact Nat.le_add_right i k

theorem prefix_of_indexOfFrom {pattern s : List α} {i j : ℕ}
    (h : indexOfFrom pattern s i = some j) : pattern <+: s.drop j := by
  obtain ⟨k, hk, rfl⟩ := Option.map_eq_some_iff.mp h
  rw [← List.drop_drop]
  exact prefix_of_find hk

theorem find_eq_some_iff {pattern s : List α} {j : ℕ} :
    find pattern s = some j ↔ pattern <+: s.drop j ∧ ∀ i < j, ¬pattern <+: s.drop i := by
  induction s generalizing j with
  | nil =>
    rw [find]
    by_cases hp : pattern = []
    · subst hp
      rw [if_pos rfl]
      refine ⟨fun h => ?_, fun h => ?_⟩
      · rw [← Option.some.inj h]
        exact ⟨List.nil_prefix, fun i hi => absurd hi (Nat.not_lt_zero i)⟩
      · rcases Nat.eq_zero_or_pos j with rfl | hj
        · rfl
        · exact absurd List.nil_prefix (h.2 0 hj)
    · rw [if_neg hp]
      refine ⟨fun h => absurd h.symm (Option.some_ne_none j), fun h => absurd ?_ hp⟩
      rw [List.drop_nil] at h
      exact List.prefix_nil.mp h.1
  | cons c cs ih =>
    rw [find]
    by_cases hp : pattern <+: c :: cs
    · rw [if_pos (List.isPrefixOf_iff_prefix.mpr hp)]
      refine ⟨fun h => ?_, fun h => ?_⟩
      · rw [← Option.some.inj h]
        exact ⟨hp, fun i hi => absurd hi (Nat.not_lt_zero i)⟩
      · rcases Nat.eq_zero_or_pos j with rfl | hj
        · rfl
        · exact absurd hp (h.2 0 hj)
    · rw [if_neg fun h => hp (List.isPrefixOf_iff_prefix.mp h), Option.map_eq_some_iff]
      constructor
      · rintro ⟨k, hk, rfl⟩
        obtain ⟨hfound, hfirst⟩ := ih.mp hk
        refine ⟨hfound, fun i hi => ?_⟩
        cases i with
        | zero => exact hp
        | succ i => exact hfirst i (Nat.succ_lt_succ_iff.mp hi)
      · rintro ⟨hfound, hfirst⟩
        cases j with
        | zero => exact absurd hfound hp
        | succ j =>
          exact ⟨j, ih.mpr ⟨hfound, fun i hi => hfirst (i + 1) (Nat.succ_lt_succ hi)⟩, rfl⟩

theorem exists_find_of_infix {pattern s : List α} (h : pattern <:+: s) :
    ∃ j, find pattern s = some j := by
  induction s with
  | nil =>
    obtain rfl : pattern = [] := List.infix_nil.mp h
    exact ⟨0, rfl⟩
  | cons c cs ih =>
    rw [find]
    by_cases hprefix : pattern.isPrefixOf (c :: cs) = true
    · exact ⟨0, if_pos hprefix⟩
    · obtain ⟨j, hj⟩ := ih ((List.infix_cons_iff.mp h).resolve_left fun hp =>
        hprefix (List.isPrefixOf_iff_prefix.mpr hp))
      exact ⟨j + 1, by rw [if_neg hprefix, hj, Option.map_some]⟩

theorem find_singleton_iff {c : α} {s : List α} {j : ℕ} :
    find [c] s = some j ↔ ∃ pre post, s = pre ++ c :: post ∧ pre.length = j ∧ c ∉ pre := by
  rw [find_eq_some_iff]
  constructor
  · rintro ⟨⟨post, hpost⟩, hfirst⟩
    have hj : j ≤ s.length := by
      by_contra hlt
      rw [List.drop_eq_nil_of_le (Nat.le_of_not_le hlt)] at hpost
      cases hpost
    refine ⟨s.take j, post, ?_, List.length_take_of_le hj, fun hmem => ?_⟩
    · exact (List.take_append_drop j s).symm.trans (congrArg (s.take j ++ ·) hpost.symm)
    · obtain ⟨i, hi, hc⟩ := List.getElem_of_mem hmem
      rw [List.length_take_of_le hj] at hi
      rw [List.getElem_take] at hc
      refine hfirst i hi ?_
      rw [List.drop_eq_getElem_cons (Nat.lt_of_lt_of_le hi hj), hc]
      exact List.prefix_append [c] _
  · rintro ⟨pre, post, rfl, rfl, hpre⟩
    refine ⟨?_, fun i hi h => hpre ?_⟩
    · rw [List.drop_left]
      exact List.prefix_append [c] post
    · have hget := getElem?_of_prefix h Nat.one_pos
      rw [Nat.add_zero, List.getElem?_append_left hi, List.getElem?_cons_zero] at hget
      exact List.mem_of_getElem? hget

end Text
