import Mathlib.Data.List.Infix

/-!
# Replacing a pattern in a text

`replaceAll` replaces the occurrences of a pattern from left to right, each one after the end of the
one before. `replaceDown` replaces every occurrence in the text, the last one first, in a copy of
the text; what an occurrence covers of the copy may be a replacement already.

The two agree on a text in which no two occurrences overlap (`replacedTail_eq_replaceAll`). On any
other text a replacement that is longer than the pattern tells them apart, by the length of the
result (`noOverlap_of_eq`).
-/

namespace Text

variable {α : Type*} [DecidableEq α]

/-! ### From left to right -/

/-- The symbols that an occurrence covers are skipped; `k` of them are left. -/
def replaceFrom (pattern replacement : List α) : ℕ → List α → List α
  | _, [] => []
  | k + 1, _ :: s => replaceFrom pattern replacement k s
  | 0, c :: s =>
    if pattern.isPrefixOf (c :: s) then
      replacement ++ replaceFrom pattern replacement (pattern.length - 1) s
    else c :: replaceFrom pattern replacement 0 s

def replaceAll (pattern replacement s : List α) : List α :=
  replaceFrom pattern replacement 0 s

variable {pattern replacement s : List α} {c : α} {k : ℕ}

theorem replaceFrom_eq_drop :
    replaceFrom pattern replacement k s = replaceAll pattern replacement (s.drop k) := by
  induction k generalizing s with
  | zero => rw [List.drop_zero, replaceAll]
  | succ k ih =>
    cases s with
    | nil => rw [List.drop_nil, replaceAll, replaceFrom, replaceFrom]
    | cons c s =>
      rw [replaceFrom, List.drop_succ_cons]
      exact ih

theorem replaceAll_nil : replaceAll pattern replacement [] = [] := rfl

theorem replaceAll_of_occurs (h : pattern <+: c :: s) :
    replaceAll pattern replacement (c :: s) =
      replacement ++ replaceAll pattern replacement (s.drop (pattern.length - 1)) := by
  rw [replaceAll, replaceFrom, if_pos (List.isPrefixOf_iff_prefix.mpr h), replaceFrom_eq_drop]

theorem replaceAll_of_not_occurs (h : ¬pattern <+: c :: s) :
    replaceAll pattern replacement (c :: s) = c :: replaceAll pattern replacement s := by
  rw [replaceAll, replaceFrom, if_neg (mt List.isPrefixOf_iff_prefix.mp h), ← replaceAll]

theorem replaceAll_of_not_infix (h : ¬pattern <:+: s) : replaceAll pattern replacement s = s := by
  induction s with
  | nil => rfl
  | cons c s ih =>
    rw [replaceAll_of_not_occurs fun hstarts => h hstarts.isInfix,
      ih fun hin => h (hin.trans (List.suffix_cons c s).isInfix)]

theorem replaceAll_append_of_not_infix (hpattern : pattern ≠ []) (h : ¬pattern <:+: s) :
    replaceAll pattern [] (pattern ++ s) = s := by
  cases pattern with
  | nil => exact absurd rfl hpattern
  | cons c pattern =>
    have hstarts : c :: pattern <+: c :: (pattern ++ s) := List.prefix_append (c :: pattern) s
    rw [List.cons_append, replaceAll_of_occurs hstarts, List.nil_append, List.length_cons,
      Nat.add_sub_cancel, List.drop_left, replaceAll_of_not_infix h]

/-! ### In a copy, from right to left -/

/-- `StringBuilder.replace`, whose end may be behind that of the text. -/
def replaceSlice (sb : List α) (start stop : ℕ) (replacement : List α) : List α :=
  sb.take start ++ replacement ++ sb.drop stop

/-- The occurrences in `main` at positions below `n` are replaced in the copy `sb`, the last one
first. -/
def replaceDown (pattern replacement main : List α) : ℕ → List α → List α
  | 0, sb => sb
  | n + 1, sb =>
    replaceDown pattern replacement main n
      (if pattern.isPrefixOf (main.drop n) then replaceSlice sb n (n + pattern.length) replacement
      else sb)

/-- What has become of a text when all the occurrences in it are replaced. -/
def replacedTail (pattern replacement : List α) : List α → List α
  | [] => []
  | c :: s =>
    if pattern.isPrefixOf (c :: s) then
      replacement ++ (replacedTail pattern replacement s).drop (pattern.length - 1)
    else c :: replacedTail pattern replacement s

/-- **The copy is the text that is left, and what has become of the rest.** -/
theorem replaceDown_eq (hpattern : pattern ≠ []) (main : List α) {n : ℕ} (hn : n ≤ main.length) :
    replaceDown pattern replacement main n
        (main.take n ++ replacedTail pattern replacement (main.drop n)) =
      replacedTail pattern replacement main := by
  induction n with
  | zero => rw [replaceDown, List.take_zero, List.nil_append, List.drop_zero]
  | succ n ih =>
    have hlt : n < main.length := hn
    have hdrop : main.drop n = main[n] :: main.drop (n + 1) := List.drop_eq_getElem_cons hlt
    have hlength : (main.take (n + 1)).length = n + 1 := by
      rw [List.length_take, Nat.min_eq_left hn]
    rw [replaceDown, ← ih (Nat.le_of_lt hlt)]
    congr 1
    split_ifs with hocc
    · have hpos := List.length_pos_iff.mpr hpattern
      have htake : (main.take (n + 1) ++
          replacedTail pattern replacement (main.drop (n + 1))).take n = main.take n := by
        rw [List.take_append_of_le_length (by omega), List.take_take,
          Nat.min_eq_left (Nat.le_succ n)]
      have hdropTail : (main.take (n + 1) ++
          replacedTail pattern replacement (main.drop (n + 1))).drop (n + pattern.length) =
            (replacedTail pattern replacement (main.drop (n + 1))).drop (pattern.length - 1) := by
        rw [List.drop_append, hlength, List.drop_eq_nil_of_le (by omega), List.nil_append]
        congr 1
        omega
      rw [replaceSlice, htake, hdropTail, hdrop, replacedTail, if_pos (hdrop ▸ hocc),
        List.append_assoc]
    · rw [hdrop, replacedTail, if_neg (hdrop ▸ hocc), List.take_succ_eq_append_getElem hlt,
        List.append_assoc]
      rfl

theorem replaceDown_length (hpattern : pattern ≠ []) (main : List α) :
    replaceDown pattern replacement main main.length main =
      replacedTail pattern replacement main := by
  have h : replaceDown pattern replacement main main.length (main.take main.length ++
      replacedTail pattern replacement (main.drop main.length)) =
        replacedTail pattern replacement main := replaceDown_eq hpattern main (Nat.le_refl _)
  rwa [List.take_length, List.drop_length, replacedTail, List.append_nil] at h

theorem replacedTail_of_occurs (h : pattern <+: c :: s) :
    replacedTail pattern replacement (c :: s) =
      replacement ++ (replacedTail pattern replacement s).drop (pattern.length - 1) := by
  rw [replacedTail, if_pos (List.isPrefixOf_iff_prefix.mpr h)]

theorem replacedTail_of_not_occurs (h : ¬pattern <+: c :: s) :
    replacedTail pattern replacement (c :: s) = c :: replacedTail pattern replacement s := by
  rw [replacedTail, if_neg (mt List.isPrefixOf_iff_prefix.mp h)]

/-! ### Overlapping occurrences -/

def NoOverlap (pattern s : List α) : Prop :=
  ∀ i j, i < j → j < i + pattern.length → pattern <+: s.drop i → ¬pattern <+: s.drop j

omit [DecidableEq α] in
theorem NoOverlap.drop (h : NoOverlap pattern s) (k : ℕ) : NoOverlap pattern (s.drop k) := by
  intro i j hij hj hi hocc
  rw [List.drop_drop] at hi hocc
  exact h (k + i) (k + j) (by omega) (by omega) hi hocc

theorem replacedTail_eq_take (k : ℕ) (h : ∀ j, j < k → ¬pattern <+: s.drop j) :
    replacedTail pattern replacement s =
      s.take k ++ replacedTail pattern replacement (s.drop k) := by
  induction k generalizing s with
  | zero => rw [List.take_zero, List.drop_zero, List.nil_append]
  | succ k ih =>
    cases s with
    | nil => rfl
    | cons c s =>
      rw [replacedTail_of_not_occurs (h 0 (Nat.succ_pos k)), List.take_succ_cons,
        List.drop_succ_cons, List.cons_append, ← ih fun j hj => h (j + 1) (Nat.succ_lt_succ hj)]

/-- **Without overlaps, the order of the replacements does not matter.** -/
theorem replacedTail_eq_replaceAll (hpattern : pattern ≠ []) (h : NoOverlap pattern s) :
    replacedTail pattern replacement s = replaceAll pattern replacement s := by
  have hpos := List.length_pos_iff.mpr hpattern
  -- the induction is on the length, since an occurrence is skipped at once
  induction hlength : s.length using Nat.strong_induction_on generalizing s with
  | _ n ih =>
  cases s with
  | nil => rfl
  | cons c s =>
    rw [List.length_cons] at hlength
    by_cases hocc : pattern <+: c :: s
    · have hnone : ∀ j, j < pattern.length - 1 → ¬pattern <+: s.drop j := fun j hj =>
        h 0 (j + 1) (Nat.succ_pos j) (by omega) hocc
      have hle : pattern.length - 1 ≤ s.length := by
        have hle := hocc.length_le
        rw [List.length_cons] at hle
        omega
      have hlt : (s.drop (pattern.length - 1)).length < n := by
        rw [List.length_drop]
        omega
      have htail : NoOverlap pattern s := h.drop 1
      have hrest := ih _ hlt (htail.drop (pattern.length - 1)) rfl
      rw [replacedTail_of_occurs hocc, replaceAll_of_occurs hocc, replacedTail_eq_take _ hnone,
        List.drop_left' (List.length_take_of_le hle), hrest]
    · have htail : NoOverlap pattern s := h.drop 1
      rw [replacedTail_of_not_occurs hocc, replaceAll_of_not_occurs hocc,
        ih s.length (by omega) htail rfl]

/-! ### Lengths -/

def occurrences (pattern : List α) : List α → ℕ
  | [] => 0
  | c :: s => (if pattern.isPrefixOf (c :: s) then 1 else 0) + occurrences pattern s

/-- The number of occurrences that are replaced from left to right; `k` symbols are skipped. -/
def replacementsFrom (pattern : List α) : ℕ → List α → ℕ
  | _, [] => 0
  | k + 1, _ :: s => replacementsFrom pattern k s
  | 0, c :: s =>
    if pattern.isPrefixOf (c :: s) then 1 + replacementsFrom pattern (pattern.length - 1) s
    else replacementsFrom pattern 0 s

theorem replacementsFrom_eq_drop :
    replacementsFrom pattern k s = replacementsFrom pattern 0 (s.drop k) := by
  induction k generalizing s with
  | zero => rw [List.drop_zero]
  | succ k ih =>
    cases s with
    | nil => rfl
    | cons c s =>
      rw [replacementsFrom, List.drop_succ_cons]
      exact ih

theorem replacementsFrom_of_occurs (h : pattern <+: c :: s) :
    replacementsFrom pattern 0 (c :: s) =
      1 + replacementsFrom pattern 0 (s.drop (pattern.length - 1)) := by
  rw [replacementsFrom, if_pos (List.isPrefixOf_iff_prefix.mpr h), replacementsFrom_eq_drop]

theorem replacementsFrom_of_not_occurs (h : ¬pattern <+: c :: s) :
    replacementsFrom pattern 0 (c :: s) = replacementsFrom pattern 0 s := by
  rw [replacementsFrom, if_neg (mt List.isPrefixOf_iff_prefix.mp h)]

theorem occurrences_of_occurs (h : pattern <+: c :: s) :
    occurrences pattern (c :: s) = 1 + occurrences pattern s := by
  rw [occurrences, if_pos (List.isPrefixOf_iff_prefix.mpr h)]

theorem occurrences_of_not_occurs (h : ¬pattern <+: c :: s) :
    occurrences pattern (c :: s) = occurrences pattern s := by
  rw [occurrences, if_neg (mt List.isPrefixOf_iff_prefix.mp h), Nat.zero_add]

theorem occurrences_drop_le (k : ℕ) : occurrences pattern (s.drop k) ≤ occurrences pattern s := by
  induction k generalizing s with
  | zero => rw [List.drop_zero]
  | succ k ih =>
    cases s with
    | nil => exact Nat.le_refl _
    | cons c s =>
      rw [List.drop_succ_cons, occurrences]
      exact Nat.le_trans ih (Nat.le_add_left _ _)

theorem occurrences_drop_lt {j : ℕ} (hpattern : pattern ≠ []) (hj : j < k)
    (h : pattern <+: s.drop j) : occurrences pattern (s.drop k) < occurrences pattern s := by
  have hs : j < s.length := by
    by_contra hge
    rw [List.drop_eq_nil_of_le (Nat.le_of_not_lt hge)] at h
    exact hpattern (List.prefix_nil.mp h)
  have hcons : s.drop j = s[j] :: s.drop (j + 1) := List.drop_eq_getElem_cons hs
  have hrest : s.drop k = (s.drop (j + 1)).drop (k - (j + 1)) := by
    rw [List.drop_drop]
    congr 1
    omega
  calc occurrences pattern (s.drop k)
      ≤ occurrences pattern (s.drop (j + 1)) := hrest ▸ occurrences_drop_le _
    _ < occurrences pattern (s.drop j) := by
        rw [hcons, occurrences_of_occurs (hcons ▸ h)]
        omega
    _ ≤ occurrences pattern s := occurrences_drop_le j

/-- **Counting shows an overlap**: from left to right, at most all occurrences are replaced, and all
of them only if none overlap. -/
theorem replacements_le (hpattern : pattern ≠ []) :
    replacementsFrom pattern 0 s ≤ occurrences pattern s ∧
      (replacementsFrom pattern 0 s = occurrences pattern s → NoOverlap pattern s) := by
  have hpos := List.length_pos_iff.mpr hpattern
  induction hlength : s.length using Nat.strong_induction_on generalizing s with
  | _ n ih =>
  cases s with
  | nil =>
    refine ⟨Nat.le_refl _, fun _ i j _ _ hocc => ?_⟩
    rw [List.drop_nil] at hocc
    exact absurd (List.prefix_nil.mp hocc) hpattern
  | cons c s =>
    rw [List.length_cons] at hlength
    by_cases hocc : pattern <+: c :: s
    · have hlt : (s.drop (pattern.length - 1)).length < n := by
        rw [List.length_drop]
        omega
      obtain ⟨hle, hall⟩ := ih _ hlt rfl
      have hdrop : occurrences pattern (s.drop (pattern.length - 1)) ≤ occurrences pattern s :=
        occurrences_drop_le _
      rw [replacementsFrom_of_occurs hocc, occurrences_of_occurs hocc]
      refine ⟨by omega, fun heq => ?_⟩
      have hnone : ∀ j, j < pattern.length - 1 → ¬pattern <+: s.drop j := by
        intro j hj hocc'
        have hlt' := occurrences_drop_lt hpattern hj hocc'
        omega
      have hrest := hall (by omega)
      intro i j hij hj hi hocc'
      obtain ⟨j, rfl⟩ := Nat.exists_eq_succ_of_ne_zero (Nat.ne_of_gt (Nat.zero_lt_of_lt hij))
      cases i with
      | zero => exact hnone j (by omega) hocc'
      | succ i =>
        by_cases hi' : i < pattern.length - 1
        · exact hnone i hi' hi
        · refine hrest (i - (pattern.length - 1)) (j - (pattern.length - 1)) (by omega) (by omega)
            ?_ ?_
          · rwa [List.drop_drop, Nat.add_sub_cancel' (by omega)]
          · rwa [List.drop_drop, Nat.add_sub_cancel' (by omega)]
    · obtain ⟨hle, hall⟩ := ih s.length (by omega) rfl
      rw [replacementsFrom_of_not_occurs hocc, occurrences_of_not_occurs hocc]
      refine ⟨hle, fun heq i j hij hj hi => ?_⟩
      cases i with
      | zero => exact absurd hi hocc
      | succ i =>
        obtain ⟨j, rfl⟩ := Nat.exists_eq_succ_of_ne_zero (Nat.ne_of_gt (Nat.zero_lt_of_lt hij))
        exact hall heq i j (by omega) (by omega) hi

theorem length_replaceAll (hpattern : pattern ≠ []) :
    (replaceAll pattern replacement s).length + replacementsFrom pattern 0 s * pattern.length =
      s.length + replacementsFrom pattern 0 s * replacement.length := by
  have hpos := List.length_pos_iff.mpr hpattern
  induction hlength : s.length using Nat.strong_induction_on generalizing s with
  | _ n ih =>
  cases s with
  | nil => rw [replaceAll_nil, replacementsFrom, Nat.zero_mul, Nat.zero_mul, ← hlength]
  | cons c s =>
    rw [List.length_cons] at hlength
    by_cases hocc : pattern <+: c :: s
    · have hle := hocc.length_le
      rw [List.length_cons] at hle
      have hdrop : (s.drop (pattern.length - 1)).length = s.length - (pattern.length - 1) :=
        List.length_drop
      have hrest := ih (s.drop (pattern.length - 1)).length (by omega) rfl
      rw [replaceAll_of_occurs hocc, replacementsFrom_of_occurs hocc, List.length_append,
        Nat.add_mul, Nat.add_mul]
      omega
    · have hrest := ih s.length (by omega) rfl
      rw [replaceAll_of_not_occurs hocc, replacementsFrom_of_not_occurs hocc, List.length_cons]
      omega

theorem length_replacedTail (hpattern : pattern ≠ [])
    (hle : pattern.length ≤ replacement.length) :
    (replacedTail pattern replacement s).length + occurrences pattern s * pattern.length =
      s.length + occurrences pattern s * replacement.length := by
  have hpos := List.length_pos_iff.mpr hpattern
  induction s with
  | nil =>
    rw [occurrences, Nat.zero_mul, Nat.zero_mul]
    rfl
  | cons c s ih =>
    by_cases hocc : pattern <+: c :: s
    · have hlength := hocc.length_le
      rw [List.length_cons] at hlength
      have hmul := Nat.mul_le_mul_left (occurrences pattern s) hle
      rw [replacedTail_of_occurs hocc, occurrences_of_occurs hocc, List.length_append,
        List.length_drop, List.length_cons, Nat.add_mul, Nat.add_mul]
      omega
    · rw [replacedTail_of_not_occurs hocc, occurrences_of_not_occurs hocc, List.length_cons,
        List.length_cons]
      omega

/-- **A longer replacement shows an overlap.** -/
theorem noOverlap_of_eq (hpattern : pattern ≠ []) (hlt : pattern.length < replacement.length)
    (heq : replacedTail pattern replacement s = replaceAll pattern replacement s) :
    NoOverlap pattern s := by
  obtain ⟨hle, hall⟩ := replacements_le (s := s) hpattern
  refine hall (Nat.le_antisymm hle (Nat.le_of_not_lt fun hless => ?_))
  have hdown := length_replacedTail (s := s) hpattern (Nat.le_of_lt hlt)
  rw [heq] at hdown
  have hall : (replaceAll pattern replacement s).length +
      replacementsFrom pattern 0 s * pattern.length =
        s.length + replacementsFrom pattern 0 s * replacement.length := length_replaceAll hpattern
  -- every occurrence makes the text longer, by the same number of symbols
  obtain ⟨d, hd⟩ := Nat.exists_eq_add_of_lt hlt
  rw [hd, Nat.add_assoc, Nat.mul_add] at hdown hall
  have hmul : occurrences pattern s * (d + 1) = replacementsFrom pattern 0 s * (d + 1) := by omega
  exact Nat.ne_of_lt hless (Nat.eq_of_mul_eq_mul_right (Nat.succ_pos d) hmul).symm

end Text
