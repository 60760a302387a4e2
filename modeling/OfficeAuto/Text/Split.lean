import Mathlib.Data.List.DropRight
import Mathlib.Data.List.Infix

/-!
# Cutting texts

The text operations of the Java library that the decoders of this development are written
with, over an arbitrary alphabet: `indexOf` and `lastIndexOf` with `-1` for an absent symbol,
`substring` with its bounds check, `split` at one symbol, which drops trailing empty pieces,
and the tokenizer, which drops every empty piece. `List.splitOn` does the cutting, so its
lemmas are the ones that the round trips use: a text joined from pieces that avoid the
separator is cut back into these pieces.

The other direction needs no joined text at all: no piece contains the separator
(`not_mem_of_mem_splitOn`), and every symbol of a piece comes from the text
(`mem_of_mem_splitOn`).
-/

namespace Text

variable {α : Type*} [DecidableEq α]

/-! ### Positions and substrings -/

/-- The position of the first occurrence of `c`, `-1` where there is none. -/
def indexOf (c : α) (s : List α) : Int :=
  if c ∈ s then (s.idxOf c : Int) else -1

/-- The position of the last occurrence of `c`, `-1` where there is none. -/
def lastIndexOf (c : α) (s : List α) : Int :=
  if c ∈ s then (s.length : Int) - 1 - (s.reverse.idxOf c : Int) else -1

/-- The symbols from position `b` up to but excluding position `e`; `none` is the
index-out-of-bounds exception. -/
def substring (s : List α) (b e : Int) : Option (List α) :=
  if 0 ≤ b ∧ b ≤ e ∧ e ≤ s.length then some ((s.take e.toNat).drop b.toNat) else none

/-- **The text between the first `o` and the last `c`**, where nothing before it has an `o`
and nothing stands after the closing symbol. -/
theorem substring_between {o c : α} {pre mid : List α} (ho : o ∉ pre) :
    substring (pre ++ o :: mid ++ [c]) (indexOf o (pre ++ o :: mid ++ [c]) + 1)
      (lastIndexOf c (pre ++ o :: mid ++ [c])) = some mid := by
  have hi : indexOf o (pre ++ o :: mid ++ [c]) = pre.length := by
    have hmem : o ∈ pre ++ o :: mid ++ [c] := by simp
    rw [indexOf, if_pos hmem, List.append_assoc, List.idxOf_append_of_notMem ho]
    simp
  have hl : lastIndexOf c (pre ++ o :: mid ++ [c]) = pre.length + mid.length + 1 := by
    have hmem : c ∈ pre ++ o :: mid ++ [c] := by simp
    rw [lastIndexOf, if_pos hmem]
    simp
    omega
  rw [hi, hl, substring, if_pos (by simp; omega)]
  have htake : ((pre.length + mid.length + 1 : Int)).toNat = (pre ++ o :: mid).length := by
    simp
    omega
  have hdrop : ((pre.length : Int) + 1).toNat = (pre ++ [o]).length := by
    simp
  rw [htake, hdrop, List.take_left, show pre ++ o :: mid = pre ++ [o] ++ mid by simp,
    List.drop_left]

theorem indexOf_append_cons {c : α} {pre : List α} (h : c ∉ pre) (rest : List α) :
    indexOf c (pre ++ c :: rest) = pre.length := by
  have hmem : c ∈ pre ++ c :: rest := by simp
  rw [indexOf, if_pos hmem, List.idxOf_append_of_notMem h]
  simp

theorem indexOf_bounds (c : α) (s : List α) : -1 ≤ indexOf c s ∧ indexOf c s < s.length := by
  by_cases h : c ∈ s
  · have hlt := List.idxOf_lt_length_of_mem h
    rw [indexOf, if_pos h]
    omega
  · rw [indexOf, if_neg h]
    omega

theorem indexOf_nonneg {c : α} {s : List α} (h : c ∈ s) : 0 ≤ indexOf c s := by
  rw [indexOf, if_pos h]
  exact Int.natCast_nonneg _

omit [DecidableEq α] in
theorem exists_substring {s : List α} {b e : Int} (hb : 0 ≤ b) (hbe : b ≤ e) (he : e ≤ s.length) :
    ∃ t, substring s b e = some t ∧ (t.length : Int) = e - b := by
  rw [substring, if_pos ⟨hb, hbe, he⟩]
  refine ⟨_, rfl, ?_⟩
  rw [List.length_drop, List.length_take]
  omega

omit [DecidableEq α] in
theorem substring_left (s rest : List α) : substring (s ++ rest) 0 s.length = some s := by
  rw [substring, if_pos (by rw [List.length_append]; omega)]
  simp

omit [DecidableEq α] in
theorem substring_right (pre s : List α) :
    substring (pre ++ s) pre.length (pre ++ s).length = some s := by
  rw [substring, if_pos (by rw [List.length_append]; omega), Int.toNat_natCast, Int.toNat_natCast,
    List.take_length, List.drop_left]

omit [DecidableEq α] in
theorem substring_middle (pre mid post : List α) {b e : Int} (hb : b = pre.length)
    (he : e = pre.length + mid.length) : substring (pre ++ (mid ++ post)) b e = some mid := by
  have htake : e.toNat = (pre ++ mid).length := by
    rw [he, List.length_append]
    omega
  rw [substring, if_pos (by simp only [hb, he, List.length_append]; omega), htake,
    ← List.append_assoc, List.take_left, hb, Int.toNat_natCast, List.drop_left]

/-! ### Cutting at a symbol -/

theorem not_mem_of_mem_splitOn {c : α} {s piece : List α} (h : piece ∈ s.splitOn c) :
    c ∉ piece := by
  induction s generalizing piece with
  | nil =>
    rw [List.splitOn_nil, List.mem_singleton] at h
    simp [h]
  | cons x xs ih =>
    rw [List.splitOn_cons_eq_if_modifyHead] at h
    obtain ⟨r, rs, hr⟩ := List.exists_cons_of_ne_nil (List.splitOn_ne_nil c xs)
    split_ifs at h with hx
    · rcases List.mem_cons.mp h with rfl | h
      · simp
      · exact ih h
    · rw [hr, List.modifyHead_cons] at h
      rcases List.mem_cons.mp h with rfl | h
      · have hc : c ∉ r := ih (by rw [hr]; exact List.mem_cons_self)
        have hcx : c ≠ x := by
          rintro rfl
          exact hx (beq_self_eq_true c)
        simp [hc, hcx]
      · exact ih (by rw [hr]; exact List.mem_cons_of_mem _ h)

theorem mem_of_mem_splitOn {c x : α} {s piece : List α} (h : piece ∈ s.splitOn c)
    (hx : x ∈ piece) : x ∈ s := by
  induction s generalizing piece with
  | nil =>
    rw [List.splitOn_nil, List.mem_singleton] at h
    simp [h] at hx
  | cons y ys ih =>
    rw [List.splitOn_cons_eq_if_modifyHead] at h
    obtain ⟨r, rs, hr⟩ := List.exists_cons_of_ne_nil (List.splitOn_ne_nil c ys)
    split_ifs at h with hy
    · rcases List.mem_cons.mp h with rfl | h
      · simp at hx
      · exact List.mem_cons_of_mem _ (ih h hx)
    · rw [hr, List.modifyHead_cons] at h
      rcases List.mem_cons.mp h with rfl | h
      · rcases List.mem_cons.mp hx with rfl | hx
        · exact List.mem_cons_self
        · exact List.mem_cons_of_mem _ (ih (by rw [hr]; exact List.mem_cons_self) hx)
      · exact List.mem_cons_of_mem _ (ih (by rw [hr]; exact List.mem_cons_of_mem _ h) hx)

/-- `String.split` at one symbol: trailing empty pieces are dropped, and a text without the
symbol is its own only piece, also where it is empty. -/
def split (c : α) (s : List α) : List (List α) :=
  if c ∈ s then (s.splitOn c).rdropWhile List.isEmpty else [s]

def tokens (c : α) (s : List α) : List (List α) :=
  (s.splitOn c).filter (fun piece => !piece.isEmpty)

/-- The pieces between the occurrences of a separator, found from the left. The number counts the
symbols of an occurrence that are still to skip. -/
@[grind] def splitOnSeq (sep : List α) : ℕ → List α → List (List α)
  | _, [] => [[]]
  | n + 1, _ :: s => splitOnSeq sep n s
  | 0, c :: s =>
    if sep <+: c :: s then [] :: splitOnSeq sep (sep.length - 1) s
    else (splitOnSeq sep 0 s).modifyHead (c :: ·)

/-- `String.split` at a text, with the same treatment of empty pieces. -/
def splitSeq (sep s : List α) : List (List α) :=
  if sep <:+: s then (splitOnSeq sep 0 s).rdropWhile List.isEmpty else [s]

theorem mem_splitOn_of_mem_split {c : α} {s piece : List α} (h : piece ∈ split c s) :
    piece ∈ s.splitOn c := by
  unfold split at h
  split_ifs at h with hc
  · exact (List.rdropWhile_prefix _ _).subset h
  · rw [List.splitOn_eq_singleton hc]
    exact h

theorem not_mem_of_mem_split {c : α} {s piece : List α} (h : piece ∈ split c s) :
    c ∉ piece :=
  not_mem_of_mem_splitOn (mem_splitOn_of_mem_split h)

theorem mem_of_mem_split {c x : α} {s piece : List α} (h : piece ∈ split c s)
    (hx : x ∈ piece) : x ∈ s :=
  mem_of_mem_splitOn (mem_splitOn_of_mem_split h) hx

/-- **`split` undoes joining**: pieces that avoid the separator, the last of them not
empty, are cut back out of their join. -/
theorem split_intercalate {c : α} (ps : List (List α)) {p : List α}
    (hps : ∀ q ∈ ps, c ∉ q) (hp : c ∉ p) (hne : p ≠ []) :
    split c ([c].intercalate (ps ++ [p])) = ps ++ [p] := by
  have hall : ∀ q ∈ ps ++ [p], c ∉ q := by
    intro q hq
    rcases List.mem_append.mp hq with hq | hq
    · exact hps q hq
    · rw [List.mem_singleton.mp hq]
      exact hp
  have hcut : ([c].intercalate (ps ++ [p])).splitOn c = ps ++ [p] :=
    List.splitOn_intercalate c hall (by simp)
  unfold split
  split_ifs with hc
  · rw [hcut, List.rdropWhile_concat_neg]
    simpa using hne
  · rw [List.splitOn_eq_singleton hc] at hcut
    exact hcut

theorem split_intercalate_of_forall {c : α} {ps : List (List α)} (hne : ps ≠ [])
    (hps : ∀ q ∈ ps, c ∉ q ∧ q ≠ []) : split c ([c].intercalate ps) = ps := by
  obtain rfl | ⟨qs, q, rfl⟩ := List.eq_nil_or_concat ps
  · exact absurd rfl hne
  · rw [List.concat_eq_append] at hps ⊢
    exact split_intercalate qs (fun r hr => (hps r (by simp [hr])).1) (hps q (by simp)).1
      (hps q (by simp)).2

theorem split_pair {c : α} {k v : List α} (hk : c ∉ k) (hv : c ∉ v) (hne : v ≠ []) :
    split c (k ++ c :: v) = [k, v] := by
  have h := split_intercalate [k] (by simpa using hk) hv hne
  simpa [List.intercalate] using h

theorem tokens_pair {c : α} {k v : List α} (hk : c ∉ k) (hv : c ∉ v) :
    tokens c (k ++ c :: v) = [k, v].filter fun piece => !piece.isEmpty := by
  have hcut : ([c].intercalate [k, v]).splitOn c = [k, v] :=
    List.splitOn_intercalate c (by simp [hk, hv]) (List.cons_ne_nil k [v])
  rw [List.intercalate_cons_cons, List.intercalate_singleton, List.append_assoc,
    List.singleton_append] at hcut
  rw [tokens, hcut]

/-- **The tokenizer undoes joining**: non-empty pieces that avoid the separator are cut back
out of their join, also where there are none. -/
theorem tokens_intercalate {c : α} {ps : List (List α)} (hps : ∀ q ∈ ps, c ∉ q ∧ q ≠ []) :
    tokens c ([c].intercalate ps) = ps := by
  have hfilter : ps.filter (fun piece => !piece.isEmpty) = ps := by
    refine List.filter_eq_self.mpr fun q hq => ?_
    simpa using (hps q hq).2
  unfold tokens
  rcases eq_or_ne ps [] with rfl | hne
  · simp
  · rw [List.splitOn_intercalate c (fun q hq => (hps q hq).1) hne, hfilter]

/-! ### Cutting at a text -/

section Seq

variable {sep f s v : List α}

theorem splitOnSeq_skip {n : ℕ} {u : List α} (h : u.length = n) :
    splitOnSeq sep n (u ++ v) = splitOnSeq sep 0 v := by
  induction u generalizing n with
  | nil =>
    subst h
    rfl
  | cons x u ih =>
    subst h
    rw [List.cons_append, List.length_cons, splitOnSeq]
    exact ih rfl

theorem splitOnSeq_append (hne : sep ≠ []) (h : ¬ sep <:+: f ++ sep.dropLast) :
    splitOnSeq sep 0 (f ++ (sep ++ v)) = f :: splitOnSeq sep 0 v := by
  induction f with
  | nil =>
    obtain ⟨c, rest, rfl⟩ := List.exists_cons_of_ne_nil hne
    rw [List.nil_append, List.cons_append, splitOnSeq, if_pos (by simp)]
    exact congrArg _ (splitOnSeq_skip rfl)
  | cons x f ih =>
    have hnot : ¬ sep <+: x :: (f ++ (sep ++ v)) := by
      intro hpre
      refine h (List.IsPrefix.isInfix (List.prefix_of_prefix_length_le hpre ?_ ?_))
      · nth_rewrite 2 [← List.dropLast_append_getLast hne]
        simp
      · simp
        omega
    have htail : ¬ sep <:+: f ++ sep.dropLast := fun hin =>
      h (hin.trans (List.suffix_cons x _).isInfix)
    rw [List.cons_append, splitOnSeq, if_neg hnot, ih htail, List.modifyHead_cons]

theorem splitOnSeq_of_not_subtext (h : ¬ sep <:+: s) : splitOnSeq sep 0 s = [s] := by
  induction s with
  | nil => rfl
  | cons x s ih =>
    have hnot : ¬ sep <+: x :: s := fun hpre => h hpre.isInfix
    have htail : ¬ sep <:+: s := fun hin => h (hin.trans (List.suffix_cons x s).isInfix)
    rw [splitOnSeq, if_neg hnot, ih htail, List.modifyHead_cons]

theorem splitOnSeq_ne_nil (n : ℕ) : splitOnSeq sep n s ≠ [] := by
  induction s generalizing n with
  | nil => cases n <;> exact List.cons_ne_nil _ _
  | cons x s ih =>
    cases n with
    | succ n => exact ih n
    | zero =>
      rw [splitOnSeq]
      split_ifs
      · exact List.cons_ne_nil _ _
      · obtain ⟨p, ps, hp⟩ := List.exists_cons_of_ne_nil (ih 0)
        rw [hp, List.modifyHead_cons]
        exact List.cons_ne_nil _ _

theorem two_le_length_splitOnSeq (h : sep <:+: s) (hne : sep ≠ []) :
    2 ≤ (splitOnSeq sep 0 s).length := by
  induction s with
  | nil => exact absurd (List.infix_nil.mp h) hne
  | cons x s ih =>
    rw [splitOnSeq]
    split_ifs with hpre
    · have hnil : splitOnSeq sep (sep.length - 1) s ≠ [] := splitOnSeq_ne_nil _
      have hpos := List.length_pos_iff.mpr hnil
      simp only [List.length_cons]
      omega
    · rw [List.length_modifyHead]
      exact ih ((List.infix_cons_iff.mp h).resolve_left hpre)

theorem exists_head_splitOnSeq (hne : sep ≠ []) (n : ℕ) (s : List α) :
    ∃ p ps, splitOnSeq sep n s = p :: ps ∧ ¬ sep <:+: p ∧ p <+: s.drop n := by
  induction s generalizing n with
  | nil => cases n <;> exact ⟨[], [], rfl, fun h => hne (List.infix_nil.mp h), List.nil_prefix⟩
  | cons x s ih =>
    cases n with
    | succ n => exact ih n
    | zero =>
      rw [splitOnSeq]
      split_ifs with hpre
      · exact ⟨[], _, rfl, fun h => hne (List.infix_nil.mp h), List.nil_prefix⟩
      · obtain ⟨p, ps, hp, hnot, hprefix⟩ := ih 0
        rw [List.drop_zero] at hprefix
        rw [hp, List.modifyHead_cons]
        refine ⟨x :: p, ps, rfl, fun hin => ?_, List.cons_prefix_cons.mpr ⟨rfl, hprefix⟩⟩
        rcases List.infix_cons_iff.mp hin with hhead | htail
        · exact hpre (hhead.trans (List.cons_prefix_cons.mpr ⟨rfl, hprefix⟩))
        · exact hnot htail

omit [DecidableEq α] in
theorem subtext_append_cons {c : α} {u : List α} (hc : c ∉ sep) (h : sep <:+: u ++ c :: v) :
    sep <:+: u ∨ sep <:+: v := by
  obtain ⟨a, b, hab⟩ := h
  rw [List.append_assoc] at hab
  rcases List.append_eq_append_iff.mp hab with ⟨w, rfl, hw⟩ | ⟨w, rfl, hw⟩
  · -- the part begins before the symbol
    rcases List.append_eq_append_iff.mp hw with ⟨w', rfl, -⟩ | ⟨w', rfl, hw'⟩
    · exact .inl ⟨a, w', by rw [List.append_assoc]⟩
    · cases w' with
      | nil => exact .inl ⟨a, [], by simp⟩
      | cons d w' =>
        obtain ⟨rfl, -⟩ := List.cons_eq_cons.mp hw'
        exact absurd (by simp) hc
  · cases w with
    | nil =>
      cases sep with
      | nil => exact .inl List.nil_infix
      | cons d sep =>
        obtain ⟨rfl, -⟩ := List.cons_eq_cons.mp hw
        exact absurd List.mem_cons_self hc
    | cons d w =>
      obtain ⟨-, rfl⟩ := List.cons_eq_cons.mp hw
      exact .inr ⟨w, b, List.append_assoc w sep b⟩

theorem exists_subtext_splitOn {c : α} (hc : c ∉ sep) (h : sep <:+: s) :
    ∃ p ∈ s.splitOn c, sep <:+: p := by
  have hjoin : [c].intercalate (s.splitOn c) = s := List.intercalate_splitOn c
  have hall : ∀ ps : List (List α), ps ≠ [] → sep <:+: [c].intercalate ps →
      ∃ p ∈ ps, sep <:+: p := by
    intro ps hne hin
    induction ps with
    | nil => exact absurd rfl hne
    | cons p ps ih =>
      cases ps with
      | nil => exact ⟨p, List.mem_cons_self, by simpa [List.intercalate] using hin⟩
      | cons q qs =>
        rw [List.intercalate_cons_cons, List.append_assoc, List.singleton_append] at hin
        rcases subtext_append_cons hc hin with hin | hin
        · exact ⟨p, List.mem_cons_self, hin⟩
        · obtain ⟨r, hr, hsub⟩ := ih (List.cons_ne_nil q qs) hin
          exact ⟨r, List.mem_cons_of_mem _ hr, hsub⟩
  rw [← hjoin] at h
  exact hall _ (List.splitOn_ne_nil c s) h

theorem mem_of_mem_splitOnSeq {x : α} {n : ℕ} {piece : List α} (h : piece ∈ splitOnSeq sep n s)
    (hx : x ∈ piece) : x ∈ s := by
  induction s generalizing n piece with
  | nil =>
    cases n <;>
    · rw [splitOnSeq, List.mem_singleton] at h
      rw [h] at hx
      exact hx
  | cons y s ih =>
    cases n with
    | succ n => exact List.mem_cons_of_mem _ (ih h hx)
    | zero =>
      rw [splitOnSeq] at h
      split_ifs at h
      · rcases List.mem_cons.mp h with rfl | h
        · exact absurd hx List.not_mem_nil
        · exact List.mem_cons_of_mem _ (ih h hx)
      · have hnil : splitOnSeq sep 0 s ≠ [] := splitOnSeq_ne_nil 0
        obtain ⟨p, ps, hp⟩ := List.exists_cons_of_ne_nil hnil
        rw [hp, List.modifyHead_cons] at h
        rcases List.mem_cons.mp h with rfl | h
        · rcases List.mem_cons.mp hx with rfl | hx
          · exact List.mem_cons_self
          · exact List.mem_cons_of_mem _ (ih (hp ▸ List.mem_cons_self) hx)
        · exact List.mem_cons_of_mem _ (ih (hp ▸ List.mem_cons_of_mem _ h) hx)

theorem mem_of_mem_splitSeq {x : α} {piece : List α} (h : piece ∈ splitSeq sep s)
    (hx : x ∈ piece) : x ∈ s := by
  rw [splitSeq] at h
  split_ifs at h
  · exact mem_of_mem_splitOnSeq ((List.rdropWhile_prefix _ _).subset h) hx
  · rwa [List.mem_singleton.mp h] at hx

theorem splitSeq_eq (h : ∀ p ∈ splitOnSeq sep 0 s, p ≠ []) :
    splitSeq sep s = splitOnSeq sep 0 s := by
  unfold splitSeq
  split_ifs with hin
  · rw [List.rdropWhile_eq_self_iff]
    intro hne hlast
    exact h _ (List.getLast_mem hne) (List.isEmpty_iff.mp hlast)
  · exact (splitOnSeq_of_not_subtext hin).symm

end Seq

/-! ### Trimming -/

/-- `String.trim`: no character up to the blank at either end. -/
def trim (s : List Char) : List Char :=
  (s.dropWhile fun c => c ≤ ' ').rdropWhile fun c => c ≤ ' '

theorem mem_of_mem_trim {s : List Char} {c : Char} (h : c ∈ trim s) : c ∈ s :=
  (List.dropWhile_sublist _).subset ((List.rdropWhile_prefix _ _).subset h)

theorem exists_trim (s : List Char) : ∃ l r, s = l ++ (trim s ++ r) ∧ (∀ c ∈ l, c ≤ ' ') ∧
    ∀ c ∈ r, c ≤ ' ' := by
  refine ⟨s.takeWhile (· ≤ ' '), (s.dropWhile (· ≤ ' ')).rtakeWhile (· ≤ ' '), ?_, ?_, ?_⟩
  · rw [trim, List.rdropWhile_append_rtakeWhile, List.takeWhile_append_dropWhile]
  · exact fun c hc => by simpa using List.mem_takeWhile_imp hc
  · exact fun c hc => by simpa using List.mem_rtakeWhile_imp hc

theorem mem_trim {s : List Char} {c : Char} (hc : ' ' < c) (h : c ∈ s) : c ∈ trim s := by
  obtain ⟨l, r, hs, hl, hr⟩ := exists_trim s
  rw [hs] at h
  rcases List.mem_append.mp h with h | h
  · exact absurd (hl c h) (Char.not_le.mpr hc)
  · rcases List.mem_append.mp h with h | h
    · exact h
    · exact absurd (hr c h) (Char.not_le.mpr hc)

theorem trim_of_forall {s : List Char} (hs : ∀ c ∈ s, ' ' < c) : trim s = s := by
  have hle : ∀ c ∈ s, ¬ (c ≤ ' ') := fun c hc => Char.not_le.mpr (hs c hc)
  have hdrop : s.dropWhile (fun c => c ≤ ' ') = s := by
    rw [List.dropWhile_eq_self_iff]
    intro hlen
    simpa using hle _ (List.getElem_mem hlen)
  rw [trim, hdrop, List.rdropWhile_eq_self_iff]
  intro hne
  simpa using hle _ (List.getLast_mem hne)

end Text
