import OfficeAuto.Entity.SegmentLengths
import OfficeAuto.Logic.Loop
import OfficeAuto.Text.Search
import OfficeAuto.Text.Split

/-!
# Shortening names

`ModelUtil.shortenDbName` makes the name of a table or a column short enough for a database. It
removes vowels and double underscores, then one character at a time from the ends of the segments,
and at last the second segment over and over.

The loops are evaluated on a budget for their passes. All but the last one end (`shortenName_spec`):
each pass is a number of steps on the lengths of the segments. The last one has nothing to remove
from a name that starts with an underscore or has two segments, and goes on all the same if the name
is still too long. So a name is shortened exactly if its `least` length is short enough
(`shortenDbName_iff`).
-/

namespace OfficeAuto.Entity.ModelUtil

/-! ### The code -/

/-- `StringBuilder.deleteCharAt` -/
def deleteCharAt (buf : List Char) (i : ℤ) : Outcome (List Char) :=
  if 0 ≤ i ∧ i < buf.length then .done (buf.eraseIdx i.toNat) else .threw

/-- `StringBuilder.delete` -/
def delete (buf : List Char) (start stop : ℤ) : Outcome (List Char) :=
  if 0 ≤ start ∧ start ≤ min stop buf.length then
    .done (buf.take start.toNat ++ buf.drop stop.toNat)
  else .threw

def position (found : Option ℕ) : ℤ := (found.map Int.ofNat).getD (-1)

@[simp]
theorem position_some (k : ℕ) : position (some k) = k := rfl

@[simp]
theorem position_none : position none = -1 := rfl

def lastIndexOfFrom (buf : List Char) (fromIndex : ℤ) : ℤ :=
  Text.lastIndexOf '_' (buf.take (fromIndex + 1).toNat)

/-- The loop that removes double underscores, with the flag that it sets. -/
def removeDoubles (n : ℕ) (state : List Char × Bool) : Outcome (List Char × Bool) :=
  Outcome.loop (fun state =>
    let i := position (Text.find ['_', '_'] state.1)
    if 0 < i then (deleteCharAt state.1 i).bind fun dbBuf => .done (.inl (dbBuf, true))
    else .done (.inr state)) n state

def vowelBag : List Char := "aeiouyAEIOUY".toList

/-- The test of the loop over the characters: the first letter of the bag does not pass it. -/
def isVowel (curChar : Char) : Bool := 0 < Text.indexOf curChar vowelBag

/-- The loop over the characters, down from a position to the second one. -/
def removeVowels : ℕ → List Char → List Char
  | 0, dbBuf => dbBuf
  | i + 1, dbBuf =>
    removeVowels i <|
      if dbBuf[i]? = some '_' then dbBuf
      else if dbBuf[i + 1]?.any isVowel then dbBuf.eraseIdx (i + 1) else dbBuf

def shortenSegment (desiredLength : ℤ) (state : List Char × ℤ × Bool) :
    Outcome ((List Char × ℤ × Bool) ⊕ (List Char × Bool)) :=
  let dbBuf := state.1
  let usIndex := state.2.1
  let removedChars := state.2.2
  if 0 < usIndex ∧ desiredLength < dbBuf.length then
    let prevUsIndex := lastIndexOfFrom dbBuf (usIndex - 1)
    if prevUsIndex < 0 ∧ usIndex < 4 then .done (.inr (dbBuf, removedChars))
    else if 0 ≤ prevUsIndex ∧ usIndex - prevUsIndex ≤ 4 then
      .done (.inl (dbBuf, prevUsIndex, removedChars))
    else
      (deleteCharAt dbBuf (usIndex - 2)).bind fun dbBuf =>
        if 2 < usIndex then .done (.inl (dbBuf, lastIndexOfFrom dbBuf (usIndex - 2), true))
        else .done (.inr (dbBuf, true))
  else .done (.inr (dbBuf, removedChars))

def shortenEnd (desiredLength : ℤ) (state : List Char × Bool) : Outcome (List Char × Bool) :=
  let dbBuf := state.1
  if desiredLength < dbBuf.length then
    let removeIndex : ℤ := dbBuf.length - 1
    let prevRemoveIndex := lastIndexOfFrom dbBuf (removeIndex - 1)
    if prevRemoveIndex < 0 ∨ 3 ≤ removeIndex - prevRemoveIndex then
      (deleteCharAt dbBuf (removeIndex - 1)).bind fun dbBuf => .done (dbBuf, true)
    else .done state
  else .done state

def shortenPass (n : ℕ) (desiredLength : ℤ) (dbBuf : List Char) :
    Outcome (List Char ⊕ List Char) :=
  if desiredLength < dbBuf.length then
    (Outcome.loop (shortenSegment desiredLength) n
      (dbBuf, Text.lastIndexOf '_' dbBuf, false)).bind fun state =>
    (shortenEnd desiredLength state).bind fun state =>
    (removeDoubles n state).bind fun state =>
      .done (if state.2 then .inl state.1 else .inr state.1)
  else .done (.inr dbBuf)

def removeSegment (desiredLength : ℤ) (dbBuf : List Char) : Outcome (List Char ⊕ List Char) :=
  if desiredLength < dbBuf.length then
    let firstUs := Text.indexOf '_' dbBuf
    if 0 < firstUs then
      let nextUs := position (Text.indexOfFrom ['_'] dbBuf (firstUs + 1).toNat)
      if 0 < nextUs then (delete dbBuf firstUs nextUs).bind fun dbBuf => .done (.inl dbBuf)
      else .done (.inl dbBuf)
    else .done (.inl dbBuf)
  else .done (.inr dbBuf)

def shortenName (n : ℕ) (dbName : List Char) (desiredLength : ℤ) : Outcome (List Char) :=
  let dbBuf := if desiredLength < dbName.length then removeVowels (dbName.length - 1) dbName
    else dbName
  (removeDoubles n (dbBuf, false)).bind fun state =>
    (Outcome.loop (shortenPass n desiredLength) n state.1).bind fun dbBuf =>
      (removeDoubles n (dbBuf, false)).bind fun state => .done state.1

/-- **`ModelUtil.shortenDbName`**, on a budget for the passes of each of its loops. -/
def shortenDbName (n : ℕ) (dbName : List Char) (desiredLength : ℤ) : Outcome (List Char) :=
  (shortenName n dbName desiredLength).bind (Outcome.loop (removeSegment desiredLength) n)

/-! ### Texts -/

def lengths (text : List Char) : List ℕ := (text.splitOn '_').map List.length

section Texts

variable {text s t : List Char}

theorem lengths_ne_nil (text : List Char) : lengths text ≠ [] := by
  rw [lengths, ne_eq, List.map_eq_nil_iff]
  exact List.splitOn_ne_nil _ _

theorem lengths_append (s t : List Char) : lengths (s ++ '_' :: t) = lengths s ++ lengths t := by
  rw [lengths, List.splitOn_append_cons_self, List.map_append, lengths, lengths]

theorem lengths_of_not_mem (h : '_' ∉ s) : lengths s = [s.length] := by
  rw [lengths, List.splitOn_eq_singleton h, List.map_singleton]

theorem lengths_append_of_not_mem (s : List Char) (h : '_' ∉ t) :
    lengths (s ++ '_' :: t) = lengths s ++ [t.length] := by
  rw [lengths_append, lengths_of_not_mem h]

theorem lengths_cons_underscore (t : List Char) : lengths ('_' :: t) = 0 :: lengths t :=
  lengths_append [] t

theorem lengths_cons {c : Char} (h : c ≠ '_') (t : List Char) :
    lengths (c :: t) = (lengths t).modifyHead (· + 1) := by
  rw [lengths, List.splitOn_cons_eq_if_modifyHead, if_neg (by simpa using h), lengths]
  cases List.splitOn '_' t with
  | nil => rfl
  | cons s l => rfl

theorem exists_segment (h : '_' ∈ text) : ∃ s t, text = s ++ '_' :: t ∧ '_' ∉ t := by
  obtain ⟨t, s, heq, ht⟩ := List.eq_append_cons_of_mem (List.mem_reverse.mpr h)
  refine ⟨s.reverse, t.reverse, ?_, fun hmem => ht (List.mem_reverse.mp hmem)⟩
  rw [← List.reverse_reverse text, heq, List.reverse_append, List.reverse_cons, List.append_assoc]
  rfl

theorem lastIndexOf_append (s : List Char) (h : '_' ∉ t) :
    Text.lastIndexOf '_' (s ++ '_' :: t) = s.length := by
  have hmem : '_' ∉ t.reverse := fun hmem => h (List.mem_reverse.mp hmem)
  rw [Text.lastIndexOf, if_pos (List.mem_append_right s List.mem_cons_self), List.reverse_append,
    List.reverse_cons, List.append_assoc, List.idxOf_append_of_notMem hmem, List.singleton_append,
    List.idxOf_cons_self, List.length_reverse, List.length_append, List.length_cons]
  omega

theorem lastIndexOf_of_not_mem (h : '_' ∉ text) : Text.lastIndexOf '_' text = -1 := if_neg h

theorem size_lengths (text : List Char) : size (lengths text) = text.length := by
  induction text with
  | nil => rfl
  | cons c t ih =>
    by_cases hc : c = '_'
    · rw [hc, lengths_cons_underscore, size_cons 0 (lengths_ne_nil t), ih, List.length_cons]
      omega
    · obtain ⟨n, l, hl⟩ := List.exists_cons_of_ne_nil (lengths_ne_nil t)
      rw [lengths_cons hc, hl, List.modifyHead_cons]
      rw [hl, size, List.sum_cons, List.length_cons] at ih
      rw [size, List.sum_cons, List.length_cons, List.length_cons]
      omega

theorem startsDoubled_lengths : startsDoubled (lengths text) = true ↔ ['_', '_'] <+: text := by
  rw [List.prefix_iff_eq_take]
  rcases text with _ | ⟨c, _ | ⟨d, t⟩⟩
  · decide
  · refine iff_of_false ?_ fun h => by cases h
    by_cases hc : c = '_'
    · subst hc
      decide
    · rw [lengths_of_not_mem (by simpa using Ne.symm hc)]
      exact Bool.false_ne_true
  · rw [List.length_cons, List.length_singleton, List.take_succ_cons, List.take_succ_cons,
      List.take_zero, List.cons.injEq, List.cons.injEq, and_iff_left rfl]
    obtain ⟨n, l, hl⟩ := List.exists_cons_of_ne_nil (lengths_ne_nil t)
    by_cases hc : c = '_'
    · subst hc
      by_cases hd : d = '_'
      · subst hd
        rw [lengths_cons_underscore, lengths_cons_underscore, hl]
        exact iff_of_true rfl ⟨rfl, rfl⟩
      · rw [lengths_cons_underscore, lengths_cons hd, hl]
        exact iff_of_false Bool.false_ne_true fun h => hd h.2.symm
    · obtain ⟨m, k, hk⟩ := List.exists_cons_of_ne_nil (lengths_ne_nil (d :: t))
      rw [lengths_cons hc, hk]
      exact iff_of_false Bool.false_ne_true fun h => hc h.1.symm

theorem zero_not_mem_lengths (h : ¬['_', '_'] <:+: text) : 0 ∉ (lengths text).tail.dropLast := by
  induction text with
  | nil => decide
  | cons c t ih =>
    have ht : 0 ∉ (lengths t).tail.dropLast := ih fun hinfix => h (List.infix_cons hinfix)
    by_cases hc : c = '_'
    · subst hc
      rw [lengths_cons_underscore, List.tail_cons]
      cases t with
      | nil => decide
      | cons d t =>
        have hd : d ≠ '_' := by
          rintro rfl
          exact h (List.prefix_append ['_', '_'] t).isInfix
        rw [lengths_cons hd] at ht ⊢
        obtain ⟨n, l, hl⟩ := List.exists_cons_of_ne_nil (lengths_ne_nil t)
        rw [hl, List.modifyHead_cons] at ht ⊢
        cases l with
        | nil => simp
        | cons m l =>
          rw [List.dropLast_cons_cons, List.mem_cons, not_or]
          exact ⟨(Nat.succ_ne_zero n).symm, ht⟩
    · rw [lengths_cons hc]
      obtain ⟨n, l, hl⟩ := List.exists_cons_of_ne_nil (lengths_ne_nil t)
      rw [hl] at ht ⊢
      exact ht

theorem collapses_of_find {p q : List Char}
    (hstart : ¬['_', '_'] <+: p ++ '_' :: '_' :: q) :
    Collapses (lengths (p ++ '_' :: '_' :: q)) (lengths (p ++ '_' :: q)) := by
  have hstart' : startsDoubled (lengths (p ++ '_' :: '_' :: q)) = false :=
    Bool.eq_false_iff.mpr fun h => hstart (startsDoubled_lengths.mp h)
  rw [lengths_append, lengths_cons_underscore] at hstart' ⊢
  rw [lengths_append]
  exact ⟨lengths p, lengths q, lengths_ne_nil p, lengths_ne_nil q, hstart'⟩

theorem Collapses.not_settled {l l' : List ℕ} (h : Collapses l l') : ¬Settled l := by
  obtain ⟨l₁, l₂, h₁, h₂, hstart⟩ := h
  rintro (hsettled | hsettled)
  · rw [hstart] at hsettled
    cases hsettled
  · obtain ⟨n, l₁, rfl⟩ := List.exists_cons_of_ne_nil h₁
    refine hsettled ?_
    rw [List.cons_append, List.tail_cons, List.dropLast_append_of_ne_nil (List.cons_ne_nil 0 l₂),
      List.dropLast_cons_of_ne_nil h₂]
    exact List.mem_append_right _ List.mem_cons_self

theorem deleteCharAt_append (s : List Char) (c : Char) (t : List Char) :
    deleteCharAt (s ++ c :: t) s.length = .done (s ++ t) := by
  have hlen : (s.length : ℤ) < (s ++ c :: t).length := by
    rw [List.length_append, List.length_cons]
    omega
  rw [deleteCharAt, if_pos ⟨Int.natCast_nonneg _, hlen⟩, Int.toNat_natCast,
    List.eraseIdx_append_of_length_le (Nat.le_refl _), Nat.sub_self, List.eraseIdx_cons_zero]

theorem exists_of_find {k : ℕ} (h : Text.find ['_', '_'] text = some (k + 1)) : ∃ p q,
    text = p ++ '_' :: '_' :: q ∧ p.length = k + 1 ∧
      Collapses (lengths text) (lengths (p ++ '_' :: q)) := by
  obtain ⟨⟨q, hq⟩, hfirst⟩ := Text.find_eq_some_iff.mp h
  have hlen := Text.le_length_of_prefix (List.cons_ne_nil '_' ['_']) (Text.prefix_of_find h)
  have htext : text = text.take (k + 1) ++ '_' :: '_' :: q :=
    (List.take_append_drop (k + 1) text).symm.trans
      (congrArg (text.take (k + 1) ++ ·) hq.symm)
  have hp : (text.take (k + 1)).length = k + 1 := by
    rw [List.length_take, Nat.min_eq_left (by omega)]
  refine ⟨text.take (k + 1), q, htext, hp, ?_⟩
  have hcollapses := collapses_of_find (p := text.take (k + 1)) (q := q)
    (htext ▸ hfirst 0 (Nat.succ_pos k))
  rwa [← htext] at hcollapses

theorem settled_of_find (h : ∀ k, Text.find ['_', '_'] text ≠ some (k + 1)) :
    Settled (lengths text) := by
  rcases hfind : Text.find ['_', '_'] text with _ | k
  · refine .inr (zero_not_mem_lengths fun hinfix => ?_)
    obtain ⟨j, hj⟩ := Text.exists_find_of_infix hinfix
    cases hfind.symm.trans hj
  · cases k with
    | zero => exact .inl (startsDoubled_lengths.mpr (Text.prefix_of_find hfind))
    | succ k => exact absurd hfind (h k)

/-- **The double underscores are removed**, but for those at the start. -/
theorem removeDoubles_spec {n : ℕ} (text : List Char) (flag : Bool) (hn : text.length < n) :
    ∃ text' flag', removeDoubles n (text, flag) = .done (text', flag') ∧
      Relation.ReflTransGen Collapses (lengths text) (lengths text') ∧
        Settled (lengths text') ∧ (Settled (lengths text) → text' = text ∧ flag' = flag) := by
  induction n generalizing text flag with
  | zero => exact absurd hn (Nat.not_lt_zero _)
  | succ n ih =>
    by_cases hmore : ∃ k, Text.find ['_', '_'] text = some (k + 1)
    · obtain ⟨k, hk⟩ := hmore
      obtain ⟨p, q, rfl, hp, hcollapses⟩ := exists_of_find hk
      have hshort : (p ++ '_' :: q).length < n := by
        simp only [List.length_append, List.length_cons] at hn ⊢
        omega
      obtain ⟨text', flag', hloop, hsteps, hsettled, -⟩ := ih (p ++ '_' :: q) true hshort
      refine ⟨text', flag', (Outcome.loop_succ_of_inl ?_).trans hloop, .head hcollapses hsteps,
        hsettled, fun h => absurd h hcollapses.not_settled⟩
      have hdelete : deleteCharAt (p ++ '_' :: '_' :: q) (k + 1 : ℕ) = .done (p ++ '_' :: q) := by
        rw [← hp]
        exact deleteCharAt_append p '_' ('_' :: q)
      dsimp only
      rw [hk, position_some, if_pos (Int.natCast_pos.mpr (Nat.succ_pos k))]
      exact congrArg (Outcome.bind · _) hdelete
    · refine ⟨text, flag, Outcome.loop_succ_of_inr ?_, .refl,
        settled_of_find fun k hk => hmore ⟨k, hk⟩, fun _ => ⟨rfl, rfl⟩⟩
      dsimp only
      rw [if_neg]
      rcases hfind : Text.find ['_', '_'] text with _ | k
      · decide
      · cases k with
        | zero => decide
        | succ k => exact absurd ⟨k, hfind⟩ hmore

/-! ### Shortening a text from its end -/

theorem lastIndexOfFrom_append (s t : List Char) {i : ℤ} (hi : i + 1 = s.length) :
    lastIndexOfFrom (s ++ t) i = Text.lastIndexOf '_' s := by
  rw [lastIndexOfFrom, hi, Int.toNat_natCast, List.take_left]

/-- A segment starts after a text: at the start, or after an underscore. -/
def StartsSegment (s : List Char) : Prop := s = [] ∨ ∃ t, s = t ++ ['_']

theorem exists_startsSegment (text : List Char) :
    ∃ s t, text = s ++ t ∧ StartsSegment s ∧ '_' ∉ t := by
  by_cases h : '_' ∈ text
  · obtain ⟨s, t, rfl, ht⟩ := exists_segment h
    exact ⟨s ++ ['_'], t, by simp, .inr ⟨s, rfl⟩, ht⟩
  · exact ⟨[], text, rfl, .inl rfl, h⟩

theorem StartsSegment.lastIndexOf_append (hs : StartsSegment s) (ht : '_' ∉ t) :
    Text.lastIndexOf '_' (s ++ t) = s.length - 1 := by
  rcases hs with rfl | ⟨s, rfl⟩
  · exact lastIndexOf_of_not_mem ht
  · rw [List.append_assoc, List.singleton_append, ModelUtil.lastIndexOf_append s ht,
      List.length_append, List.length_singleton]
    omega

theorem StartsSegment.exists_lengths (hs : StartsSegment s) :
    ∃ l, (l = [] ↔ s = []) ∧ ∀ t, '_' ∉ t → lengths (s ++ t) = l ++ [t.length] := by
  rcases hs with rfl | ⟨s, rfl⟩
  · exact ⟨[], iff_of_true rfl rfl, fun t ht => lengths_of_not_mem ht⟩
  · refine ⟨lengths s, iff_of_false (lengths_ne_nil s) (by simp), fun t ht => ?_⟩
    rw [List.append_assoc, List.singleton_append, lengths_append_of_not_mem s ht]

theorem exists_last_two (h : 2 ≤ s.length) : ∃ t x y, s = t ++ [x, y] := by
  obtain ⟨x, y, hxy⟩ : ∃ x y, s.drop (s.length - 2) = [x, y] :=
    List.length_eq_two.mp (by rw [List.length_drop]; omega)
  exact ⟨s.take (s.length - 2), x, y, by rw [← hxy, List.take_append_drop]⟩

theorem leftOf_le (l₁ l₂ : List ℕ) : leftOf l₁ l₂ ≤ 3 := by
  rw [leftOf, leftBefore]
  split_ifs <;> decide

section Segment

variable {a b u : List Char} {x y : Char} {D : ℤ} {flag : Bool}

theorem not_mem_dropSecond (h : '_' ∉ u ++ [x, y]) : '_' ∉ u ++ [y] := by
  simp only [List.mem_append, List.mem_cons, List.not_mem_nil, or_false, not_or] at h ⊢
  exact ⟨h.1, h.2.2⟩

theorem deleteCharAt_dropSecond (a u : List Char) (x y : Char) (b : List Char) :
    deleteCharAt (a ++ (u ++ [x, y]) ++ b) ((a ++ (u ++ [x, y])).length - 2) =
      .done (a ++ (u ++ [y]) ++ b) := by
  have hlen : ((a ++ (u ++ [x, y])).length : ℤ) - 2 = (a ++ u).length := by
    simp only [List.length_append, List.length_cons, List.length_nil]
    omega
  have htext : a ++ (u ++ [x, y]) ++ b = (a ++ u) ++ x :: (y :: b) := by simp
  rw [hlen, htext, deleteCharAt_append]
  simp

theorem shrinks_dropSecond (ha : StartsSegment a) (h : '_' ∉ u ++ [x, y]) (hu : 2 ≤ u.length) :
    Shrinks (lengths (a ++ (u ++ [x, y]) ++ '_' :: b)) (lengths (a ++ (u ++ [y]) ++ '_' :: b)) := by
  obtain ⟨l, -, hl⟩ := ha.exists_lengths
  rw [lengths_append, lengths_append, hl _ h, hl _ (not_mem_dropSecond h), List.append_assoc,
    List.append_assoc, List.length_append, List.length_append]
  exact Shrinks.intro l (u.length + 1) (lengths b)
    (Nat.le_trans (leftOf_le _ _) (Nat.succ_le_succ hu))

theorem lastIndexOfFrom_segment (ha : StartsSegment a) (h : '_' ∉ u) (b : List Char) {i : ℤ}
    (hi : i + 1 = (a ++ u).length) : lastIndexOfFrom (a ++ u ++ b) i = a.length - 1 := by
  rw [lastIndexOfFrom_append _ _ hi, ha.lastIndexOf_append h]

theorem shortenSegment_pass (s : List Char) (h : '_' ∉ u) (hu : u.length ≤ 3)
    (hlong : D < (s ++ ['_'] ++ u ++ '_' :: b).length) :
    shortenSegment D (s ++ ['_'] ++ u ++ '_' :: b, (s ++ ['_'] ++ u).length, flag) =
      .done (.inl (s ++ '_' :: (u ++ '_' :: b), s.length, flag)) := by
  have hprev := lastIndexOfFrom_segment (.inr ⟨s, rfl⟩) h ('_' :: b)
    (by omega : ((s ++ ['_'] ++ u).length : ℤ) - 1 + 1 = _)
  have hlen : (s ++ ['_'] ++ u).length = s.length + 1 + u.length := by
    rw [List.length_append, List.length_append, List.length_singleton]
  have hlen' : (s ++ ['_']).length = s.length + 1 := by simp
  rw [shortenSegment]
  dsimp only
  rw [if_pos ⟨by omega, hlong⟩, hprev, if_neg (by omega), if_pos (by omega), hlen']
  simp

theorem shortenSegment_leave (h : '_' ∉ u) (hu : u.length ≤ 3) :
    shortenSegment D (u ++ '_' :: b, u.length, flag) = .done (.inr (u ++ '_' :: b, flag)) := by
  rw [shortenSegment]
  dsimp only
  by_cases hrun : 0 < (u.length : ℤ) ∧ D < (u ++ '_' :: b).length
  · have hprev := lastIndexOfFrom_segment (.inl rfl) h ('_' :: b)
      (by rw [List.nil_append]; omega : (u.length : ℤ) - 1 + 1 = _)
    rw [List.nil_append] at hprev
    rw [if_pos hrun, hprev, if_pos ⟨by decide, by omega⟩]
  · rw [if_neg hrun]

theorem shortenSegment_remove (flag : Bool) (ha : StartsSegment a) (h : '_' ∉ u ++ [x, y])
    (hu : 2 ≤ u.length)
    (hlong : D < (a ++ (u ++ [x, y]) ++ '_' :: b).length) :
    shortenSegment D (a ++ (u ++ [x, y]) ++ '_' :: b, (a ++ (u ++ [x, y])).length, flag) =
      .done (.inl (a ++ (u ++ [y]) ++ '_' :: b, a.length - 1, true)) := by
  have hlen : (a ++ (u ++ [x, y])).length = a.length + u.length + 2 := by
    simp only [List.length_append, List.length_cons, List.length_nil]
    omega
  have hlen' : (a ++ (u ++ [y])).length = a.length + u.length + 1 := by
    simp only [List.length_append, List.length_cons, List.length_nil]
    omega
  have hprev := lastIndexOfFrom_segment ha h ('_' :: b)
    (by omega : ((a ++ (u ++ [x, y])).length : ℤ) - 1 + 1 = _)
  have hnext := lastIndexOfFrom_segment ha (not_mem_dropSecond h) ('_' :: b)
    (by omega : ((a ++ (u ++ [x, y])).length : ℤ) - 2 + 1 = _)
  rw [shortenSegment]
  dsimp only
  rw [if_pos ⟨by omega, hlong⟩, hprev, if_neg (by omega), if_neg (by omega),
    deleteCharAt_dropSecond]
  refine (if_pos (by omega)).trans ?_
  rw [hnext]

theorem shortenSegment_none (text : List Char) :
    shortenSegment D (text, -1, flag) = .done (.inr (text, flag)) := by
  rw [shortenSegment]
  exact if_neg fun h => absurd h.1 (show ¬(0 : ℤ) < -1 by decide)

end Segment

/-- **What the loop over the underscores does** from an underscore on: a flag says that a text is
shortened, and if it is not, the segments before the underscore are short. -/
theorem shortenSegments_spec {D : ℤ} {n : ℕ} (a b : List Char) (flag : Bool) (hn : a.length < n) :
    ∃ text' flag', Outcome.loop (shortenSegment D) n (a ++ '_' :: b, a.length, flag) =
        .done (text', flag') ∧
      Relation.ReflTransGen Shrinks (lengths (a ++ '_' :: b)) (lengths text') ∧
        ((flag' = true ∧ text'.length < (a ++ '_' :: b).length) ∨
          (text' = a ++ '_' :: b ∧ flag' = flag ∧
            (D < (a ++ '_' :: b).length → ∀ k ∈ lengths a, k ≤ 3))) := by
  induction n generalizing a b flag with
  | zero => exact absurd hn (Nat.not_lt_zero _)
  | succ n ih =>
    by_cases hlong : D < (a ++ '_' :: b).length
    swap
    · exact ⟨a ++ '_' :: b, flag, Outcome.loop_succ_of_inr (if_neg fun h => hlong h.2), .refl,
        .inr ⟨rfl, rfl, fun h => absurd h hlong⟩⟩
    obtain ⟨s, t, rfl, hs, ht⟩ := exists_startsSegment a
    by_cases hshort : t.length ≤ 3
    · rcases hs with rfl | ⟨s, rfl⟩
      · refine ⟨_, _, Outcome.loop_succ_of_inr (shortenSegment_leave ht hshort), .refl,
          .inr ⟨rfl, rfl, fun _ k hk => ?_⟩⟩
        rw [List.nil_append, lengths_of_not_mem ht, List.mem_singleton] at hk
        exact hk ▸ hshort
      · have hassoc : s ++ ['_'] ++ t ++ '_' :: b = s ++ '_' :: (t ++ '_' :: b) := by simp
        obtain ⟨text', flag', hloop, hsteps, hcases⟩ := ih s (t ++ '_' :: b) flag
          (by simp only [List.length_append, List.length_cons] at hn; omega)
        refine ⟨text', flag',
          (Outcome.loop_succ_of_inl (shortenSegment_pass s ht hshort hlong)).trans hloop, ?_, ?_⟩
        · rw [hassoc]
          exact hsteps
        · rw [hassoc]
          refine hcases.imp_right fun ⟨htext, hflag, hle⟩ => ⟨htext, hflag, fun hlong k hk => ?_⟩
          rw [List.append_assoc, List.singleton_append, lengths_append_of_not_mem s ht,
            List.mem_append, List.mem_singleton] at hk
          exact hk.elim (hle hlong k) fun hk => hk ▸ hshort
    · obtain ⟨u, x, y, rfl⟩ := exists_last_two (by omega : 2 ≤ t.length)
      have hu : 2 ≤ u.length := by
        simp only [List.length_append, List.length_cons, List.length_nil] at hshort
        omega
      have hbody := shortenSegment_remove flag hs ht hu hlong
      have hshrinks := shrinks_dropSecond (b := b) hs ht hu
      have hless : (s ++ (u ++ [y]) ++ '_' :: b).length <
          (s ++ (u ++ [x, y]) ++ '_' :: b).length := by
        simp
      rcases hs with rfl | ⟨s, rfl⟩
      · obtain ⟨k, rfl⟩ : ∃ k, n = k + 1 :=
          ⟨n - 1, by simp only [List.length_append, List.length_cons] at hn; omega⟩
        exact ⟨_, _, (Outcome.loop_succ_of_inl hbody).trans
          (Outcome.loop_succ_of_inr (shortenSegment_none _)), .single hshrinks, .inl ⟨rfl, hless⟩⟩
      · -- the loop goes on at the underscore before the segment
        have hassoc : s ++ ['_'] ++ (u ++ [y]) ++ '_' :: b =
            s ++ '_' :: (u ++ [y] ++ '_' :: b) := by
          simp
        have hindex : ((s ++ ['_']).length : ℤ) - 1 = s.length := by simp
        rw [hassoc, hindex] at hbody
        rw [hassoc] at hshrinks hless
        obtain ⟨text', flag', hloop, hsteps, hcases⟩ := ih s (u ++ [y] ++ '_' :: b) true
          (by simp only [List.length_append, List.length_cons] at hn; omega)
        refine ⟨text', flag', (Outcome.loop_succ_of_inl hbody).trans hloop,
          .head hshrinks hsteps, .inl ?_⟩
        rcases hcases with ⟨hflag, hlt⟩ | ⟨rfl, hflag, -⟩
        · exact ⟨hflag, Nat.lt_trans hlt hless⟩
        · exact ⟨hflag, hless⟩

theorem shortenSegments_lastIndexOf {D : ℤ} {n : ℕ} (text : List Char) (hn : text.length < n) :
    ∃ text' flag', Outcome.loop (shortenSegment D) n (text, Text.lastIndexOf '_' text, false) =
        .done (text', flag') ∧
      Relation.ReflTransGen Shrinks (lengths text) (lengths text') ∧
        ((flag' = true ∧ text'.length < text.length) ∨
          (text' = text ∧ flag' = false ∧
            (D < text.length → ∀ k ∈ (lengths text).dropLast, k ≤ 3))) := by
  by_cases hmem : '_' ∈ text
  · obtain ⟨a, b, rfl, hb⟩ := exists_segment hmem
    rw [lastIndexOf_append a hb]
    have hlengths : (lengths (a ++ '_' :: b)).dropLast = lengths a := by
      rw [lengths_append_of_not_mem a hb, List.dropLast_concat]
    rw [hlengths]
    exact shortenSegments_spec a b false
      (by simp only [List.length_append, List.length_cons] at hn; omega)
  · obtain ⟨k, rfl⟩ : ∃ k, n = k + 1 := ⟨n - 1, by omega⟩
    refine ⟨text, false, ?_, .refl, .inr ⟨rfl, rfl, fun _ k hk => ?_⟩⟩
    · rw [lastIndexOf_of_not_mem hmem]
      exact Outcome.loop_succ_of_inr (shortenSegment_none text)
    · rw [lengths_of_not_mem hmem] at hk
      exact absurd hk List.not_mem_nil

theorem shortenEnd_spec {D : ℤ} (hD : 1 ≤ D) (text : List Char) (flag : Bool) :
    ∃ text' flag', shortenEnd D (text, flag) = .done (text', flag') ∧
      ((flag' = true ∧ Shrinks (lengths text) (lengths text')) ∨
        (text' = text ∧ flag' = flag ∧ (D < text.length → EndShort (lengths text)))) := by
  by_cases hlong : D < text.length
  swap
  · exact ⟨text, flag, if_neg hlong, .inr ⟨rfl, rfl, fun h => absurd h hlong⟩⟩
  -- a segment without underscores stands before the last character
  obtain ⟨init, c, rfl⟩ : ∃ init c, text = init ++ [c] := by
    rcases List.eq_nil_or_concat' text with rfl | h
    · rw [List.length_nil] at hlong
      omega
    · exact h
  obtain ⟨a, u, rfl, ha, hu⟩ := exists_startsSegment init
  obtain ⟨l, hl, hlengths⟩ := ha.exists_lengths
  have hlen : (a ++ u ++ [c]).length = a.length + u.length + 1 := by
    rw [List.length_append, List.length_append, List.length_singleton]
  have hlen' : (a ++ u).length = a.length + u.length := List.length_append
  have hprev := lastIndexOfFrom_segment ha hu [c]
    (by omega : ((a ++ u ++ [c]).length : ℤ) - 1 - 1 + 1 = _)
  have htext : ∀ v : List Char, '_' ∉ v → lengths (a ++ v ++ [c]) =
      if c = '_' then l ++ [v.length, 0] else l ++ [v.length + 1] := by
    intro v hv
    split_ifs with hc
    · rw [hc, lengths_append, hlengths v hv, List.append_assoc]
      rfl
    · have hmem : '_' ∉ v ++ [c] := by simp [hv, Ne.symm hc]
      rw [List.append_assoc, hlengths _ hmem, List.length_append, List.length_singleton]
  rw [shortenEnd]
  dsimp only
  rw [if_pos hlong, hprev]
  by_cases hremove : (a.length : ℤ) - 1 < 0 ∨ 3 ≤ ((a ++ u ++ [c]).length : ℤ) - 1 - (a.length - 1)
  · obtain ⟨v, x, rfl⟩ : ∃ v x, u = v ++ [x] := by
      rcases List.eq_nil_or_concat' u with rfl | h
      · exfalso
        simp only [List.length_nil] at hlen
        omega
      · exact h
    have hv : '_' ∉ v := fun hmem => hu (List.mem_append_left _ hmem)
    have hdelete : deleteCharAt (a ++ (v ++ [x]) ++ [c]) ((a ++ (v ++ [x]) ++ [c]).length - 1 - 1) =
        .done (a ++ v ++ [c]) := by
      have hindex : ((a ++ (v ++ [x]) ++ [c]).length : ℤ) - 1 - 1 = (a ++ v).length := by
        simp only [List.length_append, List.length_singleton]
        omega
      have hsplit : a ++ (v ++ [x]) ++ [c] = (a ++ v) ++ x :: [c] := by simp
      rw [hindex, hsplit, deleteCharAt_append]
    rw [if_pos hremove, hdelete]
    refine ⟨a ++ v ++ [c], true, rfl, .inl ⟨rfl, ?_⟩⟩
    -- behind another segment there are two more characters
    have hmore : l ≠ [] → 1 ≤ v.length := by
      intro hne
      have hpos := List.length_pos_iff.mpr fun hnil => hne (hl.mpr hnil)
      simp only [List.length_append, List.length_singleton] at hremove hlen
      omega
    rw [htext _ hu, htext v hv, List.length_append, List.length_singleton]
    split_ifs
    · refine Shrinks.intro l v.length [0] ?_
      rw [leftOf, leftBefore]
      by_cases hne : l = []
      · simp [hne]
      · simpa [hne] using hmore hne
    · refine Shrinks.intro l (v.length + 1) [] ?_
      rw [leftOf, leftBefore]
      by_cases hne : l = []
      · simp [hne]
      · simpa [hne] using hmore hne
  · rw [if_neg hremove]
    rw [not_or] at hremove
    have hne : l ≠ [] := by
      intro hnil
      rw [hl.mp hnil, List.length_nil] at hremove
      exact hremove.1 (by decide)
    refine ⟨_, _, rfl, .inr ⟨rfl, rfl, fun _ => ⟨l, u.length, hne, by omega, ?_⟩⟩⟩
    rw [htext u hu]
    split_ifs
    · exact .inr rfl
    · exact .inl rfl

theorem length_le_of_shrinks (h : Relation.ReflTransGen Shrinks (lengths s) (lengths t)) :
    t.length ≤ s.length := by
  rw [← size_lengths, ← size_lengths]
  suffices hle : ∀ l, Relation.ReflTransGen Shrinks (lengths s) l → size l ≤ size (lengths s) from
    hle _ h
  intro l hl
  induction hl with
  | refl => exact Nat.le_refl _
  | tail _ hstep ih => exact Nat.le_trans (by rw [hstep.size_eq]; omega) ih

/-- **A round shortens a text, or it cannot be shortened from its end.** -/
theorem shortenPass_spec {D : ℤ} {n : ℕ} (hD : 1 ≤ D) (hn : text.length < n)
    (hsettled : Settled (lengths text)) (hlong : D < text.length) :
    (∃ text', shortenPass n D text = .done (.inl text') ∧
      Relation.ReflTransGen Shrinks (lengths text) (lengths text') ∧ text'.length < text.length) ∨
    (shortenPass n D text = .done (.inr text) ∧ Stuck (lengths text) ∧
      EndShort (lengths text)) := by
  obtain ⟨text₁, flag₁, hloop, hsteps, hcases⟩ := shortenSegments_lastIndexOf (D := D) text hn
  obtain ⟨text₂, flag₂, hend, hcases'⟩ := shortenEnd_spec hD text₁ flag₁
  have hsteps' : Relation.ReflTransGen Shrinks (lengths text) (lengths text₂) := by
    rcases hcases' with ⟨-, hstep⟩ | ⟨rfl, -⟩
    · exact hsteps.tail hstep
    · exact hsteps
  have hle := length_le_of_shrinks hsteps'
  -- there are no double underscores to be removed
  obtain ⟨text₃, flag₃, hdoubles, -, -, hsame⟩ := removeDoubles_spec text₂ flag₂
    (Nat.lt_of_le_of_lt hle hn)
  obtain ⟨rfl, rfl⟩ := hsame (least_eq_of_shrinks hsteps' hsettled).1
  have hpass : shortenPass n D text = .done (if flag₃ then .inl text₃ else .inr text₃) := by
    rw [shortenPass, if_pos hlong, hloop]
    refine Outcome.bind_eq_done.mpr ⟨(text₁, flag₁), rfl, ?_⟩
    refine Outcome.bind_eq_done.mpr ⟨(text₃, flag₃), hend, ?_⟩
    exact Outcome.bind_eq_done.mpr ⟨(text₃, flag₃), hdoubles, rfl⟩
  rcases hcases' with ⟨rfl, hstep⟩ | ⟨rfl, rfl, hendShort⟩
  · refine .inl ⟨text₃, hpass, hsteps', ?_⟩
    have hless : text₃.length < text₁.length := by
      rw [← size_lengths, ← size_lengths text₁, hstep.size_eq]
      exact Nat.lt_succ_self _
    exact Nat.lt_of_lt_of_le hless (length_le_of_shrinks hsteps)
  · rcases hcases with ⟨rfl, hless⟩ | ⟨rfl, rfl, hshort⟩
    · exact .inl ⟨text₃, hpass, hsteps', hless⟩
    · exact .inr ⟨hpass, (hendShort hlong).stuck (hshort hlong), hendShort hlong⟩

theorem shortenPasses_spec {D : ℤ} {n m : ℕ} (hD : 1 ≤ D) (hn : text.length < n)
    (hm : text.length < m) (hsettled : Settled (lengths text)) :
    ∃ text', Outcome.loop (shortenPass n D) m text = .done text' ∧ text'.length ≤ text.length ∧
      Settled (lengths text') ∧ least (lengths text') = least (lengths text) ∧
        ((text'.length : ℤ) ≤ D ∨ Stuck (lengths text') ∧ EndShort (lengths text')) := by
  induction m generalizing text with
  | zero => exact absurd hm (Nat.not_lt_zero _)
  | succ m ih =>
    by_cases hlong : D < text.length
    swap
    · exact ⟨text, Outcome.loop_succ_of_inr (if_neg hlong), Nat.le_refl _, hsettled, rfl,
        .inl (Int.not_lt.mp hlong)⟩
    rcases shortenPass_spec hD hn hsettled hlong with
      ⟨text₁, hpass, hsteps, hless⟩ | ⟨hpass, hstuck, hend⟩
    · obtain ⟨hsettled₁, hleast₁⟩ := least_eq_of_shrinks hsteps hsettled
      obtain ⟨text', hloop, hle, hsettled', hleast', hshort⟩ :=
        @ih text₁ (by omega) (by omega) hsettled₁
      exact ⟨text', (Outcome.loop_succ_of_inl hpass).trans hloop, by omega, hsettled',
        hleast'.trans hleast₁, hshort⟩
    · exact ⟨text, Outcome.loop_succ_of_inr hpass, Nat.le_refl _, hsettled, rfl,
        .inr ⟨hstuck, hend⟩⟩

/-! ### Removing segments -/

theorem indexOf_append (h : '_' ∉ s) (t : List Char) :
    Text.indexOf '_' (s ++ '_' :: t) = s.length := by
  rw [Text.indexOf, if_pos (List.mem_append_right s List.mem_cons_self),
    List.idxOf_append_of_notMem h, List.idxOf_cons_self, Nat.add_zero]

theorem drop_underscore (s t : List Char) :
    (s ++ '_' :: t).drop ((s.length : ℤ) + 1).toNat = t := by
  have hfrom : ((s.length : ℤ) + 1).toNat = (s ++ ['_']).length := by simp
  have hsplit : s ++ '_' :: t = (s ++ ['_']) ++ t := by simp
  rw [hfrom, hsplit, List.drop_left]

theorem removeSegment_append {D : ℤ} {r : List Char} (hs : '_' ∉ s) (hpos : s ≠ []) (ht : '_' ∉ t)
    (hlong : D < (s ++ '_' :: (t ++ '_' :: r)).length) :
    removeSegment D (s ++ '_' :: (t ++ '_' :: r)) = .done (.inl (s ++ '_' :: r)) := by
  have hlen := List.length_pos_iff.mpr hpos
  have hsplit : s ++ '_' :: (t ++ '_' :: r) = (s ++ '_' :: t) ++ '_' :: r := by simp
  have hnext : Text.indexOfFrom ['_'] (s ++ '_' :: (t ++ '_' :: r)) ((s.length : ℤ) + 1).toNat =
      some (s ++ '_' :: t).length := by
    rw [Text.indexOfFrom, drop_underscore, Text.find_singleton_iff.mpr ⟨t, r, rfl, rfl, ht⟩,
      Option.map_some, Option.some.injEq, List.length_append, List.length_cons]
    omega
  have hdelete : delete (s ++ '_' :: (t ++ '_' :: r)) s.length (s ++ '_' :: t).length =
      .done (s ++ '_' :: r) := by
    have hle : (s.length : ℤ) ≤
        min ((s ++ '_' :: t).length : ℤ) ((s ++ '_' :: (t ++ '_' :: r)).length : ℤ) := by
      simp only [List.length_append, List.length_cons]
      omega
    rw [delete, if_pos ⟨Int.natCast_nonneg _, hle⟩, Int.toNat_natCast, Int.toNat_natCast,
      List.take_left, hsplit, List.drop_left]
  rw [removeSegment]
  dsimp only
  rw [if_pos hlong, indexOf_append hs, if_pos (Int.natCast_pos.mpr hlen), hnext, position_some,
    if_pos (by rw [List.length_append, List.length_cons]; omega), hdelete]
  rfl

theorem removeSegment_cases (text : List Char) :
    (∃ s t r, text = s ++ '_' :: (t ++ '_' :: r) ∧ s ≠ [] ∧ '_' ∉ s ∧ '_' ∉ t) ∨
      (∀ D : ℤ, D < text.length → removeSegment D text = .done (.inl text)) ∧
        ∀ n l, lengths text = (n + 1) :: l → l ≠ [] →
          size (lengths text) = n + 1 + 1 + l.getLastD 0 := by
  by_cases hmem : '_' ∈ text
  swap
  · refine .inr ⟨fun D hlong => ?_, fun n l hl hne => ?_⟩
    · rw [removeSegment]
      dsimp only
      rw [if_pos hlong, Text.indexOf, if_neg hmem, if_neg (by decide)]
    · rw [lengths_of_not_mem hmem] at hl
      exact absurd (List.cons.inj hl).2.symm hne
  obtain ⟨s, rest, rfl, hs⟩ := List.eq_append_cons_of_mem hmem
  by_cases hnil : s = []
  · subst hnil
    refine .inr ⟨fun D hlong => ?_, fun n l hl hne => ?_⟩
    · rw [removeSegment]
      dsimp only
      rw [if_pos hlong, indexOf_append hs, if_neg (by simp)]
    · rw [List.nil_append, lengths_cons_underscore] at hl
      cases hl
  by_cases hmem' : '_' ∈ rest
  · obtain ⟨t, r, rfl, ht⟩ := List.eq_append_cons_of_mem hmem'
    exact .inl ⟨s, t, r, rfl, hnil, hs, ht⟩
  · refine .inr ⟨fun D hlong => ?_, fun n l hl hne => ?_⟩
    · have hnext : Text.indexOfFrom ['_'] (s ++ '_' :: rest) ((s.length : ℤ) + 1).toNat = none := by
        rw [Text.indexOfFrom, drop_underscore, Option.map_eq_none_iff,
          Option.eq_none_iff_forall_ne_some]
        intro k hk
        obtain ⟨pre, post, rfl, -⟩ := Text.find_singleton_iff.mp hk
        exact hmem' (List.mem_append_right _ List.mem_cons_self)
      rw [removeSegment]
      dsimp only
      rw [if_pos hlong, indexOf_append hs,
        if_pos (Int.natCast_pos.mpr (List.length_pos_iff.mpr hnil)), hnext, position_none,
        if_neg (by decide)]
    · have hl' := hl
      rw [lengths_append_of_not_mem s hmem', lengths_of_not_mem hs] at hl'
      obtain ⟨hn, rfl⟩ := List.cons.inj hl'
      rw [hl, size]
      exact Nat.add_right_comm _ _ _

/-- **Where the last loop ends**: the text is short enough, or it has two segments at least and the
first and the last of them are short enough. -/
theorem exists_removeSegments_iff {D : ℤ} :
    (∃ m r, Outcome.loop (removeSegment D) m text = .done r) ↔
      (text.length : ℤ) ≤ D ∨ ∃ n l, lengths text = (n + 1) :: l ∧ l ≠ [] ∧
        ((n + 1 + 1 + l.getLastD 0 : ℕ) : ℤ) ≤ D := by
  induction hlen : text.length using Nat.strong_induction_on generalizing text with
  | _ k ih =>
    by_cases hlong : D < text.length
    swap
    · exact iff_of_true ⟨1, text, Outcome.loop_succ_of_inr (if_neg hlong)⟩ (.inl (by omega))
    rcases removeSegment_cases text with ⟨s, t, r, rfl, hpos, hs, ht⟩ | ⟨hsame, hsize⟩
    · -- the second segment is removed
      have hbody := removeSegment_append hs hpos ht hlong
      have hloop : (∃ m r', Outcome.loop (removeSegment D) m (s ++ '_' :: (t ++ '_' :: r)) =
          .done r') ↔ ∃ m r', Outcome.loop (removeSegment D) m (s ++ '_' :: r) = .done r' := by
        constructor
        · rintro ⟨_ | m, r', h⟩
          · cases h
          · exact ⟨m, r', (Outcome.loop_succ_of_inl hbody).symm.trans h⟩
        · rintro ⟨m, r', h⟩
          exact ⟨m + 1, r', (Outcome.loop_succ_of_inl hbody).trans h⟩
      have hless : (s ++ '_' :: r).length < k := by
        rw [← hlen]
        simp only [List.length_append, List.length_cons]
        omega
      rw [hloop, ih _ hless rfl]
      obtain ⟨n, hn⟩ : ∃ n, s.length = n + 1 := ⟨s.length - 1, by
        have := List.length_pos_iff.mpr hpos
        omega⟩
      have hlengths : lengths (s ++ '_' :: r) = (n + 1) :: lengths r := by
        rw [lengths_append, lengths_of_not_mem hs, hn]
        rfl
      have hlengths' : lengths (s ++ '_' :: (t ++ '_' :: r)) =
          (n + 1) :: t.length :: lengths r := by
        rw [lengths_append, lengths_append, lengths_of_not_mem hs, lengths_of_not_mem ht, hn]
        rfl
      have hlast : (t.length :: lengths r).getLastD 0 = (lengths r).getLastD 0 := by
        obtain ⟨m, l, hl⟩ := List.exists_cons_of_ne_nil (lengths_ne_nil r)
        rw [hl, List.getLastD_cons, List.getLastD_cons, List.getLastD_cons]
      have hle : n + 1 + 1 + (lengths r).getLastD 0 ≤ (s ++ '_' :: r).length := by
        have hsum := getLastD_le_sum 0 (lengths_ne_nil r)
        rw [← size_lengths, hlengths, size_cons _ (lengths_ne_nil r), size]
        omega
      rw [hlengths, hlengths']
      constructor
      · rintro (hshort | ⟨n', l, heq, -, hshort⟩)
        · exact .inr ⟨n, _, rfl, List.cons_ne_nil _ _, by rw [hlast]; omega⟩
        · obtain ⟨hn', rfl⟩ := List.cons.inj heq
          exact .inr ⟨n, _, rfl, List.cons_ne_nil _ _, by rw [hlast]; omega⟩
      · rintro (hshort | ⟨n', l, heq, -, hshort⟩)
        · exact absurd (hlen ▸ hlong) (Int.not_lt.mpr hshort)
        · obtain ⟨hn', rfl⟩ := List.cons.inj heq
          rw [hlast] at hshort
          exact .inr ⟨n, _, rfl, lengths_ne_nil r, by omega⟩
    · -- the text stays as it is
      refine iff_of_false ?_ ?_
      · rintro ⟨m, r, h⟩
        refine Outcome.loop_ne_done (I := fun s => s = text) (fun s b hs hb => ?_) rfl h
        subst hs
        rw [hsame D hlong] at hb
        exact ⟨s, (Outcome.done.inj hb).symm, rfl⟩
      · rintro (hshort | ⟨n, l, hl, hne, hshort⟩)
        · exact absurd (hlen ▸ hlong) (Int.not_lt.mpr hshort)
        · have hlength := size_lengths text
          rw [hsize n l hl hne] at hlength
          omega

theorem length_le_of_removeSegments {D : ℤ} {m : ℕ} {r : List Char}
    (h : Outcome.loop (removeSegment D) m text = .done r) : (r.length : ℤ) ≤ D := by
  refine Outcome.of_loop_eq_done (I := fun _ => True) (Q := fun r => (r.length : ℤ) ≤ D)
    (fun _ _ _ _ => trivial)
    (fun buf b _ hb => ?_) trivial h
  rw [removeSegment] at hb
  dsimp only at hb
  by_cases hlong : D < buf.length
  · rw [if_pos hlong] at hb
    split_ifs at hb
    · obtain ⟨a, -, ha⟩ := Outcome.bind_eq_done.mp hb
      cases ha
    · cases hb
    · cases hb
  · rw [if_neg hlong] at hb
    cases hb
    exact Int.not_lt.mp hlong

end Texts

/-! ### Removing vowels -/

def keepAfter : Char → List Char → List Char
  | _, [] => []
  | prev, c :: cs => if prev ≠ '_' ∧ isVowel c = true then keepAfter c cs else c :: keepAfter c cs

/-- The length of a segment without its vowels, but for one at its start. -/
def keptLength : List Char → ℕ
  | [] => 0
  | _ :: cs => 1 + cs.countP fun c => !isVowel c

def keptLengths (dbName : List Char) : List ℕ := (dbName.splitOn '_').map keptLength

theorem removeVowels_append (p : List Char) (c : Char) (rest : List Char) :
    removeVowels p.length (p ++ [c] ++ keepAfter c rest) = keepAfter '_' (p ++ [c] ++ rest) := by
  induction p using List.reverseRecOn generalizing c rest with
  | nil =>
    rw [List.length_nil, removeVowels, List.nil_append, List.singleton_append,
      List.singleton_append, keepAfter, if_neg fun h => h.1 rfl]
  | append_singleton p b ih =>
    have hprev : (p ++ [b] ++ [c] ++ keepAfter c rest)[p.length]? = some b := by simp
    have hcur : (p ++ [b] ++ [c] ++ keepAfter c rest)[p.length + 1]? = some c := by
      rw [List.append_assoc, List.getElem?_append_right (by simp)]
      simp
    have herase : (p ++ [b] ++ [c] ++ keepAfter c rest).eraseIdx (p.length + 1) =
        p ++ [b] ++ keepAfter c rest := by
      rw [List.append_assoc, List.eraseIdx_append_of_length_le (by simp)]
      simp
    have hgoal : keepAfter '_' (p ++ [b] ++ [c] ++ rest) =
        keepAfter '_' (p ++ [b] ++ c :: rest) := by
      rw [List.append_assoc (p ++ [b])]
      rfl
    rw [List.length_append, List.length_singleton, removeVowels, hprev, hcur, herase, hgoal,
      ← ih b (c :: rest), keepAfter, Option.any_some]
    congr 1
    by_cases hb : b = '_'
    · rw [if_pos (congrArg some hb), if_neg fun h => h.1 hb]
      simp
    · have hb' : some b ≠ some '_' := fun h => hb (Option.some.inj h)
      by_cases hc : isVowel c = true
      · rw [if_neg hb', if_pos hc, if_pos ⟨hb, hc⟩]
      · rw [if_neg hb', if_neg hc, if_neg fun h => hc h.2]
        simp

theorem lengths_keepAfter (prev : Char) {text s : List Char} {l : List (List Char)}
    (hsplit : text.splitOn '_' = s :: l) : lengths (keepAfter prev text) =
      (if prev = '_' then keptLength s else s.countP fun c => !isVowel c) :: l.map keptLength := by
  have hnil : (if prev = '_' then keptLength [] else [].countP fun c => !isVowel c) = 0 := by
    split_ifs
    · rfl
    · rfl
  induction text generalizing prev s l with
  | nil =>
    rw [List.splitOn_nil] at hsplit
    obtain ⟨rfl, rfl⟩ := List.cons.inj hsplit
    rw [hnil]
    rfl
  | cons c cs ih =>
    obtain ⟨s', l', hsplit'⟩ := List.exists_cons_of_ne_nil (List.splitOn_ne_nil '_' cs)
    by_cases hc : c = '_'
    · subst hc
      rw [List.splitOn_cons_eq_if_modifyHead, if_pos (beq_self_eq_true '_'), hsplit'] at hsplit
      obtain ⟨rfl, rfl⟩ := List.cons.inj hsplit
      rw [keepAfter, if_neg fun h => absurd h.2 (by decide), lengths_cons_underscore,
        ih '_' hsplit' rfl, if_pos rfl, hnil]
      rfl
    · rw [List.splitOn_cons_eq_if_modifyHead, if_neg (by simpa using hc), hsplit',
        List.modifyHead_cons] at hsplit
      obtain ⟨rfl, rfl⟩ := List.cons.inj hsplit
      have hkept : lengths (c :: keepAfter c cs) =
          ((s'.countP fun c => !isVowel c) + 1) :: l'.map keptLength := by
        rw [lengths_cons hc, ih c hsplit' (if_neg hc), if_neg hc, List.modifyHead_cons]
      by_cases hprev : prev = '_'
      · rw [keepAfter, if_neg fun h => h.1 hprev, hkept, if_pos hprev, keptLength, Nat.add_comm 1]
      · rw [if_neg hprev, keepAfter, List.countP_cons]
        cases hvowel : isVowel c with
        | true =>
          rw [if_pos ⟨hprev, rfl⟩, ih c hsplit' (if_neg hc), if_neg hc]
          simp
        | false =>
          rw [if_neg fun h => Bool.false_ne_true h.2, hkept]
          simp

theorem lengths_keepAfter_underscore (dbName : List Char) :
    lengths (keepAfter '_' dbName) = keptLengths dbName := by
  obtain ⟨s, l, hsplit⟩ := List.exists_cons_of_ne_nil (List.splitOn_ne_nil '_' dbName)
  rw [lengths_keepAfter '_' hsplit, if_pos rfl, keptLengths, hsplit, List.map_cons]

theorem length_keepAfter_le (prev : Char) (text : List Char) :
    (keepAfter prev text).length ≤ text.length := by
  induction text generalizing prev with
  | nil => exact Nat.le_refl _
  | cons c cs ih =>
    rw [keepAfter]
    split_ifs
    · exact Nat.le_succ_of_le (ih c)
    · exact Nat.succ_le_succ (ih c)

/-- **The vowels are removed.** -/
theorem removeVowels_eq (dbName : List Char) (hpos : dbName ≠ []) :
    removeVowels (dbName.length - 1) dbName = keepAfter '_' dbName := by
  -- the loop starts at the end of the name, behind which there is nothing
  obtain ⟨p, c, rfl⟩ := (List.eq_nil_or_concat' dbName).resolve_left hpos
  have hloop := removeVowels_append p c []
  rw [keepAfter, List.append_nil] at hloop
  rw [List.length_append, List.length_singleton, Nat.add_sub_cancel, hloop]

/-! ### Shortening a name -/

section Name

variable {dbName : List Char} {D : ℤ} {n m : ℕ}

theorem shortenPass_le (hnm : n ≤ m) (text : List Char) :
    Outcome.Le (shortenPass n D text) (shortenPass m D text) := by
  rw [shortenPass, shortenPass]
  split_ifs
  · refine (Outcome.loop_le (fun _ => .refl _) hnm).bind fun state => ?_
    refine (Outcome.Le.refl _).bind fun state => ?_
    exact (Outcome.loop_le (fun _ => .refl _) hnm).bind fun state => .refl _
  · exact .refl _

theorem shortenName_le (hnm : n ≤ m) :
    Outcome.Le (shortenName n dbName D) (shortenName m dbName D) := by
  refine (Outcome.loop_le (fun _ => .refl _) hnm).bind fun state => ?_
  refine (Outcome.loop_le (shortenPass_le hnm) hnm).bind fun text => ?_
  exact (Outcome.loop_le (fun _ => .refl _) hnm).bind fun state => .refl _

/-- What comes before the last loop: a text that is short enough, or one that cannot be shortened
from its end and has the least length of the name. -/
theorem shortenName_spec (hD : 1 ≤ D) (hn : dbName.length < n) :
    ∃ text, shortenName n dbName D = .done text ∧ (((text.length : ℤ) ≤ D ∧
        (least (keptLengths dbName) : ℤ) ≤ D) ∨
      (Settled (lengths text) ∧ Stuck (lengths text) ∧ EndShort (lengths text) ∧
        least (lengths text) = least (keptLengths dbName))) := by
  have hkept : size (keptLengths dbName) ≤ dbName.length := by
    rw [← lengths_keepAfter_underscore, size_lengths]
    exact length_keepAfter_le '_' dbName
  have hleast : least (keptLengths dbName) ≤ dbName.length := by
    refine Nat.le_trans (least_le_size ?_) hkept
    rw [← lengths_keepAfter_underscore]
    exact lengths_ne_nil _
  -- the name without its vowels, if it is too long
  obtain ⟨buf, hbuf, hlen, hlengths⟩ : ∃ buf,
      (if D < dbName.length then removeVowels (dbName.length - 1) dbName else dbName) = buf ∧
        buf.length ≤ dbName.length ∧ (D < dbName.length → lengths buf = keptLengths dbName) := by
    by_cases hlong : D < dbName.length
    · have hne : dbName ≠ [] := by
        rintro rfl
        rw [List.length_nil] at hlong
        omega
      refine ⟨keepAfter '_' dbName, ?_, length_keepAfter_le '_' dbName,
        fun _ => lengths_keepAfter_underscore dbName⟩
      rw [if_pos hlong, removeVowels_eq dbName hne]
    · exact ⟨dbName, if_neg hlong, Nat.le_refl _, fun h => absurd h hlong⟩
  obtain ⟨text₁, flag₁, hdoubles₁, hcollapses, hsettled₁, -⟩ :=
    removeDoubles_spec buf false (by omega : buf.length < n)
  obtain ⟨hleast₁, hsize₁⟩ := least_eq_of_collapses hcollapses
  rw [size_lengths, size_lengths] at hsize₁
  obtain ⟨text₂, hpasses, hlen₂, hsettled₂, hleast₂, hcases⟩ :=
    shortenPasses_spec hD (by omega : text₁.length < n) (by omega : text₁.length < n) hsettled₁
  obtain ⟨text₃, flag₃, hdoubles₃, -, -, hsame⟩ :=
    removeDoubles_spec text₂ false (by omega : text₂.length < n)
  obtain ⟨rfl, -⟩ := hsame hsettled₂
  refine ⟨text₃, ?_, ?_⟩
  · rw [shortenName, hbuf]
    refine Outcome.bind_eq_done.mpr ⟨(text₁, flag₁), hdoubles₁, ?_⟩
    refine Outcome.bind_eq_done.mpr ⟨text₃, hpasses, ?_⟩
    exact Outcome.bind_eq_done.mpr ⟨(text₃, flag₃), hdoubles₃, rfl⟩
  · by_cases hlong : D < dbName.length
    swap
    · exact .inl ⟨by omega, by omega⟩
    have hleast₃ : least (lengths text₃) = least (keptLengths dbName) := by
      rw [hleast₂, hleast₁, hlengths hlong]
    rcases hcases with hshort | ⟨hstuck, hend⟩
    · refine .inl ⟨hshort, ?_⟩
      have hle := least_le_size (lengths_ne_nil text₃)
      rw [size_lengths, hleast₃] at hle
      omega
    · exact .inr ⟨hsettled₂, hstuck, hend, hleast₃⟩

/-- The last loop ends for a text that cannot be shortened from its end exactly if the text need not
be shorter than its least length. -/
theorem exists_removeSegments_iff_least {text : List Char} (hsettled : Settled (lengths text))
    (hstuck : Stuck (lengths text)) (hend : EndShort (lengths text)) :
    (∃ m r, Outcome.loop (removeSegment D) m text = .done r) ↔
      (least (lengths text) : ℤ) ≤ D := by
  rw [exists_removeSegments_iff, ← size_lengths text]
  have hle := least_le_size (lengths_ne_nil text)
  obtain ⟨n, l, hl⟩ := List.exists_cons_of_ne_nil (lengths_ne_nil text)
  rw [hl] at hsettled hstuck hend hle ⊢
  cases n with
  | zero =>
    rw [hstuck.least_eq_size hsettled]
    refine or_iff_left ?_
    rintro ⟨n, l', heq, -⟩
    cases heq
  | succ n =>
    rw [hstuck.least_eq hsettled hend.tail_ne] at hle ⊢
    constructor
    · rintro (hshort | ⟨n', l', heq, -, hshort⟩)
      · omega
      · obtain ⟨hn, rfl⟩ := List.cons.inj heq
        omega
    · exact fun hshort => .inr ⟨n, l, rfl, hend.tail_ne.1, hshort⟩

/-- **When a name is shortened**: exactly if the desired length is not below the least length of the
name. Otherwise the last loop never ends. -/
theorem shortenDbName_iff (dbName : List Char) {desiredLength : ℤ} (hD : 1 ≤ desiredLength) :
    (∃ n r, shortenDbName n dbName desiredLength = .done r ∧ (r.length : ℤ) ≤ desiredLength) ↔
      (least (keptLengths dbName) : ℤ) ≤ desiredLength := by
  obtain ⟨text, htext, hcases⟩ := shortenName_spec hD (Nat.lt_succ_self dbName.length)
  have hloops : (∃ m r, Outcome.loop (removeSegment desiredLength) m text = .done r) ↔
      (least (keptLengths dbName) : ℤ) ≤ desiredLength := by
    rcases hcases with ⟨hshort, hleast⟩ | ⟨hsettled, hstuck, hend, hleast⟩
    · exact iff_of_true (exists_removeSegments_iff.mpr (.inl hshort)) hleast
    · rw [← hleast]
      exact exists_removeSegments_iff_least hsettled hstuck hend
  rw [← hloops]
  constructor
  · rintro ⟨n, r, h, -⟩
    obtain ⟨text', htext', hloop⟩ := Outcome.bind_eq_done.mp h
    have hmore := (shortenName_le (Nat.le_max_left n (dbName.length + 1))).eq_done htext'
    have hmore' := (shortenName_le (Nat.le_max_right n (dbName.length + 1))).eq_done htext
    obtain rfl := Outcome.done.inj (hmore.symm.trans hmore')
    exact ⟨n, r, hloop⟩
  · rintro ⟨m, r, hloop⟩
    refine ⟨max m (dbName.length + 1), r, Outcome.bind_eq_done.mpr ⟨text, ?_, ?_⟩,
      length_le_of_removeSegments hloop⟩
    · exact (shortenName_le (Nat.le_max_right m (dbName.length + 1))).eq_done htext
    · exact (Outcome.loop_le (fun _ => .refl _) (Nat.le_max_left m _)).eq_done hloop

theorem shortenDbName_orderItem :
    ∃ n r, shortenDbName n "ORDER_ITEM_PRICE_INFO".toList 6 = .done r ∧ (r.length : ℤ) ≤ 6 :=
  (shortenDbName_iff _ (by decide)).mpr (by decide)

theorem not_shortenDbName_orderItem :
    ¬∃ n r, shortenDbName n "ORDER_ITEM".toList 5 = .done r ∧ (r.length : ℤ) ≤ 5 := by
  rintro ⟨n, r, h, -⟩
  obtain ⟨text, htext, hloop⟩ := Outcome.bind_eq_done.mp h
  have hname : shortenName 11 "ORDER_ITEM".toList 5 = .done "ORR_IM".toList := by decide
  have hmore := (shortenName_le (Nat.le_max_left n 11)).eq_done htext
  have hmore' := (shortenName_le (Nat.le_max_right n 11)).eq_done hname
  obtain rfl := Outcome.done.inj (hmore.symm.trans hmore')
  refine Outcome.loop_ne_done (I := fun s => s = "ORR_IM".toList) (fun s b hs hb => ?_) rfl hloop
  subst hs
  have hstays : removeSegment 5 "ORR_IM".toList = .done (.inl "ORR_IM".toList) := by decide
  exact ⟨_, (Outcome.done.inj (hstays.symm.trans hb)).symm, rfl⟩

end Name

end OfficeAuto.Entity.ModelUtil
