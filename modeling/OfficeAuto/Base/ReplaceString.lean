import OfficeAuto.Text.Replace

/-!
# Replacing in strings

`StringUtil.replaceString` looks for the last occurrence of a string in the original text, replaces
it in a buffer, and goes on with the last occurrence that starts further left in the original text.
Where that one overlaps the one before, the buffer holds a part of the replacement at its end, and
this part is cut away.

For a text in which no two occurrences overlap, **every occurrence is replaced, from left to right
or from right to left**; for any other text some replacement, for instance any that is longer than
the string it replaces, comes out wrong (`replaceString_eq_iff`).
-/

namespace OfficeAuto.Base.StringUtil

open Text

variable {α : Type*} [DecidableEq α]

/-! ### The code -/

def lastIndexOfBelow (main old : List α) : ℕ → Option ℕ
  | 0 => none
  | n + 1 => if old.isPrefixOf (main.drop n) then some n else lastIndexOfBelow main old n

theorem lt_of_lastIndexOfBelow {main old : List α} {n i : ℕ}
    (h : lastIndexOfBelow main old n = some i) : i < n := by
  induction n with
  | zero => cases h
  | succ n ih =>
    rw [lastIndexOfBelow] at h
    split_ifs at h with hocc
    · exact Option.some.inj h ▸ Nat.lt_succ_self n
    · exact Nat.lt_succ_of_lt (ih h)

def replaceLoop (main old new : List α) (i : Option ℕ) (mainSb : List α) : List α :=
  match i with
  | none => mainSb
  | some i =>
    replaceLoop main old new (lastIndexOfBelow main old i)
      (replaceSlice mainSb i (i + old.length) new)
termination_by i.elim 0 (· + 1)
decreasing_by
  cases hnext : lastIndexOfBelow main old _ with
  | none => exact Nat.succ_pos _
  | some j => exact Nat.succ_lt_succ (lt_of_lastIndexOfBelow hnext)

/-- **`replaceString`** -/
def replaceString (mainString oldString newString : Option (List α)) : Option (List α) :=
  match mainString with
  | none => none
  | some main =>
    match oldString with
    | none => some main
    | some old =>
      if old.isEmpty then some main
      else
        match lastIndexOfBelow main old (main.length + 1) with
        | none => some main
        | some i => some (replaceLoop main old (newString.getD []) (some i) main)

/-! ### What it returns -/

section Returns

variable {main old new : List α}

theorem replaceLoop_eq_replaceDown (n : ℕ) (mainSb : List α) :
    replaceLoop main old new (lastIndexOfBelow main old n) mainSb =
      replaceDown old new main n mainSb := by
  induction n generalizing mainSb with
  | zero => rw [lastIndexOfBelow, replaceLoop, replaceDown]
  | succ n ih =>
    rw [lastIndexOfBelow, replaceDown]
    split_ifs with hocc
    · rw [replaceLoop, ih]
    · exact ih mainSb

theorem replaceString_eq (hold : old ≠ []) (newString : Option (List α)) :
    replaceString (some main) (some old) newString =
      some (replacedTail old (newString.getD []) main) := by
  have hend : lastIndexOfBelow main old (main.length + 1) =
      lastIndexOfBelow main old main.length := by
    have hnot : ¬old.isPrefixOf (main.drop main.length) := by
      rw [List.drop_length, List.isPrefixOf_iff_prefix, List.prefix_nil]
      exact hold
    rw [lastIndexOfBelow, if_neg hnot]
  have hloop : replaceLoop main old (newString.getD []) (lastIndexOfBelow main old main.length)
      main = replacedTail old (newString.getD []) main := by
    rw [replaceLoop_eq_replaceDown, replaceDown_length hold]
  rw [← hloop]
  change (if old.isEmpty then some main else _) = _
  rw [if_neg (mt List.isEmpty_iff.mp hold), hend]
  cases lastIndexOfBelow main old main.length with
  | none => rw [replaceLoop]
  | some i => rfl

/-- **All occurrences are replaced, whatever the new string, exactly if no two of them overlap.**
For a new string that is longer than the old one, this is so for itself. -/
theorem replaceString_eq_iff (main old : List α) (hold : old ≠ []) :
    ((∀ newString, replaceString (some main) (some old) newString =
        some (replaceAll old (newString.getD []) main)) ↔ NoOverlap old main) ∧
    ∀ newString : List α, old.length < newString.length →
      (replaceString (some main) (some old) (some newString) =
        some (replaceAll old newString main) ↔ NoOverlap old main) := by
  have hnoOverlap : NoOverlap old main → ∀ newString,
      replaceString (some main) (some old) newString =
        some (replaceAll old (newString.getD []) main) := by
    intro h newString
    rw [replaceString_eq hold, replacedTail_eq_replaceAll hold h]
  have hlonger : ∀ newString : List α, old.length < newString.length →
      replaceString (some main) (some old) (some newString) =
        some (replaceAll old newString main) → NoOverlap old main := by
    intro newString hlt heq
    rw [replaceString_eq hold, Option.some.injEq] at heq
    exact noOverlap_of_eq hold hlt heq
  refine ⟨⟨fun h => ?_, hnoOverlap⟩, fun newString hlt =>
    ⟨hlonger newString hlt, fun h => hnoOverlap h (some newString)⟩⟩
  have hpos := List.length_pos_iff.mpr hold
  -- of all new strings one that is longer than the old one is enough
  refine hlonger (old ++ old) ?_ (h (some (old ++ old)))
  rw [List.length_append]
  omega

theorem replaceString_eq_iff_newline :
    ((∀ newString, replaceString (some "a\nb".toList) (some "\n".toList) newString =
        some (replaceAll "\n".toList (newString.getD []) "a\nb".toList)) ↔
      NoOverlap "\n".toList "a\nb".toList) ∧
    ∀ newString : List Char, "\n".toList.length < newString.length →
      (replaceString (some "a\nb".toList) (some "\n".toList) (some newString) =
        some (replaceAll "\n".toList newString "a\nb".toList) ↔
          NoOverlap "\n".toList "a\nb".toList) :=
  replaceString_eq_iff "a\nb".toList "\n".toList (by decide)

theorem replaceString_overlap :
    replaceString (some "aaa".toList) (some "aa".toList) (some "b".toList) = some "b".toList ∧
      replaceAll "aa".toList "b".toList "aaa".toList = "ba".toList := by
  refine ⟨?_, by decide⟩
  rw [replaceString_eq (by decide)]
  decide

end Returns

end OfficeAuto.Base.StringUtil
