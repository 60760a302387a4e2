import Mathlib.Data.List.DropRight
import Mathlib.Data.List.Infix

/-!
# Cutting at two symbols

`String.split` at a regular expression of two symbols: a fixed symbol and one of a class behind it,
as a comma and a white space. The fixed symbol is not of the class, so that no two occurrences
overlap. Pieces that have no occurrence of their own come back from their join
(`splitOnPair_intercalate`).
-/

namespace Text

variable {α : Type*} [DecidableEq α]

def splitOnPair (c : α) (p : α → Bool) : List α → List (List α)
  | [] => [[]]
  | [x] => [[x]]
  | x :: y :: s =>
    if x = c ∧ p y = true then [] :: splitOnPair c p s
    else (splitOnPair c p (y :: s)).modifyHead (x :: ·)

/-- `split`: trailing empty pieces are dropped, and a text without an occurrence is its own only
piece, also where it is empty. -/
def splitPair (c : α) (p : α → Bool) (s : List α) : List (List α) :=
  if (splitOnPair c p s).length = 1 then [s] else (splitOnPair c p s).rdropWhile List.isEmpty

def hasPair (c : α) (p : α → Bool) : List α → Bool
  | x :: y :: s => (x = c && p y) || hasPair c p (y :: s)
  | _ => false

variable {c : α} {p : α → Bool}

theorem not_hasPair_tail {x : α} {s : List α} (h : hasPair c p (x :: s) = false) :
    hasPair c p s = false := by
  cases s with
  | nil => rfl
  | cons y s =>
    rw [hasPair, Bool.or_eq_false_iff] at h
    exact h.2

theorem not_hasPair_append {x : α} (hx : x ≠ c) (hpx : p x = false) {q r : List α}
    (hq : hasPair c p q = false) (hr : hasPair c p r = false) :
    hasPair c p (q ++ x :: r) = false := by
  induction q with
  | nil =>
    cases r with
    | nil => rfl
    | cons y r =>
      rw [List.nil_append, hasPair, hr, decide_eq_false hx, Bool.false_and, Bool.or_false]
  | cons z q ih =>
    have htail := ih (not_hasPair_tail hq)
    cases q with
    | nil =>
      rw [List.nil_append] at htail
      rw [List.cons_append, List.nil_append, hasPair, htail, hpx, Bool.and_false, Bool.or_false]
    | cons y q =>
      rw [hasPair, Bool.or_eq_false_iff] at hq
      rw [List.cons_append] at htail
      rw [List.cons_append, List.cons_append, hasPair, htail, hq.1, Bool.or_false]

theorem splitOnPair_append (hc : p c = false) {q : List α} (hq : hasPair c p q = false) {d : α}
    (hd : p d = true) (s : List α) :
    splitOnPair c p (q ++ c :: d :: s) = q :: splitOnPair c p s := by
  induction q with
  | nil => rw [List.nil_append, splitOnPair, if_pos ⟨rfl, hd⟩]
  | cons x q ih =>
    have htail := ih (not_hasPair_tail hq)
    cases q with
    | nil =>
      have hx : ¬(x = c ∧ p c = true) := fun h => Bool.false_ne_true (hc.symm.trans h.2)
      rw [List.nil_append] at htail
      rw [List.cons_append, List.nil_append, splitOnPair, if_neg hx, htail, List.modifyHead_cons]
    | cons y q =>
      rw [hasPair, Bool.or_eq_false_iff] at hq
      have hxy : ¬(x = c ∧ p y = true) := by
        intro h
        simp [h] at hq
      rw [List.cons_append] at htail
      rw [List.cons_append, List.cons_append, splitOnPair, if_neg hxy, htail, List.modifyHead_cons]

theorem splitOnPair_of_not_hasPair {q : List α} (hq : hasPair c p q = false) :
    splitOnPair c p q = [q] := by
  induction q with
  | nil => rfl
  | cons x q ih =>
    have htail := ih (not_hasPair_tail hq)
    cases q with
    | nil => rfl
    | cons y q =>
      rw [hasPair, Bool.or_eq_false_iff] at hq
      have hxy : ¬(x = c ∧ p y = true) := by
        intro h
        simp [h] at hq
      rw [splitOnPair, if_neg hxy, htail, List.modifyHead_cons]

/-- **The pieces come back from their join.** -/
theorem splitOnPair_intercalate (hc : p c = false) {d : α} (hd : p d = true) {ps : List (List α)}
    (hne : ps ≠ []) (hps : ∀ q ∈ ps, hasPair c p q = false) :
    splitOnPair c p ([c, d].intercalate ps) = ps := by
  induction ps with
  | nil => exact absurd rfl hne
  | cons q ps ih =>
    rw [List.forall_mem_cons] at hps
    cases ps with
    | nil =>
      rw [List.intercalate_singleton]
      exact splitOnPair_of_not_hasPair hps.1
    | cons r ps =>
      rw [List.intercalate_cons_cons, List.append_assoc, List.cons_append, List.cons_append,
        List.nil_append, splitOnPair_append hc hps.1 hd, ih (List.cons_ne_nil r ps) hps.2]

theorem splitPair_intercalate (hc : p c = false) {d : α} (hd : p d = true) {ps : List (List α)}
    (hne : ps ≠ []) (hps : ∀ q ∈ ps, hasPair c p q = false)
    (hlast : ps.length = 1 ∨ ps.getLast hne ≠ []) :
    splitPair c p ([c, d].intercalate ps) = ps := by
  rw [splitPair, splitOnPair_intercalate hc hd hne hps]
  split_ifs with hlength
  · obtain ⟨q, rfl⟩ := List.length_eq_one_iff.mp hlength
    rw [List.intercalate_singleton]
  · rw [List.rdropWhile_eq_self_iff]
    intro _ hempty
    exact hlast.resolve_left hlength (List.isEmpty_iff.mp hempty)

end Text
