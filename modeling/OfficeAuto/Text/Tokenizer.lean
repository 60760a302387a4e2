import Mathlib.Data.List.Basic

/-!
# A tokenizer that returns its delimiters

`StringTokenizer` with one delimiter, which it returns as a token of its own: the tokens are the
longest pieces without the delimiter, none of them empty, and the delimiters between them.
-/

namespace Text

variable {α : Type*} [DecidableEq α] {c : α}

def tokensDelims (c : α) : List α → List (List α)
  | [] => []
  | x :: s =>
    if x = c then [c] :: tokensDelims c s
    else match tokensDelims c s with
      | [] => [[x]]
      | t :: ts => if t = [c] then [x] :: t :: ts else (x :: t) :: ts

theorem tokensDelims_cons (c : α) (s : List α) :
    tokensDelims c (c :: s) = [c] :: tokensDelims c s := by
  rw [tokensDelims, if_pos rfl]

theorem tokensDelims_append (s t : List α) :
    tokensDelims c (s ++ c :: t) = tokensDelims c s ++ [c] :: tokensDelims c t := by
  induction s with
  | nil => rw [List.nil_append, tokensDelims_cons, tokensDelims, List.nil_append]
  | cons x s ih =>
    rw [List.cons_append, tokensDelims, tokensDelims, ih]
    split_ifs with hx
    · rfl
    · cases tokensDelims c s with
      | nil => simp
      | cons u us =>
        rw [List.cons_append]
        dsimp only
        split_ifs <;> rfl

theorem tokensDelims_of_not_mem {s : List α} (h : c ∉ s) :
    tokensDelims c s = if s = [] then [] else [s] := by
  induction s with
  | nil => rfl
  | cons x s ih =>
    rw [List.mem_cons, not_or] at h
    rw [tokensDelims, if_neg (Ne.symm h.1), ih h.2]
    rcases s with _ | ⟨y, s⟩
    · rfl
    · have hy : y :: s ≠ [c] := fun heq => h.2 (by simp [heq])
      simp [hy]

end Text
