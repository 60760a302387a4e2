import Mathlib.Algebra.Ring.Nat
import Mathlib.Data.List.Basic
import Mathlib.Logic.Relation

/-!
# Lengths of segments

A name of a table or a column has segments, with an underscore between any two of them. How short a
name becomes depends on the lengths of its segments alone. A step that shortens it removes one
character from a segment that is longer than what is left of it (`Shrinks`), or one of two
underscores (`Collapses`).

Both keep the `least` length (`Shrinks.least_eq`, `Collapses.least_eq`). Where no step is left, a
name that starts with an underscore has its least length, and any other one has it without the
segments between the first and the last (`Stuck.least_eq_size`, `Stuck.least_eq`).
-/

namespace OfficeAuto.Entity.ModelUtil

/-! ### Lengths of segments -/

/-- The length of a text whose segments have the lengths, with an underscore between any two. -/
def size (l : List ℕ) : ℕ := l.sum + (l.length - 1)

def leftBefore (after : List ℕ) : ℕ := if after = [] then 2 else if after = [0] then 1 else 3

def leftOf (before after : List ℕ) : ℕ :=
  if before = [] then if after = [] then 1 else if after = [0] then 0 else 3
  else leftBefore after

/-- The length up to which the segments behind the first one are shortened. -/
def floor : List ℕ → ℕ
  | [] => 0
  | n :: l => min n (leftBefore l) + if l = [] then 0 else floor l + 1

def squeeze : List ℕ → List ℕ
  | [] => []
  | n :: l => if n = 0 ∧ l ≠ [] then squeeze l else n :: squeeze l

def startsDoubled : List ℕ → Bool
  | 0 :: 0 :: _ :: _ => true
  | _ => false

/-- The least length that a text is shortened to, by the lengths of its segments without vowels.

A text that starts with an underscore is shortened from its end alone; its double underscores are
removed if it does not start with one. In any other text, what is between the first and the last
segment is removed as well, and a text with one segment alone is shortened to one character. -/
def least : List ℕ → ℕ
  | [] => 0
  | 0 :: l => floor (if startsDoubled (0 :: l) then 0 :: l else 0 :: squeeze l)
  | (n + 1) :: l => if l.all (· == 0) then 1 else min (n + 1) 3 + 1 + min (l.getLastD 0) 2

def Settled (l : List ℕ) : Prop := startsDoubled l = true ∨ 0 ∉ l.tail.dropLast

/-- **One character is removed** from a segment that is longer than what is left of it. -/
inductive Shrinks : List ℕ → List ℕ → Prop
  | intro (l₁ : List ℕ) (n : ℕ) (l₂ : List ℕ) (h : leftOf l₁ l₂ ≤ n) :
    Shrinks (l₁ ++ (n + 1) :: l₂) (l₁ ++ n :: l₂)

variable {l l' l₁ l₂ r : List ℕ} {n : ℕ}

theorem size_cons (n : ℕ) (h : l ≠ []) : size (n :: l) = n + 1 + size l := by
  have hpos := List.length_pos_iff.mpr h
  rw [size, size, List.sum_cons, List.length_cons]
  omega

theorem Shrinks.size_eq (h : Shrinks l l') : size l = size l' + 1 := by
  obtain ⟨l₁, n, l₂, -⟩ := h
  simp only [size, List.sum_append, List.length_append, List.sum_cons, List.length_cons]
  omega

theorem floor_le_size (l : List ℕ) : floor l ≤ size l := by
  induction l with
  | nil => exact Nat.zero_le _
  | cons n l ih =>
    have hmin := Nat.min_le_left n (leftBefore l)
    rcases eq_or_ne l [] with rfl | hl
    · simpa [floor, size] using hmin
    · rw [floor, if_neg hl, size_cons n hl]
      omega

theorem one_le_leftBefore (l : List ℕ) : 1 ≤ leftBefore l := by
  rw [leftBefore]
  split_ifs <;> decide

theorem leftBefore_append (l₁ l₂ : List ℕ) (hn : n ≠ 0) : leftBefore (l₁ ++ n :: l₂) = 3 := by
  rw [leftBefore, if_neg (by simp), if_neg]
  intro h
  have hmem : n ∈ l₁ ++ n :: l₂ := List.mem_append_right _ List.mem_cons_self
  rw [h] at hmem
  exact hn (List.mem_singleton.mp hmem)

theorem floor_shrinks (l₁ : List ℕ) (h : leftBefore l₂ ≤ n) :
    floor (l₁ ++ (n + 1) :: l₂) = floor (l₁ ++ n :: l₂) := by
  have hn : n ≠ 0 := Nat.ne_of_gt (Nat.le_trans (one_le_leftBefore l₂) h)
  induction l₁ with
  | nil =>
    rw [List.nil_append, List.nil_append, floor, floor, Nat.min_eq_right h,
      Nat.min_eq_right (Nat.le_succ_of_le h)]
  | cons m l₁ ih =>
    rw [List.cons_append, List.cons_append, floor, floor, leftBefore_append l₁ l₂ hn,
      leftBefore_append l₁ l₂ (Nat.succ_ne_zero n), ih, if_neg (by simp), if_neg (by simp)]

theorem squeeze_of_not_mem (h : 0 ∉ l.dropLast) : squeeze l = l := by
  induction l with
  | nil => rfl
  | cons n l ih =>
    cases l with
    | nil => simp [squeeze]
    | cons m l =>
      rw [List.dropLast_cons_cons, List.mem_cons, not_or] at h
      rw [squeeze, if_neg fun hn => h.1 hn.1.symm, ih h.2]

theorem squeeze_append (l₁ : List ℕ) (h : l₂ ≠ []) :
    squeeze (l₁ ++ l₂) = l₁.filter (· ≠ 0) ++ squeeze l₂ := by
  induction l₁ with
  | nil => rfl
  | cons n l₁ ih =>
    rw [List.cons_append, squeeze, ih]
    by_cases hn : n = 0
    · simp [hn, h]
    · simp [hn]

theorem squeeze_ne_nil (h : l ≠ []) : squeeze l ≠ [] := by
  induction l with
  | nil => exact absurd rfl h
  | cons n l ih =>
    rw [squeeze]
    split_ifs with hn
    · exact ih hn.2
    · exact List.cons_ne_nil _ _

theorem size_squeeze_le (l : List ℕ) : size (squeeze l) ≤ size l := by
  induction l with
  | nil => exact Nat.le_refl _
  | cons n l ih =>
    rw [squeeze]
    split_ifs with hn
    · rw [size_cons n hn.2]
      omega
    · rcases eq_or_ne l [] with rfl | hl
      · exact Nat.le_refl _
      · rw [size_cons n hl, size_cons n (squeeze_ne_nil hl)]
        omega

theorem getLastD_le_sum (n : ℕ) (h : l ≠ []) : l.getLastD n ≤ l.sum := by
  induction l generalizing n with
  | nil => exact absurd rfl h
  | cons m l ih =>
    rw [List.getLastD_cons, List.sum_cons]
    rcases eq_or_ne l [] with rfl | hl
    · exact Nat.le_add_right _ _
    · exact Nat.le_trans (ih m hl) (Nat.le_add_left _ _)

/-- **No text is shortened to less than its least length**, for one. -/
theorem least_le_size (h : l ≠ []) : least l ≤ size l := by
  obtain ⟨n, l, rfl⟩ := List.exists_cons_of_ne_nil h
  cases n with
  | zero =>
    rw [least]
    refine Nat.le_trans (floor_le_size _) ?_
    split_ifs
    · exact Nat.le_refl _
    · rcases eq_or_ne l [] with rfl | hl
      · exact Nat.le_refl _
      · rw [size_cons 0 hl, size_cons 0 (squeeze_ne_nil hl)]
        exact Nat.add_le_add_left (size_squeeze_le l) _
  | succ n =>
    rw [least]
    split_ifs with hall
    · rw [size, List.sum_cons]
      omega
    · have hl : l ≠ [] := by
        rintro rfl
        exact hall rfl
      have hlast := getLastD_le_sum 0 hl
      have hpos := List.length_pos_iff.mpr hl
      rw [size_cons (n + 1) hl, size]
      omega

/-- Without double underscores that are still to be removed, a text that starts with an underscore
is shortened as its segments are. -/
theorem least_of_settled (hsettled : Settled (0 :: l)) : least (0 :: l) = floor (0 :: l) := by
  rw [least]
  split_ifs with hdouble
  · rfl
  · have hzero : 0 ∉ l.dropLast := hsettled.resolve_left hdouble
    rw [squeeze_of_not_mem hzero]

/-! ### What the steps keep -/

theorem startsDoubled_append {l₁ l₂ : List ℕ} (hn : n ≠ 0) {m : ℕ}
    (h : startsDoubled (l₁ ++ n :: l₂) = true) : startsDoubled (l₁ ++ m :: l₂) = true := by
  obtain ⟨k, rfl⟩ := Nat.exists_eq_succ_of_ne_zero hn
  rcases l₁ with _ | ⟨_ | a, _ | ⟨_ | b, l₁⟩⟩
  · cases h
  · cases h
  · cases l₁ <;> rfl
  · cases h
  · cases h
  · cases h
  · cases h

theorem Shrinks.settled (h : Shrinks l l') (hsettled : Settled l) : Settled l' := by
  obtain ⟨l₁, n, l₂, hn⟩ := h
  refine hsettled.imp (startsDoubled_append (Nat.succ_ne_zero n)) fun hzero hmem => hzero ?_
  cases l₁ with
  | nil => exact hmem
  | cons a l₁ =>
    rcases eq_or_ne l₂ [] with rfl | hl₂
    · simpa using hmem
    · have hpos : n ≠ 0 := by
        rw [leftOf, if_neg (List.cons_ne_nil a l₁)] at hn
        exact Nat.ne_of_gt (Nat.le_trans (one_le_leftBefore l₂) hn)
      simpa [List.dropLast_append_of_ne_nil, List.dropLast_cons_of_ne_nil hl₂, hpos.symm] using hmem

theorem all_append_cons {m : ℕ} (hn : n ≠ 0) (hm : m ≠ 0) :
    (l₁ ++ n :: l₂).all (· == 0) = (l₁ ++ m :: l₂).all (· == 0) := by
  rw [List.all_append, List.all_append, List.all_cons, List.all_cons,
    beq_eq_false_iff_ne.mpr hn, beq_eq_false_iff_ne.mpr hm]

theorem getLastD_append_cons (l₁ : List ℕ) (n : ℕ) (l₂ : List ℕ) :
    (l₁ ++ n :: l₂).getLastD 0 = l₂.getLastD n := by
  simp [List.getLastD_eq_getLast?, List.getLast?_append, List.getLast?_cons]

/-- **A step keeps the least length.** -/
theorem Shrinks.least_eq (h : Shrinks l l') (hsettled : Settled l) : least l' = least l := by
  have hsettled' := h.settled hsettled
  obtain ⟨l₁, n, l₂, hn⟩ := h
  rcases l₁ with _ | ⟨_ | a, l₁⟩
  · -- the step is in the first segment
    rw [List.nil_append, List.nil_append]
    rw [leftOf, if_pos rfl] at hn
    by_cases hnil : l₂ = []
    · subst hnil
      obtain ⟨k, rfl⟩ := Nat.exists_eq_add_of_le' (by simpa using hn : 1 ≤ n)
      rfl
    by_cases hzero : l₂ = [0]
    · subst hzero
      rcases n with _ | k
      · rfl
      · rfl
    · rw [if_neg hnil, if_neg hzero] at hn
      obtain ⟨k, rfl⟩ := Nat.exists_eq_add_of_le' hn
      rw [least, least, Nat.min_eq_right (Nat.le_add_left 3 k),
        Nat.min_eq_right (by omega : 3 ≤ k + 3 + 1)]
  · -- the first segment is empty, and the step is behind it
    rw [leftOf, if_neg (List.cons_ne_nil 0 l₁)] at hn
    refine (least_of_settled hsettled').trans (Eq.trans ?_ (least_of_settled hsettled).symm)
    exact (floor_shrinks (0 :: l₁) hn).symm
  · -- the first segment is another one
    rw [leftOf, if_neg (List.cons_ne_nil (a + 1) l₁)] at hn
    have hpos : n ≠ 0 := Nat.ne_of_gt (Nat.le_trans (one_le_leftBefore l₂) hn)
    have hlast : min ((l₁ ++ n :: l₂).getLastD 0) 2 = min ((l₁ ++ (n + 1) :: l₂).getLastD 0) 2 := by
      rw [getLastD_append_cons, getLastD_append_cons]
      rcases eq_or_ne l₂ [] with rfl | hl₂
      · rw [leftBefore, if_pos rfl] at hn
        rw [List.getLastD_nil, List.getLastD_nil]
        omega
      · obtain ⟨m, l, rfl⟩ := List.exists_cons_of_ne_nil hl₂
        rw [List.getLastD_cons, List.getLastD_cons]
    rw [List.cons_append, List.cons_append, least, least, hlast,
      all_append_cons hpos (Nat.succ_ne_zero n)]

/-- **One of two underscores is removed**, which is not at the start. -/
inductive Collapses : List ℕ → List ℕ → Prop
  | intro (l₁ l₂ : List ℕ) (h₁ : l₁ ≠ []) (h₂ : l₂ ≠ [])
    (hstart : startsDoubled (l₁ ++ 0 :: l₂) = false) : Collapses (l₁ ++ 0 :: l₂) (l₁ ++ l₂)

theorem Collapses.size_eq (h : Collapses l l') : size l = size l' + 1 := by
  obtain ⟨l₁, l₂, h₁, -, -⟩ := h
  have hpos := List.length_pos_iff.mpr h₁
  simp only [size, List.sum_append, List.length_append, List.sum_cons, List.length_cons]
  omega

/-- **Removing one of two underscores keeps the least length.** -/
theorem Collapses.least_eq (h : Collapses l l') : least l' = least l := by
  obtain ⟨l₁, l₂, h₁, h₂, hstart⟩ := h
  obtain ⟨m, l₂, rfl⟩ := List.exists_cons_of_ne_nil h₂
  rcases l₁ with _ | ⟨_ | a, l₁⟩
  · exact absurd rfl h₁
  · -- the second segment is not empty, so there are no two underscores at the start after it, too
    rcases l₁ with _ | ⟨_ | b, l₁⟩
    · cases hstart
    · cases l₁ <;> cases hstart
    · have hsqueeze : squeeze ((b + 1) :: l₁ ++ m :: l₂) =
          squeeze ((b + 1) :: l₁ ++ 0 :: m :: l₂) := by
        rw [squeeze_append _ h₂, squeeze_append _ (List.cons_ne_nil 0 (m :: l₂))]
        exact congrArg _ (by simp [squeeze])
      exact congrArg (fun l => floor (0 :: l)) hsqueeze
  · have hlast : ∀ k, (l₁ ++ k :: m :: l₂).getLastD 0 = (l₁ ++ m :: l₂).getLastD 0 := by
      intro k
      rw [getLastD_append_cons, getLastD_append_cons, List.getLastD_cons]
    have hall : (l₁ ++ 0 :: m :: l₂).all (· == 0) = (l₁ ++ m :: l₂).all (· == 0) := by
      rw [List.all_append, List.all_append, List.all_cons]
      rfl
    rw [List.cons_append, List.cons_append, least, least, hlast, hall]

/-! ### Where the steps end -/

def Stuck (l : List ℕ) : Prop := ∀ l₁ n l₂, l = l₁ ++ n :: l₂ → n ≤ leftOf l₁ l₂

/-- The last segment is short, or the one before an underscore at the end. -/
def EndShort (l : List ℕ) : Prop :=
  ∃ l₁ k, l₁ ≠ [] ∧ k ≤ 1 ∧ (l = l₁ ++ [k + 1] ∨ l = l₁ ++ [k, 0])

theorem EndShort.tail_ne (h : EndShort (n :: l)) : l ≠ [] ∧ l ≠ [0] := by
  obtain ⟨_ | ⟨m, l₁⟩, k, hl₁, -, hl⟩ := h
  · exact absurd rfl hl₁
  · rcases hl with hl | hl
    · obtain ⟨-, rfl⟩ := List.cons.inj hl
      refine ⟨by simp, fun hzero => ?_⟩
      obtain ⟨-, hk⟩ := List.append_inj' (hzero.trans (List.nil_append [0]).symm) rfl
      cases hk
    · obtain ⟨-, rfl⟩ := List.cons.inj hl
      refine ⟨by simp, fun hzero => ?_⟩
      have hlen := congrArg List.length hzero
      simp at hlen

theorem EndShort.stuck (hend : EndShort l) (h : ∀ k ∈ l.dropLast, k ≤ 3) : Stuck l := by
  obtain ⟨l₁, k, hl₁, hk, hl⟩ := hend
  rintro a n b rfl
  by_cases hb : b = []
  · subst hb
    rcases hl with hl | hl
    · obtain ⟨rfl, hn⟩ := List.append_inj' hl rfl
      obtain rfl := List.singleton_inj.mp hn
      rw [leftOf, if_neg hl₁, leftBefore, if_pos rfl]
      omega
    · have hl' : a ++ [n] = (l₁ ++ [k]) ++ [0] := hl.trans (by simp)
      obtain ⟨-, hn⟩ := List.append_inj' hl' rfl
      rw [List.singleton_inj.mp hn]
      exact Nat.zero_le _
  by_cases hb0 : b = [0]
  · subst hb0
    rcases hl with hl | hl
    · have hl' : (a ++ [n]) ++ [0] = l₁ ++ [k + 1] := (by simp : _ = a ++ [n, 0]).trans hl
      obtain ⟨-, hn⟩ := List.append_inj' hl' rfl
      cases hn
    · obtain ⟨rfl, hn⟩ := List.append_inj' hl rfl
      obtain rfl : n = k := (List.cons.inj hn).1
      rwa [leftOf, if_neg hl₁, leftBefore, if_neg hb, if_pos rfl]
  · have hle : n ≤ 3 :=
      h n (by simp [List.dropLast_append_of_ne_nil, List.dropLast_cons_of_ne_nil hb])
    rwa [leftOf, leftBefore, if_neg hb, if_neg hb0, if_neg hb, if_neg hb0, ite_self]

theorem least_eq_of_shrinks (h : Relation.ReflTransGen Shrinks l l') (hsettled : Settled l) :
    Settled l' ∧ least l' = least l := by
  induction h with
  | refl => exact ⟨hsettled, rfl⟩
  | tail _ hstep ih => exact ⟨hstep.settled ih.1, (hstep.least_eq ih.1).trans ih.2⟩

theorem least_eq_of_collapses (h : Relation.ReflTransGen Collapses l l') :
    least l' = least l ∧ size l' ≤ size l := by
  induction h with
  | refl => exact ⟨rfl, Nat.le_refl _⟩
  | tail _ hstep ih =>
    exact ⟨hstep.least_eq.trans ih.1, Nat.le_trans (by rw [hstep.size_eq]; omega) ih.2⟩

theorem floor_eq_size (h : ∀ l₁ n l₂, l = l₁ ++ n :: l₂ → n ≤ leftBefore l₂) :
    floor l = size l := by
  induction l with
  | nil => rfl
  | cons n l ih =>
    rw [floor, Nat.min_eq_left (h [] n l rfl)]
    rcases eq_or_ne l [] with rfl | hl
    · simp [size]
    · rw [if_neg hl, size_cons n hl, ih fun l₁ m l₂ heq => h (n :: l₁) m l₂ (by rw [heq]; rfl)]
      omega

theorem Stuck.least_eq_size (h : Stuck (0 :: l)) (hsettled : Settled (0 :: l)) :
    least (0 :: l) = size (0 :: l) := by
  rw [least_of_settled hsettled]
  refine floor_eq_size fun l₁ n l₂ heq => ?_
  cases l₁ with
  | nil =>
    obtain rfl : 0 = n := (List.cons.inj heq).1
    exact Nat.zero_le _
  | cons a l₁ =>
    have hle := h (a :: l₁) n l₂ heq
    rwa [leftOf, if_neg (List.cons_ne_nil a l₁)] at hle

theorem Stuck.least_eq (h : Stuck ((n + 1) :: l)) (hsettled : Settled ((n + 1) :: l))
    (hmore : l ≠ [] ∧ l ≠ [0]) : least ((n + 1) :: l) = n + 1 + 1 + l.getLastD 0 := by
  have hfirst : n + 1 ≤ 3 := by
    have hle := h [] (n + 1) l rfl
    rwa [leftOf, if_pos rfl, if_neg hmore.1, if_neg hmore.2] at hle
  obtain ⟨l', m, rfl⟩ : ∃ l' m, l = l' ++ [m] :=
    ⟨l.dropLast, l.getLast hmore.1, (List.dropLast_append_getLast hmore.1).symm⟩
  have hlast : m ≤ 2 := h ((n + 1) :: l') m [] rfl
  have hzero : 0 ∉ l' := by
    have hinner : 0 ∉ (l' ++ [m]).dropLast := hsettled.resolve_left (fun hstart => by cases hstart)
    rwa [List.dropLast_concat] at hinner
  have hall : (l' ++ [m]).all (· == 0) = false := by
    rw [Bool.eq_false_iff, ne_eq, List.all_eq_true]
    intro hall
    rcases l' with _ | ⟨k, l'⟩
    · have hm : m = 0 := by simpa using hall m List.mem_cons_self
      exact hmore.2 (by rw [hm]; rfl)
    · have hk : k = 0 := by simpa using hall k List.mem_cons_self
      exact hzero (hk ▸ List.mem_cons_self)
  rw [least, hall, if_neg Bool.false_ne_true, getLastD_append_cons, List.getLastD_nil,
    Nat.min_eq_left hfirst, Nat.min_eq_left hlast]

end OfficeAuto.Entity.ModelUtil
