import Mathlib.Data.List.Basic

/-!
# Loops that change the elements of a list

A loop over a list changes each element in its turn. A turn may also end the loop, with or without
an exception; then the elements after it stay as they are. Such a loop treats every element as if it
were alone in the list exactly if no turn that ends it comes before an element that the loop would
change (`run_eq_map_iff`).

The turn of an element may itself be a loop, which adds what it finds for each of some columns to
the element, up to an exception (`addAll`).
-/

namespace InPlace

variable {α β γ ε : Type}

/-- What a turn makes of an element, and whether the loop goes on. -/
inductive Turn (α ε : Type)
  | next (a : α)
  | leave (a : α)
  | threw (a : α) (e : ε)

def Turn.element : Turn α ε → α
  | next a => a
  | leave a => a
  | threw a _ => a

def Turn.ends : Turn α ε → Bool
  | next _ => false
  | leave _ => true
  | threw _ _ => true

def run (turn : α → Turn α ε) : List α → List α × Option ε
  | [] => ([], none)
  | a :: l =>
    match turn a with
    | .next a => (a :: (run turn l).1, (run turn l).2)
    | .leave a => (a :: l, none)
    | .threw a e => (a :: l, some e)

variable {turn : α → Turn α ε} {l : List α} {a : α}

theorem run_singleton (turn : α → Turn α ε) (a : α) : (run turn [a]).1 = [(turn a).element] := by
  rw [run]
  cases turn a <;> rfl

theorem run_cons_of_ends (h : (turn a).ends = true) :
    (run turn (a :: l)).1 = (turn a).element :: l := by
  rw [run]
  cases hturn : turn a with
  | next b =>
    rw [hturn] at h
    cases h
  | leave b => rfl
  | threw b e => rfl

theorem run_cons_of_not_ends (h : (turn a).ends = false) :
    (run turn (a :: l)).1 = (turn a).element :: (run turn l).1 := by
  rw [run]
  cases hturn : turn a with
  | next b => rfl
  | leave b =>
    rw [hturn] at h
    cases h
  | threw b e =>
    rw [hturn] at h
    cases h

theorem map_eq_self_iff {f : α → α} : l.map f = l ↔ ∀ b ∈ l, f b = b := by
  have hmap : l.map f = l.map id ↔ ∀ b ∈ l, f b = id b := List.map_inj_left
  rwa [List.map_id] at hmap

/-- **Every element is treated as if it were alone** exactly if no turn ends the loop before an
element that its own turn would change. -/
theorem run_eq_map_iff :
    (run turn l).1 = l.map (fun a => (turn a).element) ↔
      ∀ before a after, l = before ++ a :: after → (turn a).ends = true →
        ∀ b ∈ after, (turn b).element = b := by
  -- The induction is on the list; the first turn either ends the loop or leaves the rest to it.
  induction l with
  | nil => exact iff_of_true rfl fun before a after h => by simp at h
  | cons a l ih =>
    cases hends : (turn a).ends with
    | true =>
      rw [run_cons_of_ends hends, List.map_cons, List.cons_inj_right]
      constructor
      · intro h before c after hl hc b hb
        have hmem : b ∈ l := by
          cases before with
          | nil =>
            obtain ⟨-, rfl⟩ := List.cons_eq_cons.mp hl
            exact hb
          | cons d before =>
            obtain ⟨-, rfl⟩ := List.cons_eq_cons.mp hl
            simp [hb]
        exact map_eq_self_iff.mp h.symm b hmem
      · intro h
        exact (map_eq_self_iff.mpr fun b hb => h [] a l rfl hends b hb).symm
    | false =>
      rw [run_cons_of_not_ends hends, List.map_cons, List.cons_inj_right, ih]
      constructor
      · intro h before c after hl hc
        cases before with
        | nil =>
          obtain ⟨rfl, -⟩ := List.cons_eq_cons.mp hl
          rw [hends] at hc
          cases hc
        | cons d before =>
          obtain ⟨-, rfl⟩ := List.cons_eq_cons.mp hl
          exact h before c after rfl hc
      · intro h before c after hl
        exact h (a :: before) c after (by rw [hl]; rfl)

/-! ### Columns -/

/-- What is found for the columns is added to an element one after the other. -/
def addAll (find : β → Except ε (Option γ)) (add : α → γ → α) : List β → α → Turn α ε
  | [], a => .next a
  | column :: columns, a =>
    match find column with
    | .error e => .threw a e
    | .ok none => addAll find add columns a
    | .ok (some c) => addAll find add columns (add a c)

def Throws (find : β → Except ε (Option γ)) (columns : List β) : Prop :=
  ∃ column ∈ columns, ∃ e, find column = .error e

def Finds (find : β → Except ε (Option γ)) (columns : List β) : Prop :=
  ∃ before column after, columns = before ++ column :: after ∧ ¬ Throws find before ∧
    ∃ c, find column = .ok (some c)

variable {find : β → Except ε (Option γ)} {add : α → γ → α} {columns : List β}

theorem ends_addAll : (addAll find add columns a).ends = true ↔ Throws find columns := by
  induction columns generalizing a with
  | nil => exact iff_of_false Bool.false_ne_true (by simp [Throws])
  | cons column columns ih =>
    rw [addAll, Throws, List.exists_mem_cons_iff]
    cases hfind : find column with
    | error e => exact iff_of_true rfl (.inl ⟨e, rfl⟩)
    | ok found =>
      have hnot : ¬ ∃ e, (.ok found : Except ε (Option γ)) = .error e := by
        rintro ⟨e, he⟩
        cases he
      rw [or_iff_right hnot]
      cases found with
      | none => exact ih
      | some c => exact ih

theorem size_le_addAll {size : α → ℕ} (hsize : ∀ a c, size a < size (add a c)) :
    size a ≤ size (addAll find add columns a).element := by
  induction columns generalizing a with
  | nil => exact Nat.le_refl _
  | cons column columns ih =>
    rw [addAll]
    cases find column with
    | error e => exact Nat.le_refl _
    | ok found =>
      cases found with
      | none => exact ih
      | some c => exact Nat.le_trans (Nat.le_of_lt (hsize a c)) ih

/-- **The turn changes an element** exactly if it finds something for it. -/
theorem element_addAll_ne_iff {size : α → ℕ} (hsize : ∀ a c, size a < size (add a c)) :
    (addAll find add columns a).element ≠ a ↔ Finds find columns := by
  induction columns generalizing a with
  | nil => exact iff_of_false (not_not_intro rfl) fun ⟨before, _, _, h, _⟩ => by simp at h
  | cons column columns ih =>
    rw [addAll]
    cases hfind : find column with
    | error e =>
      refine iff_of_false (not_not_intro rfl) ?_
      rintro ⟨before, c, after, hsplit, hbefore, found, hc⟩
      cases before with
      | nil =>
        obtain ⟨rfl, -⟩ := List.cons_eq_cons.mp hsplit
        rw [hfind] at hc
        cases hc
      | cons d before =>
        obtain ⟨rfl, -⟩ := List.cons_eq_cons.mp hsplit
        exact hbefore ⟨column, List.mem_cons_self, e, hfind⟩
    | ok found =>
      cases found with
      | none =>
        refine ih.trans ⟨?_, ?_⟩
        · rintro ⟨before, c, after, rfl, hbefore, hc⟩
          refine ⟨column :: before, c, after, rfl, ?_, hc⟩
          rintro ⟨d, hd, e, he⟩
          cases hd with
          | head =>
            rw [hfind] at he
            cases he
          | tail _ hd => exact hbefore ⟨d, hd, e, he⟩
        · rintro ⟨before, c, after, hsplit, hbefore, hc⟩
          cases before with
          | nil =>
            obtain ⟨rfl, -⟩ := List.cons_eq_cons.mp hsplit
            obtain ⟨found, hc⟩ := hc
            rw [hfind] at hc
            cases hc
          | cons d before =>
            obtain ⟨-, rfl⟩ := List.cons_eq_cons.mp hsplit
            refine ⟨before, c, after, rfl, ?_, hc⟩
            rintro ⟨d, hd, he⟩
            exact hbefore ⟨d, List.mem_cons_of_mem _ hd, he⟩
      | some c =>
        have hnone : ¬ Throws find [] := by simp [Throws]
        refine iff_of_true (fun heq => ?_) ⟨[], column, columns, rfl, hnone, c, hfind⟩
        have hle := @size_le_addAll _ _ _ _ (add a c) find add columns size hsize
        dsimp only at heq
        rw [heq] at hle
        exact absurd (hsize a c) (Nat.not_lt_of_le hle)

end InPlace
