import Mathlib.Order.Interval.Set.Basic

/-!
# Comparable ranges

A `ComparableRange` keeps two ends in order, whichever is given first. Its relations to another
range are the ones of closed intervals: `before` and `after` lie apart, `overlaps` has a common
point, `includes` is the inclusion (`before_iff`, `overlaps_iff`, `includesRange_iff`), and one of
the first three holds, and no other.

Two ranges are objects in a heap, since `hashCode` is the one of the object and not of its ends.
`Agree` says what the relations and the three methods `equals`, `compareTo` and `hashCode` must
have in common. Two ranges with equal ends that are not one object break it for some assignment
of hash codes to objects, and no others do (`agree_iff`).
-/

namespace OfficeAuto.Base

variable {α : Type} [LinearOrder α]

/-- A range is built by its constructor only, so the ends are in order. -/
structure ComparableRange (α : Type) [LinearOrder α] where
  start : α
  ending : α
  isPoint : Bool
  start_le_ending : start ≤ ending
  isPoint_eq : isPoint = (start == ending)

namespace ComparableRange

def ordered (start ending : α) : ComparableRange α :=
  if h : ending ≥ start then ⟨start, ending, start == ending, h, rfl⟩
  else ⟨ending, start, start == ending, (not_le.mp h).le, BEq.comm⟩

/-- The constructor. Ends of two classes are an `IllegalArgumentException`. -/
def new {κ : Type} [DecidableEq κ] (getClass : α → κ) (start ending : α) :
    Option (ComparableRange α) :=
  if getClass start ≠ getClass ending then none else some (ordered start ending)

def after (this range : ComparableRange α) : Bool := this.start > range.ending

def afterValue (this : ComparableRange α) (value : α) : Bool := this.start > value

def before (this range : ComparableRange α) : Bool := this.ending < range.start

def beforeValue (this : ComparableRange α) (value : α) : Bool := this.ending < value

def includes (this : ComparableRange α) (value : α) : Bool :=
  if this.isPoint then value == this.start
  else value ≥ this.start && value ≤ this.ending

def includesRange (this range : ComparableRange α) : Bool :=
  this.includes range.start && this.includes range.ending

def overlaps (this range : ComparableRange α) : Bool :=
  range.includes this.start || range.includes this.ending || this.includesRange range

/-! ### Ranges as intervals -/

def points (r : ComparableRange α) : Set α := Set.Icc r.start r.ending

variable {r s : ComparableRange α}

/-- **The constructor orders the ends**, whichever is given first. -/
theorem points_ordered (a b : α) : (ordered a b).points = Set.Icc (min a b) (max a b) := by
  unfold ordered
  split_ifs with hle
  · rw [points, min_eq_left hle, max_eq_right hle]
  · rw [points, min_eq_right (not_le.mp hle).le, max_eq_left (not_le.mp hle).le]

theorem start_mem (r : ComparableRange α) : r.start ∈ r.points :=
  Set.left_mem_Icc.mpr r.start_le_ending

theorem ending_mem (r : ComparableRange α) : r.ending ∈ r.points :=
  Set.right_mem_Icc.mpr r.start_le_ending

@[simp]
theorem includes_iff {x : α} : r.includes x = true ↔ x ∈ r.points := by
  unfold includes
  rw [r.isPoint_eq]
  split_ifs with hpoint
  · rw [points, ← eq_of_beq hpoint, Set.Icc_self, Set.mem_singleton_iff, beq_iff_eq]
  · rw [Bool.and_eq_true, decide_eq_true_eq, decide_eq_true_eq]
    exact Iff.rfl

theorem includesRange_iff : r.includesRange s = true ↔ s.points ⊆ r.points := by
  rw [includesRange, Bool.and_eq_true, includes_iff, includes_iff]
  constructor
  · rintro ⟨hstart, hending⟩
    exact Set.Icc_subset_Icc hstart.1 hending.2
  · intro h
    exact ⟨h s.start_mem, h s.ending_mem⟩

theorem before_iff : r.before s = true ↔ r.ending < s.start := decide_eq_true_iff

theorem after_iff : r.after s = true ↔ s.ending < r.start := decide_eq_true_iff

theorem overlaps_iff_le : r.overlaps s = true ↔ r.start ≤ s.ending ∧ s.start ≤ r.ending := by
  have hr := r.start_le_ending
  have hs := s.start_le_ending
  rw [overlaps, Bool.or_eq_true, Bool.or_eq_true, includes_iff, includes_iff, includesRange_iff]
  constructor
  · rintro ((h | h) | h)
    · exact ⟨h.2, h.1.trans hr⟩
    · exact ⟨hr.trans h.2, h.1⟩
    · exact ⟨(h s.start_mem).1.trans hs, (h s.start_mem).2⟩
  · rintro ⟨hle, hle'⟩
    rcases le_total s.start r.start with h | h
    · exact Or.inl (Or.inl ⟨h, hle⟩)
    · rcases le_total r.ending s.ending with h' | h'
      · exact Or.inl (Or.inr ⟨hle', h'⟩)
      · exact Or.inr (Set.Icc_subset_Icc h h')

theorem overlaps_iff : r.overlaps s = true ↔ (r.points ∩ s.points).Nonempty := by
  rw [overlaps_iff_le]
  constructor
  · rintro ⟨hle, hle'⟩
    exact ⟨max r.start s.start, ⟨le_max_left _ _, max_le r.start_le_ending hle'⟩,
      le_max_right _ _, max_le hle s.start_le_ending⟩
  · rintro ⟨x, hr, hs⟩
    exact ⟨hr.1.trans hs.2, hs.1.trans hr.2⟩

theorem overlaps_comm (r s : ComparableRange α) : r.overlaps s = s.overlaps r := by
  rw [Bool.eq_iff_iff, overlaps_iff, overlaps_iff, Set.inter_comm]

/-- **One of the three**, and it is not another one too. -/
theorem before_after_overlaps (r s : ComparableRange α) :
    (r.before s ∧ ¬r.after s ∧ ¬r.overlaps s) ∨ (¬r.before s ∧ r.after s ∧ ¬r.overlaps s) ∨
      (¬r.before s ∧ ¬r.after s ∧ r.overlaps s) := by
  rw [before_iff, after_iff, overlaps_iff_le]
  have hr := r.start_le_ending
  have hs := s.start_le_ending
  rcases lt_or_ge r.ending s.start with hbefore | hbefore
  · exact Or.inl ⟨hbefore, ((hr.trans_lt hbefore).le.trans hs).not_gt,
      fun h => h.2.not_gt hbefore⟩
  · rcases lt_or_ge s.ending r.start with hafter | hafter
    · exact Or.inr (Or.inl ⟨hbefore.not_gt, hafter, fun h => h.1.not_gt hafter⟩)
    · exact Or.inr (Or.inr ⟨hbefore.not_gt, hafter.not_gt, hafter, hbefore⟩)

/-! ### Ranges as objects -/

section Objects

variable {ι : Type} [DecidableEq ι] (objects : ι → ComparableRange α)

def equals (this that : ι) : Bool :=
  this = that ||
    ((objects this).start == (objects that).start && (objects this).ending == (objects that).ending)

/-- `hashCode` is the one of `Object`, which the virtual machine assigns. -/
def hashCode (identityHashCode : ι → Int32) (this : ι) : Int32 := identityHashCode this

def compareTo (this range : ι) : Ordering :=
  if this = range then .eq
  else if (objects this).start == (objects range).start then
    compare (objects this).ending (objects range).ending
  else compare (objects this).start (objects range).start

/-- What the relations and the three methods of two ranges must have in common. -/
structure Agree (identityHashCode : ι → Int32) (i j : ι) : Prop where
  one_of_three :
    ((objects i).before (objects j) ∧ ¬(objects i).after (objects j) ∧
        ¬(objects i).overlaps (objects j)) ∨
      (¬(objects i).before (objects j) ∧ (objects i).after (objects j) ∧
        ¬(objects i).overlaps (objects j)) ∨
      (¬(objects i).before (objects j) ∧ ¬(objects i).after (objects j) ∧
        (objects i).overlaps (objects j))
  overlaps_symm : (objects i).overlaps (objects j) = (objects j).overlaps (objects i)
  overlaps_iff : (objects i).overlaps (objects j) ↔
    ∃ x, (objects i).includes x ∧ (objects j).includes x
  includes_iff : (objects i).includesRange (objects j) ↔
    ∀ x, (objects j).includes x → (objects i).includes x
  equals_symm : equals objects i j = equals objects j i
  equals_iff : equals objects i j ↔ compareTo objects i j = .eq
  compareTo_swap : (compareTo objects i j).swap = compareTo objects j i
  hashCode_eq : equals objects i j → hashCode identityHashCode i = hashCode identityHashCode j

variable {objects}

theorem equals_iff_ends {i j : ι} : equals objects i j = true ↔
    i = j ∨ (objects i).start = (objects j).start ∧ (objects i).ending = (objects j).ending := by
  rw [equals, Bool.or_eq_true, decide_eq_true_iff, Bool.and_eq_true, beq_iff_eq, beq_iff_eq]

theorem equals_iff_of_ends {i j : ι} : equals objects i j = true ↔
    (objects i).start = (objects j).start ∧ (objects i).ending = (objects j).ending := by
  rw [equals_iff_ends]
  constructor
  · rintro (rfl | h)
    · exact ⟨rfl, rfl⟩
    · exact h
  · exact Or.inr

theorem compareTo_eq_lex (i j : ι) : compareTo objects i j =
    (compare (objects i).start (objects j).start).then
      (compare (objects i).ending (objects j).ending) := by
  unfold compareTo
  split_ifs with hsame hstart
  · rw [hsame, compare_eq_iff_eq.mpr rfl, compare_eq_iff_eq.mpr rfl]
    rfl
  · rw [compare_eq_iff_eq.mpr (eq_of_beq hstart)]
    rfl
  · have hne : compare (objects i).start (objects j).start ≠ .eq := by
      intro h
      exact hstart (beq_iff_eq.mpr (compare_eq_iff_eq.mp h))
    cases hcmp : compare (objects i).start (objects j).start with
    | lt => rfl
    | gt => rfl
    | eq => exact absurd hcmp hne

theorem equals_iff_compareTo (i j : ι) :
    equals objects i j = true ↔ compareTo objects i j = .eq := by
  rw [equals_iff_of_ends, compareTo_eq_lex, Ordering.then_eq_eq, compare_eq_iff_eq,
    compare_eq_iff_eq]

theorem swap_compareTo (i j : ι) : (compareTo objects i j).swap = compareTo objects j i := by
  rw [compareTo_eq_lex, compareTo_eq_lex, Ordering.swap_then, ← Std.OrientedOrd.eq_swap,
    ← Std.OrientedOrd.eq_swap]

theorem agree_of_hashCode {identityHashCode : ι → Int32} {i j : ι}
    (h : equals objects i j → hashCode identityHashCode i = hashCode identityHashCode j) :
    Agree objects identityHashCode i j where
  one_of_three := before_after_overlaps _ _
  overlaps_symm := overlaps_comm _ _
  overlaps_iff := by
    rw [ComparableRange.overlaps_iff]
    simp only [includes_iff]
    exact Iff.rfl
  includes_iff := by
    rw [includesRange_iff]
    simp only [ComparableRange.includes_iff]
    exact Iff.rfl
  equals_symm := by
    rw [Bool.eq_iff_iff, equals_iff_of_ends, equals_iff_of_ends, eq_comm,
      @eq_comm _ (objects i).ending]
  equals_iff := equals_iff_compareTo i j
  compareTo_swap := swap_compareTo i j
  hashCode_eq := h

/-- **Exactly two objects with equal ends** may disagree. -/
theorem agree_iff (i j : ι) : (∀ identityHashCode, Agree objects identityHashCode i j) ↔
    i = j ∨ (objects i).start ≠ (objects j).start ∨ (objects i).ending ≠ (objects j).ending := by
  constructor
  · intro h
    by_contra hcon
    rw [not_or, not_or, not_ne_iff, not_ne_iff] at hcon
    obtain ⟨hne, hends⟩ := hcon
    -- the virtual machine may tell the two objects apart
    have hhash := (h fun k => if k = i then 0 else 1).hashCode_eq (equals_iff_of_ends.mpr hends)
    rw [hashCode, hashCode, if_pos rfl, if_neg fun h => hne h.symm] at hhash
    exact absurd hhash (by decide)
  · rintro h identityHashCode
    refine agree_of_hashCode fun hequals => ?_
    obtain ⟨hstart, hending⟩ := equals_iff_of_ends.mp hequals
    rcases h with rfl | h | h
    · rfl
    · exact absurd hstart h
    · exact absurd hending h

end Objects

theorem not_agree_twins : ¬Agree (fun _ : ℕ => (⟨1, 2, false, by decide, rfl⟩ : ComparableRange ℤ))
    (fun k => if k = 0 then 0 else 1) 0 1 := by
  intro h
  exact absurd (h.hashCode_eq (equals_iff_of_ends.mpr ⟨rfl, rfl⟩)) (by decide)

end ComparableRange

end OfficeAuto.Base
