import Mathlib.Tactic.NormNum
import OfficeAuto.Entity.Value
import OfficeAuto.Logic.Matching

/-!
# Context values

The trees of Java objects that the context of a service holds: strings, numbers, booleans,
timestamps and `null`, and the lists, sets and maps of these. A list, a set and a map know
their class. The members of a set and the entries of a map stand in the order of iteration,
which is insertion here; nothing depends on it.

Two equalities live on them. `ContextValue.equals` is `Object.equals`: big decimals of
different scales differ, and lists, sets and maps are compared by their members whatever their
classes. `Same` is equality with the numbers compared as numbers, and it is an equivalence.
On values whose decimals have one scale and whose sets have no member twice the two agree
(`Same.equals`, `same_of_equals`).
-/

namespace OfficeAuto

open Decimal

/-! ### Values -/

def IsInteger (n : ℤ) : Prop := -2 ^ 31 ≤ n ∧ n < 2 ^ 31

instance (n : ℤ) : Decidable (IsInteger n) := inferInstanceAs (Decidable (_ ∧ _))

/-- An object without members. -/
inductive Leaf
  | string (s : List Char)
  | integer (n : ℤ) (h : IsInteger n)
  | long (n : ℤ) (h : IsLong n)
  | boolean (b : Bool)
  | bigDecimal (b : BigDecimal)
  | timestamp (t : Timestamp)
  deriving DecidableEq

/-- The classes of lists and sets, subclasses included: `otherList` and `otherSet` are the
classes that extend none of the others. -/
inductive CollectionClass
  | arrayList
  | linkedList
  | stack
  | vector
  | otherList
  | treeSet
  | hashSet
  | otherSet
  deriving DecidableEq

def CollectionClass.isSet : CollectionClass → Bool
  | .treeSet | .hashSet | .otherSet => true
  | _ => false

/-- The classes of maps, subclasses included. -/
inductive MapClass
  | hashMap
  | properties
  | hashtable
  | weakHashMap
  | treeMap
  | otherMap
  deriving DecidableEq

inductive ContextValue
  | null
  | leaf (l : Leaf)
  | collection (c : CollectionClass) (members : List ContextValue)
  | map (c : MapClass) (entries : List (ContextValue × ContextValue))

def decimalValue (b : BigDecimal) : ℚ := b.unscaled / 10 ^ b.scale

/-- What a leaf holds: the number of a big decimal, and anything else as it is. -/
def Leaf.content : Leaf → Leaf ⊕ ℚ
  | .bigDecimal b => .inr (decimalValue b)
  | l => .inl l

def Leaf.Same (a b : Leaf) : Prop := a.content = b.content

def Leaf.Rounded : Leaf → Prop
  | .bigDecimal b => b.scale = 10
  | _ => True

/-- `compareTo` of the natural order; leaves of different classes are not comparable. -/
def Leaf.compareTo : Leaf → Leaf → Option Ordering
  | .string s, .string t => (Value.string s).compareTo (.string t)
  | .integer m _, .integer n _ => some (compare m n)
  | .long m _, .long n _ => some (compare m n)
  | .boolean a, .boolean b => some (compare a b)
  | .bigDecimal a, .bigDecimal b => (Value.bigDecimal a).compareTo (.bigDecimal b)
  | .timestamp t, .timestamp u => (Value.timestamp t).compareTo (.timestamp u)
  | _, _ => none

namespace ContextValue

theorem inductionOn {P : ContextValue → Prop} (null : P null) (leaf : ∀ l, P (leaf l))
    (collection : ∀ c xs, (∀ x ∈ xs, P x) → P (collection c xs))
    (map : ∀ c es, (∀ e ∈ es, P e.1 ∧ P e.2) → P (map c es)) (v : ContextValue) : P v := by
  refine ContextValue.rec (motive_1 := P) (motive_2 := fun xs => ∀ x ∈ xs, P x)
    (motive_3 := fun es => ∀ e ∈ es, P e.1 ∧ P e.2) (motive_4 := fun e => P e.1 ∧ P e.2)
    null leaf (fun c xs => collection c xs) (fun c es => map c es) ?_ ?_ ?_ ?_ ?_ v
  · exact fun x hx => absurd hx List.not_mem_nil
  · intro x xs hx hxs y hy
    obtain rfl | hy := List.mem_cons.mp hy
    · exact hx
    · exact hxs y hy
  · exact fun e he => absurd he List.not_mem_nil
  · intro e es he hes f hf
    obtain rfl | hf := List.mem_cons.mp hf
    · exact he
    · exact hes f hf
  · exact fun k v hk hv => ⟨hk, hv⟩

/-! ### Equality of numbers as numbers -/

mutual

/-- The same value: lists member by member, sets and maps up to their order. -/
def Same : ContextValue → ContextValue → Prop
  | null, w => w = null
  | leaf a, w => ∃ b, w = leaf b ∧ a.Same b
  | collection c xs, w => ∃ d ys zs, w = collection d zs ∧ c.isSet = d.isSet ∧
      SameMembers xs ys ∧ if c.isSet then ys.Perm zs else ys = zs
  | map _ es, w => ∃ d fs gs, w = map d gs ∧ SameEntries es fs ∧ fs.Perm gs

def SameMembers : List ContextValue → List ContextValue → Prop
  | [], ys => ys = []
  | x :: xs, ys => ∃ y ys', ys = y :: ys' ∧ Same x y ∧ SameMembers xs ys'

def SameEntries : List (ContextValue × ContextValue) →
    List (ContextValue × ContextValue) → Prop
  | [], fs => fs = []
  | (k, v) :: es, fs =>
    ∃ k' v' fs', fs = (k', v') :: fs' ∧ (Same k k' ∧ Same v v') ∧ SameEntries es fs'

end

def SameEntry (e f : ContextValue × ContextValue) : Prop := Same e.1 f.1 ∧ Same e.2 f.2

theorem sameMembers_iff {xs ys : List ContextValue} :
    SameMembers xs ys ↔ List.Forall₂ Same xs ys := by
  induction xs generalizing ys with
  | nil => simp [SameMembers]
  | cons x xs ih =>
    rw [SameMembers, List.forall₂_cons_left_iff]
    constructor
    · rintro ⟨y, ys', rfl, hx, hxs⟩
      exact ⟨y, ys', hx, ih.mp hxs, rfl⟩
    · rintro ⟨y, ys', hx, hxs, rfl⟩
      exact ⟨y, ys', rfl, hx, ih.mpr hxs⟩

theorem sameEntries_iff {es fs : List (ContextValue × ContextValue)} :
    SameEntries es fs ↔ List.Forall₂ SameEntry es fs := by
  induction es generalizing fs with
  | nil => simp [SameEntries]
  | cons e es ih =>
    rw [SameEntries, List.forall₂_cons_left_iff]
    constructor
    · rintro ⟨k, v, fs', rfl, he, hes⟩
      exact ⟨(k, v), fs', he, ih.mp hes, rfl⟩
    · rintro ⟨f, fs', he, hes, rfl⟩
      exact ⟨f.1, f.2, fs', rfl, he, ih.mpr hes⟩

theorem same_collection {c : CollectionClass} {xs : List ContextValue} {w : ContextValue} :
    Same (collection c xs) w ↔ ∃ d zs, w = collection d zs ∧ c.isSet = d.isSet ∧
      if c.isSet then Matched Same xs zs else List.Forall₂ Same xs zs := by
  rw [Same]
  constructor
  · rintro ⟨d, ys, zs, rfl, hset, hxs, hzs⟩
    refine ⟨d, zs, rfl, hset, ?_⟩
    split_ifs at hzs ⊢
    · exact ⟨ys, sameMembers_iff.mp hxs, hzs⟩
    · exact hzs ▸ sameMembers_iff.mp hxs
  · rintro ⟨d, zs, rfl, hset, hxs⟩
    split_ifs at hxs with hc
    · obtain ⟨ys, hys, hperm⟩ := hxs
      exact ⟨d, ys, zs, rfl, hset, sameMembers_iff.mpr hys, by rwa [if_pos hc]⟩
    · exact ⟨d, zs, zs, rfl, hset, sameMembers_iff.mpr hxs, by rw [if_neg hc]⟩

theorem same_map {c : MapClass} {es : List (ContextValue × ContextValue)} {w : ContextValue} :
    Same (map c es) w ↔ ∃ d gs, w = map d gs ∧ Matched SameEntry es gs := by
  rw [Same]
  constructor
  · rintro ⟨d, fs, gs, rfl, hfs, hperm⟩
    exact ⟨d, gs, rfl, fs, sameEntries_iff.mp hfs, hperm⟩
  · rintro ⟨d, gs, rfl, fs, hfs, hperm⟩
    exact ⟨d, fs, gs, rfl, sameEntries_iff.mpr hfs, hperm⟩

theorem Same.matched {c d : CollectionClass} {xs zs : List ContextValue}
    (h : Same (collection c xs) (collection d zs)) : Matched Same xs zs := by
  obtain ⟨d', zs', hw, -, hzs⟩ := same_collection.mp h
  obtain ⟨rfl, rfl⟩ := ContextValue.collection.inj hw
  split_ifs at hzs
  · exact hzs
  · exact Matched.of_forall₂ hzs

theorem Same.refl (v : ContextValue) : Same v v := by
  induction v using ContextValue.inductionOn with
  | null => rfl
  | leaf l => exact ⟨l, rfl, rfl⟩
  | collection c xs ih =>
    refine same_collection.mpr ⟨c, xs, rfl, rfl, ?_⟩
    split_ifs
    · exact Matched.refl ih
    · exact List.forall₂_same.mpr ih
  | map c es ih => exact same_map.mpr ⟨c, es, rfl, Matched.refl ih⟩

theorem Same.symm {v w : ContextValue} (h : Same v w) : Same w v := by
  induction v using ContextValue.inductionOn generalizing w with
  | null =>
    obtain rfl : w = .null := h
    exact Same.refl _
  | leaf l =>
    obtain ⟨b, rfl, hb⟩ := h
    exact ⟨l, rfl, Eq.symm hb⟩
  | collection c xs ih =>
    obtain ⟨d, zs, rfl, hset, hzs⟩ := same_collection.mp h
    refine same_collection.mpr ⟨c, xs, rfl, hset.symm, ?_⟩
    rw [← hset]
    split_ifs at hzs ⊢
    · exact hzs.symm fun x hx y => ih x hx
    · exact (hzs.imp_mem (S := fun x y => Same y x) fun x hx y => ih x hx).flip
  | map c es ih =>
    obtain ⟨d, gs, rfl, hgs⟩ := same_map.mp h
    exact same_map.mpr ⟨c, es, rfl, hgs.symm fun e he f hf =>
      ⟨(ih e he).1 hf.1, (ih e he).2 hf.2⟩⟩

theorem Same.trans {u v w : ContextValue} (h : Same u v) (h' : Same v w) : Same u w := by
  induction u using ContextValue.inductionOn generalizing v w with
  | null =>
    obtain rfl : v = .null := h
    exact h'
  | leaf l =>
    obtain ⟨b, rfl, hb⟩ := h
    obtain ⟨b', rfl, hb'⟩ := h'
    exact ⟨b', rfl, Eq.trans hb hb'⟩
  | collection c xs ih =>
    obtain ⟨d, ys, rfl, hset, hys⟩ := same_collection.mp h
    obtain ⟨d', zs, rfl, hset', hzs⟩ := same_collection.mp h'
    refine same_collection.mpr ⟨d', zs, rfl, hset.trans hset', ?_⟩
    rw [← hset] at hzs
    split_ifs at hys hzs ⊢
    · exact hys.trans (S := Same) (fun x hx y z hxy hyz => ih x hx hxy hyz) hzs
    · clear h h' hset hset'
      -- the members are in the order of the collection, and are compared one by one
      induction hys generalizing zs with
      | nil =>
        cases hzs
        exact .nil
      | cons hxy _ ihxs =>
        cases hzs with
        | cons hyz hrest =>
          exact .cons (ih _ List.mem_cons_self hxy hyz)
            (ihxs (fun x hx => ih x (List.mem_cons_of_mem _ hx)) _ hrest)
  | map c es ih =>
    obtain ⟨d, fs, rfl, hfs⟩ := same_map.mp h
    obtain ⟨d', gs, rfl, hgs⟩ := same_map.mp h'
    exact same_map.mpr ⟨d', gs, rfl, hfs.trans (fun e he f g hef hfg =>
      ⟨(ih e he).1 hef.1 hfg.1, (ih e he).2 hef.2 hfg.2⟩) hgs⟩

/-! ### Equality of objects -/

mutual

/-- `equals`: lists member by member, sets and maps by their size and containment. -/
def equals : ContextValue → ContextValue → Bool
  | null, w => match w with
    | null => true
    | _ => false
  | leaf a, w => match w with
    | leaf b => a = b
    | _ => false
  | collection c xs, w => match w with
    | collection d ys =>
      c.isSet == d.isSet && xs.length == ys.length &&
        if c.isSet then ys.all fun y => contains xs y else membersEqual xs ys
    | _ => false
  | map _ es, w => match w with
    | map _ fs => es.length == fs.length && fs.all fun f => containsEntry es f
    | _ => false
termination_by structural v => v

def membersEqual : List ContextValue → List ContextValue → Bool
  | [], ys => ys.isEmpty
  | x :: xs, ys => match ys with
    | [] => false
    | y :: ys => equals x y && membersEqual xs ys
termination_by structural xs => xs

def contains : List ContextValue → ContextValue → Bool
  | [], _ => false
  | x :: xs, y => equals x y || contains xs y
termination_by structural xs => xs

def containsEntry : List (ContextValue × ContextValue) → ContextValue × ContextValue → Bool
  | [], _ => false
  | (k, v) :: es, f => (equals k f.1 && equals v f.2) || containsEntry es f
termination_by structural es => es

end

theorem contains_iff {xs : List ContextValue} {y : ContextValue} :
    contains xs y = true ↔ ∃ x ∈ xs, equals x y = true := by
  induction xs with
  | nil => simp [contains]
  | cons x xs ih => simp [contains, ih]

theorem containsEntry_iff {es : List (ContextValue × ContextValue)}
    {f : ContextValue × ContextValue} :
    containsEntry es f = true ↔ ∃ e ∈ es, equals e.1 f.1 = true ∧ equals e.2 f.2 = true := by
  induction es with
  | nil => simp [containsEntry]
  | cons e es ih =>
    obtain ⟨k, v⟩ := e
    simp only [containsEntry, Bool.or_eq_true, Bool.and_eq_true, ih, List.mem_cons,
      exists_eq_or_imp]

theorem membersEqual_iff {xs ys : List ContextValue} :
    membersEqual xs ys = true ↔ List.Forall₂ (fun x y => equals x y = true) xs ys := by
  induction xs generalizing ys with
  | nil => cases ys <;> simp [membersEqual]
  | cons x xs ih => cases ys <;> simp [membersEqual, ih]

/-! ### Leaves and sizes -/

mutual

def leaves : ContextValue → List Leaf
  | null => []
  | leaf l => [l]
  | collection _ xs => leavesOfMembers xs
  | map _ es => leavesOfEntries es

def leavesOfMembers : List ContextValue → List Leaf
  | [] => []
  | x :: xs => leaves x ++ leavesOfMembers xs

def leavesOfEntries : List (ContextValue × ContextValue) → List Leaf
  | [] => []
  | (k, v) :: es => leaves k ++ leaves v ++ leavesOfEntries es

end

mutual

def size : ContextValue → ℕ
  | null => 1
  | leaf _ => 1
  | collection c xs => (if c.isSet then 2 else 1) + sizeOfMembers xs
  | map _ es => 1 + sizeOfEntries es

def sizeOfMembers : List ContextValue → ℕ
  | [] => 0
  | x :: xs => size x + sizeOfMembers xs

def sizeOfEntries : List (ContextValue × ContextValue) → ℕ
  | [] => 0
  | (k, v) :: es => size k + size v + sizeOfEntries es

end

@[simp] theorem mem_leaves_collection {c : CollectionClass} {xs : List ContextValue} {l : Leaf} :
    l ∈ leaves (collection c xs) ↔ ∃ x ∈ xs, l ∈ leaves x := by
  rw [leaves]
  induction xs with
  | nil => simp [leavesOfMembers]
  | cons x xs ih => simp [leavesOfMembers, ih]

@[simp] theorem mem_leaves_map {c : MapClass} {es : List (ContextValue × ContextValue)} {l : Leaf} :
    l ∈ leaves (map c es) ↔ ∃ e ∈ es, l ∈ leaves e.1 ∨ l ∈ leaves e.2 := by
  rw [leaves]
  induction es with
  | nil => simp [leavesOfEntries]
  | cons e es ih =>
    obtain ⟨k, v⟩ := e
    simp only [leavesOfEntries, List.mem_append, ih, List.mem_cons, exists_eq_or_imp]

theorem sizeOfMembers_eq {xs : List ContextValue} : sizeOfMembers xs = (xs.map size).sum := by
  induction xs with
  | nil => rfl
  | cons x xs ih => rw [sizeOfMembers, ih, List.map_cons, List.sum_cons]

theorem sizeOfEntries_eq {es : List (ContextValue × ContextValue)} :
    sizeOfEntries es = (es.map fun e => size e.1 + size e.2).sum := by
  induction es with
  | nil => rfl
  | cons e es ih =>
    obtain ⟨k, v⟩ := e
    rw [sizeOfEntries, ih, List.map_cons, List.sum_cons]

theorem size_pos (v : ContextValue) : 0 < size v := by
  cases v with
  | null => exact Nat.one_pos
  | leaf l => exact Nat.one_pos
  | collection c xs =>
    rw [size]
    split_ifs <;> omega
  | map c es =>
    rw [size]
    omega

theorem Same.size_eq {v w : ContextValue} (h : Same v w) : size v = size w := by
  induction v using ContextValue.inductionOn generalizing w with
  | null =>
    obtain rfl : w = .null := h
    rfl
  | leaf l =>
    obtain ⟨b, rfl, -⟩ := h
    rfl
  | collection c xs ih =>
    obtain ⟨d, zs, rfl, hset, -⟩ := same_collection.mp h
    rw [size, size, hset, sizeOfMembers_eq, sizeOfMembers_eq,
      h.matched.sum_eq fun x hx y hxy => ih x hx hxy]
  | map c es ih =>
    obtain ⟨d, gs, rfl, hgs⟩ := same_map.mp h
    rw [size, size, sizeOfEntries_eq, sizeOfEntries_eq, hgs.sum_eq fun e he f hef => by
      rw [(ih e he).1 hef.1, (ih e he).2 hef.2]]

theorem Same.exists_leaf {v w : ContextValue} (h : Same v w) {l : Leaf} (hl : l ∈ leaves v) :
    ∃ m ∈ leaves w, l.Same m := by
  induction v using ContextValue.inductionOn generalizing w with
  | null => exact absurd hl List.not_mem_nil
  | leaf a =>
    obtain ⟨b, rfl, hb⟩ := h
    obtain rfl := List.mem_singleton.mp hl
    exact ⟨b, List.mem_singleton.mpr rfl, hb⟩
  | collection c xs ih =>
    obtain ⟨d, zs, rfl, -⟩ := same_collection.mp h
    obtain ⟨x, hx, hlx⟩ := mem_leaves_collection.mp hl
    obtain ⟨z, hz, hxz⟩ := h.matched.exists_left hx
    obtain ⟨m, hm, hlm⟩ := ih x hx hxz hlx
    exact ⟨m, mem_leaves_collection.mpr ⟨z, hz, hm⟩, hlm⟩
  | map c es ih =>
    obtain ⟨d, gs, rfl, hgs⟩ := same_map.mp h
    obtain ⟨e, he, hle⟩ := mem_leaves_map.mp hl
    obtain ⟨g, hg, heg⟩ := hgs.exists_left he
    obtain hlk | hlv := hle
    · obtain ⟨m, hm, hlm⟩ := (ih e he).1 heg.1 hlk
      exact ⟨m, mem_leaves_map.mpr ⟨g, hg, Or.inl hm⟩, hlm⟩
    · obtain ⟨m, hm, hlm⟩ := (ih e he).2 heg.2 hlv
      exact ⟨m, mem_leaves_map.mpr ⟨g, hg, Or.inr hm⟩, hlm⟩

/-! ### When the two equalities agree -/

theorem eq_of_decimalValue {a b : BigDecimal} (hscale : a.scale = b.scale)
    (h : decimalValue a = decimalValue b) : a = b := by
  obtain ⟨u, s⟩ := a
  obtain ⟨u', s'⟩ := b
  obtain rfl : s = s' := hscale
  have hpos : (10 : ℚ) ^ s ≠ 0 := zpow_ne_zero s (by norm_num)
  have hu : (u : ℚ) = u' := by
    have h' : (u : ℚ) / 10 ^ s = u' / 10 ^ s := h
    rwa [div_left_inj' hpos] at h'
  rw [Int.cast_injective hu]

theorem eq_or_decimals {a b : Leaf} (h : a.Same b) :
    a = b ∨ ∃ d e, a = .bigDecimal d ∧ b = .bigDecimal e := by
  cases a with
  | bigDecimal d =>
    cases b with
    | bigDecimal e => exact Or.inr ⟨d, e, rfl, rfl⟩
    | _ => cases h
  | _ =>
    cases b with
    | bigDecimal e => cases h
    | _ => exact Or.inl (Sum.inl.inj h)

theorem eq_of_rounded {a b : Leaf} (ha : a.Rounded) (hb : b.Rounded) (h : a.Same b) : a = b := by
  obtain rfl | ⟨d, e, rfl, rfl⟩ := eq_or_decimals h
  · rfl
  · have hvalue : decimalValue d = decimalValue e := Sum.inr.inj h
    rw [eq_of_decimalValue (Eq.trans ha hb.symm) hvalue]

def Rounded (v : ContextValue) : Prop := ∀ l ∈ leaves v, l.Rounded

/-- No set has a member twice, and no map a key, numbers as numbers. -/
inductive Distinct : ContextValue → Prop
  | null : Distinct null
  | leaf (l : Leaf) : Distinct (leaf l)
  | collection {c : CollectionClass} {xs : List ContextValue} (hxs : ∀ x ∈ xs, Distinct x)
      (h : c.isSet = true → xs.Pairwise fun x y => ¬ Same x y) : Distinct (collection c xs)
  | map {c : MapClass} {es : List (ContextValue × ContextValue)}
      (hkeys : ∀ e ∈ es, Distinct e.1) (hvalues : ∀ e ∈ es, Distinct e.2)
      (h : es.Pairwise fun e f => ¬ Same e.1 f.1) : Distinct (map c es)

theorem Same.equals {v w : ContextValue} (h : Same v w) (hv : Rounded v) (hw : Rounded w) :
    equals v w = true := by
  induction v using ContextValue.inductionOn generalizing w with
  | null =>
    obtain rfl : w = .null := h
    simp [ContextValue.equals]
  | leaf l =>
    obtain ⟨b, rfl, hb⟩ := h
    obtain rfl := eq_of_rounded (hv l (List.mem_singleton.mpr rfl))
      (hw b (List.mem_singleton.mpr rfl)) hb
    simp [ContextValue.equals]
  | collection c xs ih =>
    obtain ⟨d, zs, rfl, hset, hzs⟩ := same_collection.mp h
    have hmember : ∀ x ∈ xs, ∀ z ∈ zs, Same x z → ContextValue.equals x z = true :=
      fun x hx z hz hxz => ih x hx hxz (fun l hl => hv l (mem_leaves_collection.mpr ⟨x, hx, hl⟩))
        fun l hl => hw l (mem_leaves_collection.mpr ⟨z, hz, hl⟩)
    simp only [ContextValue.equals, Bool.and_eq_true, beq_iff_eq]
    refine ⟨⟨hset, h.matched.length_eq⟩, ?_⟩
    split_ifs at hzs ⊢
    · rw [List.all_eq_true]
      intro z hz
      obtain ⟨x, hx, hxz⟩ := hzs.exists_right hz
      exact contains_iff.mpr ⟨x, hx, hmember x hx z hz hxz⟩
    · rw [membersEqual_iff]
      clear h hset ih hv hw
      induction hzs with
      | nil => exact .nil
      | cons hxz _ ihzs =>
        exact .cons (hmember _ List.mem_cons_self _ List.mem_cons_self hxz)
          (ihzs fun x hx z hz =>
            hmember x (List.mem_cons_of_mem _ hx) z (List.mem_cons_of_mem _ hz))
  | map c es ih =>
    obtain ⟨d, gs, rfl, hgs⟩ := same_map.mp h
    simp only [ContextValue.equals, Bool.and_eq_true, beq_iff_eq, List.all_eq_true]
    refine ⟨hgs.length_eq, fun g hg => ?_⟩
    obtain ⟨e, he, hek, hev⟩ := hgs.exists_right hg
    refine containsEntry_iff.mpr ⟨e, he, (ih e he).1 hek ?_ ?_, (ih e he).2 hev ?_ ?_⟩
    · exact fun l hl => hv l (mem_leaves_map.mpr ⟨e, he, Or.inl hl⟩)
    · exact fun l hl => hw l (mem_leaves_map.mpr ⟨g, hg, Or.inl hl⟩)
    · exact fun l hl => hv l (mem_leaves_map.mpr ⟨e, he, Or.inr hl⟩)
    · exact fun l hl => hw l (mem_leaves_map.mpr ⟨g, hg, Or.inr hl⟩)

theorem same_of_equals {v w : ContextValue} (h : equals v w = true) (hw : Distinct w) :
    Same v w := by
  induction v using ContextValue.inductionOn generalizing w with
  | null =>
    cases w with
    | null => rfl
    | _ => simp [equals] at h
  | leaf l =>
    cases w with
    | leaf b =>
      obtain rfl : l = b := by simpa [equals] using h
      exact Same.refl _
    | _ => simp [equals] at h
  | collection c xs ih =>
    cases w with
    | collection d zs =>
      simp only [equals, Bool.and_eq_true, beq_iff_eq] at h
      obtain ⟨⟨hset, hlen⟩, h⟩ := h
      obtain ⟨hzs, hdistinct⟩ : (∀ z ∈ zs, Distinct z) ∧
          (d.isSet = true → zs.Pairwise fun x y => ¬ Same x y) := by
        cases hw with
        | collection hzs hdistinct => exact ⟨hzs, hdistinct⟩
      refine same_collection.mpr ⟨d, zs, rfl, hset, ?_⟩
      split_ifs at h ⊢ with hc
      · refine Matched.of_forall_exists hlen (fun z hz => ?_) ?_
        · obtain ⟨x, hx, hxz⟩ := contains_iff.mp (List.all_eq_true.mp h z hz)
          exact ⟨x, hx, ih x hx hxz (hzs z hz)⟩
        · exact (hdistinct (hset ▸ hc)).imp fun hnot x hxz hxz' => hnot (hxz.symm.trans hxz')
      · rw [membersEqual_iff] at h
        clear hw hdistinct hset hlen
        induction h with
        | nil => exact .nil
        | cons hxz _ ihzs =>
          exact .cons (ih _ List.mem_cons_self hxz (hzs _ List.mem_cons_self))
            (ihzs (fun x hx => ih x (List.mem_cons_of_mem _ hx))
              fun z hz => hzs z (List.mem_cons_of_mem _ hz))
    | _ => simp [equals] at h
  | map c es ih =>
    cases w with
    | map d gs =>
      simp only [equals, Bool.and_eq_true, beq_iff_eq, List.all_eq_true] at h
      obtain ⟨hgs, hdistinct⟩ : (∀ g ∈ gs, Distinct g.1 ∧ Distinct g.2) ∧
          gs.Pairwise fun e f => ¬ Same e.1 f.1 := by
        cases hw with
        | map hkeys hvalues hdistinct =>
          exact ⟨fun g hg => ⟨hkeys g hg, hvalues g hg⟩, hdistinct⟩
      refine same_map.mpr ⟨d, gs, rfl, Matched.of_forall_exists h.1 (fun g hg => ?_) ?_⟩
      · obtain ⟨e, he, hek, hev⟩ := containsEntry_iff.mp (h.2 g hg)
        exact ⟨e, he, (ih e he).1 hek (hgs g hg).1, (ih e he).2 hev (hgs g hg).2⟩
      · exact hdistinct.imp fun hnot e heg heg' => hnot (heg.1.symm.trans heg'.1)
    | _ => simp [equals] at h

/-! ### The natural order -/

/-- `compareTo` of two objects; `none` is the exception for objects that have no natural order
or are of different classes. -/
def naturalCompare : ContextValue → ContextValue → Option Ordering
  | leaf a, leaf b => a.compareTo b
  | _, _ => none

theorem compareTo_isSome_congr {a a' b b' : Leaf} (h : a.Same a') (h' : b.Same b') :
    (a.compareTo b).isSome = (a'.compareTo b').isSome := by
  obtain rfl | ⟨d, e, rfl, rfl⟩ := eq_or_decimals h
  · obtain rfl | ⟨d', e', rfl, rfl⟩ := eq_or_decimals h'
    · rfl
    · cases a <;> rfl
  · obtain rfl | ⟨d', e', rfl, rfl⟩ := eq_or_decimals h'
    · cases b <;> rfl
    · rfl

theorem naturalCompare_isSome_congr {x x' y y' : ContextValue} (h : Same x x') (h' : Same y y') :
    (naturalCompare x y).isSome = (naturalCompare x' y').isSome := by
  cases x with
  | leaf a =>
    obtain ⟨a', rfl, ha⟩ := h
    cases y with
    | leaf b =>
      obtain ⟨b', rfl, hb⟩ := h'
      exact compareTo_isSome_congr ha hb
    | null =>
      obtain rfl : y' = .null := h'
      rfl
    | collection c ys =>
      obtain ⟨d, zs, rfl, -⟩ := same_collection.mp h'
      rfl
    | map c es =>
      obtain ⟨d, gs, rfl, -⟩ := same_map.mp h'
      rfl
  | null =>
    obtain rfl : x' = .null := h
    rfl
  | collection c xs =>
    obtain ⟨d, zs, rfl, -⟩ := same_collection.mp h
    rfl
  | map c es =>
    obtain ⟨d, gs, rfl, -⟩ := same_map.mp h
    rfl

theorem compareTo_eq_iff {a b : Leaf} (ha : a.Rounded) (hb : b.Rounded)
    (h : (a.compareTo b).isSome = true) : a.compareTo b = some .eq ↔ a = b := by
  constructor
  · intro heq
    cases a <;> cases b <;> first | (cases h; done) | skip
    case string.string s t =>
      exact congrArg _ (Value.string.inj (Value.eq_of_compareTo (by simp) heq))
    case integer.integer m hm n hn =>
      obtain rfl := Std.LawfulEqCmp.eq_of_compare (Option.some.inj heq)
      rfl
    case long.long m hm n hn =>
      obtain rfl := Std.LawfulEqCmp.eq_of_compare (Option.some.inj heq)
      rfl
    case boolean.boolean a b => cases a <;> cases b <;> first | rfl | cases heq
    case bigDecimal.bigDecimal d e =>
      have hd : d.scale = 10 := ha
      have he : e.scale = 10 := hb
      have hcompare : compareDecimal d e = .eq := Option.some.inj heq
      rw [compareDecimal, hd, he] at hcompare
      have hunscaled := Std.LawfulEqCmp.eq_of_compare hcompare
      obtain ⟨u, s⟩ := d
      obtain ⟨u', s'⟩ := e
      simp only [sub_self, Int.toNat_zero, pow_zero, mul_one] at hunscaled hd he
      rw [hunscaled, hd, he]
    case timestamp.timestamp t u =>
      exact congrArg _ (Value.timestamp.inj (Value.eq_of_compareTo (by simp) heq))
  · rintro rfl
    cases a with
    | integer n hn => exact congrArg some Std.ReflCmp.compare_self
    | long n hn => exact congrArg some Std.ReflCmp.compare_self
    | boolean b => cases b <;> rfl
    | string s => exact Value.compareTo_self (.string s)
    | bigDecimal d => exact Value.compareTo_self (.bigDecimal d)
    | timestamp t => exact Value.compareTo_self (.timestamp t)

theorem naturalCompare_eq_iff {x y : ContextValue} (hx : Rounded x) (hy : Rounded y)
    (h : (naturalCompare x y).isSome = true) : naturalCompare x y = some .eq ↔ Same x y := by
  cases x with
  | leaf a =>
    cases y with
    | leaf b =>
      have ha : a.Rounded := hx a (List.mem_singleton.mpr rfl)
      have hb : b.Rounded := hy b (List.mem_singleton.mpr rfl)
      refine (compareTo_eq_iff ha hb h).trans ⟨fun hab => hab ▸ Same.refl _, fun hsame => ?_⟩
      obtain ⟨b', hb', hab⟩ := hsame
      obtain rfl := ContextValue.leaf.inj hb'
      exact eq_of_rounded ha hb hab
    | _ => cases h
  | _ => cases h

end ContextValue

end OfficeAuto
