import Mathlib.Algebra.Order.Ring.Int
import OfficeAuto.Logic.Comparator

/-!
# Comparing maps by keys

`MapComparator.compare` compares two maps by a list of keys, each of which may ask for the
descending order with a sign. Missing values come last, or first where the key is descending.
`compareTo` belongs to the classes of the values: values of different classes make it throw, which
the comparator passes on. What is assumed of the classes is that `compareTo` is a total order of the
values that can be compared (`Comparables`).

Where the values under a key can be compared with one another, **the comparator is the lexicographic
order by the keys**, a total preorder, and sorting returns the maps in this order
(`compare_correct`). The result for a descending key is negated in 32 bits; the least integer is not
among the results there.
-/

namespace OfficeAuto.Base.MapComparator

open Comparator

/-! ### Values, maps and keys -/

/-- The classes of the values. What `compareTo` returns for values that can be compared is their
order; for others it may throw. -/
structure Comparables (V : Type) where
  compareTo : V → V → Except String ℤ
  comparable : V → V → Prop
  order : V → V → Ordering
  transCmp_order : Std.TransCmp order
  compareTo_eq : ∀ v w, comparable v w →
    ∃ n, compareTo v w = .ok n ∧ (-2 ^ 31 ≤ n ∧ n < 2 ^ 31) ∧ compare n 0 = order v w

abbrev RowMap (O V : Type) := List Char ⊕ O → Option V

/-- A key to sort on. -/
inductive SortKey (O V : Type)
  | accessor (isAscending : Bool) (get : RowMap O V → Option V)
  | string (keyStr : List Char)
  | object (key : O)

variable {O V : Type}

/-- Whether the order is ascending, and the value of a map. An empty string has no first
character. -/
def SortKey.resolve : SortKey O V → Except String (Bool × (RowMap O V → Option V))
  | accessor isAscending get => .ok (isAscending, get)
  | string [] => .error "java.lang.StringIndexOutOfBoundsException"
  | string (c :: keyStr) =>
    if c = '-' then .ok (false, fun map => map (.inl keyStr))
    else if c = '+' then .ok (true, fun map => map (.inl keyStr))
    else .ok (true, fun map => map (.inl (c :: keyStr)))
  | object key => .ok (true, fun map => map (.inr key))

/-! ### The comparator -/

section Comparator

variable (C : Comparables V)

def compareValues : Option V → Option V → Except String ℤ
  | none, none => .ok 0
  | some _, none => .ok (-1)
  | none, some _ => .ok 1
  | some o1, some o2 =>
    match C.compareTo o1 o2 with
    | .ok n => .ok n
    | .error e => .error ("Error sorting list of Maps: " ++ e)

def compareLoop (map1 map2 : RowMap O V) : List (SortKey O V) → Except String ℤ
  | [] => .ok 0
  | key :: keys => do
    let (ascending, get) ← key.resolve
    let compareResult ← compareValues C (get map1) (get map2)
    if compareResult ≠ 0 then
      pure (if ascending then compareResult else (-compareResult).bmod (2 ^ 32))
    else compareLoop map1 map2 keys

/-- **`compare`** -/
def compare (keys : Option (List (SortKey O V))) (map1 map2 : RowMap O V) : Except String ℤ :=
  match keys with
  | none => .error "No sort fields defined"
  | some [] => .error "No sort fields defined"
  | some (key :: keys) => compareLoop C map1 map2 (key :: keys)

/-- The sign of what the comparator returns, which is all that a sort reads of it. -/
def compareSign (keys : Option (List (SortKey O V))) (map1 map2 : RowMap O V) :
    Except String Ordering := (compare C keys map1 map2).map fun n => Ord.compare n 0

/-! ### The order that is meant -/

/-- The order by one key: missing values last, and all of it the other way round if the key is
descending. -/
def keyOrder (key : SortKey O V) (map1 map2 : RowMap O V) : Ordering :=
  match key.resolve with
  | .ok (ascending, get) => directed (!ascending) (nullsLast C.order) (get map1) (get map2)
  | .error _ => .eq

def keysOrder (keys : List (SortKey O V)) : RowMap O V → RowMap O V → Ordering :=
  lexicographic (keys.map (keyOrder C))

/-- The key is no empty string, and the values under it can be compared. Under a descending key the
least integer is not a result. -/
structure IsComparable (key : SortKey O V) (maps : List (RowMap O V)) : Prop where
  resolves : ∃ ascending get, key.resolve = .ok (ascending, get)
  comparable : ∀ ascending get, key.resolve = .ok (ascending, get) →
    ∀ map1 ∈ maps, ∀ map2 ∈ maps, ∀ o1 o2, get map1 = some o1 → get map2 = some o2 →
      C.comparable o1 o2 ∧ (ascending = false → C.compareTo o1 o2 ≠ .ok (-2 ^ 31))

variable {C} {maps : List (RowMap O V)} {map1 map2 : RowMap O V}

theorem transCmp_keyOrder (key : SortKey O V) : Std.TransCmp (keyOrder C key) := by
  cases hkey : key.resolve with
  | error e =>
    have heq : keyOrder C key = fun _ _ => .eq := by
      funext map1 map2
      rw [keyOrder, hkey]
    rw [heq]
    exact { eq_swap := rfl, isLE_trans := fun _ _ => rfl }
  | ok resolved =>
    have heq : keyOrder C key = fun map1 map2 =>
        directed (!resolved.1) (nullsLast C.order) (resolved.2 map1) (resolved.2 map2) := by
      funext map1 map2
      rw [keyOrder, hkey]
    rw [heq]
    exact transCmp_on (transCmp_directed (transCmp_nullsLast C.transCmp_order) _) _

theorem transCmp_keysOrder (keys : List (SortKey O V)) : Std.TransCmp (keysOrder C keys) :=
  transCmp_lexicographic fun cmp hcmp => by
    obtain ⟨key, -, rfl⟩ := List.mem_map.mp hcmp
    exact transCmp_keyOrder key

theorem exists_compareValues {v w : Option V}
    (h : ∀ o1 o2, v = some o1 → w = some o2 → C.comparable o1 o2) :
    ∃ n, compareValues C v w = .ok n ∧ (-2 ^ 31 ≤ n ∧ n < 2 ^ 31) ∧
      Ord.compare n 0 = nullsLast C.order v w := by
  cases v with
  | none =>
    cases w with
    | none => exact ⟨0, rfl, by decide, rfl⟩
    | some o2 => exact ⟨1, rfl, by decide, rfl⟩
  | some o1 =>
    cases w with
    | none => exact ⟨-1, rfl, by decide, rfl⟩
    | some o2 =>
      obtain ⟨n, hn, hrange, horder⟩ := C.compareTo_eq o1 o2 (h o1 o2 rfl rfl)
      exact ⟨n, by rw [compareValues, hn], hrange, horder⟩

theorem compare_neg (n : ℤ) : Ord.compare (-n) 0 = (Ord.compare n 0).swap := by
  rcases lt_trichotomy n 0 with h | rfl | h
  · rw [compare_lt_iff_lt.mpr h, compare_gt_iff_gt.mpr (Int.neg_pos.mpr h)]
    rfl
  · rfl
  · rw [compare_gt_iff_gt.mpr h, compare_lt_iff_lt.mpr (Int.neg_neg_iff_pos.mpr h)]
    rfl

theorem ne_least_of_compareValues {v w : Option V} {n : ℤ} (hn : compareValues C v w = .ok n)
    (h : ∀ o1 o2, v = some o1 → w = some o2 → C.compareTo o1 o2 ≠ .ok (-2 ^ 31)) :
    n ≠ -2 ^ 31 := by
  rintro rfl
  cases v with
  | none =>
    cases w with
    | none => exact absurd (Except.ok.inj hn) (by decide)
    | some o2 => exact absurd (Except.ok.inj hn) (by decide)
  | some o1 =>
    cases w with
    | none => exact absurd (Except.ok.inj hn) (by decide)
    | some o2 =>
      cases hcompareTo : C.compareTo o1 o2 with
      | error e =>
        rw [compareValues, hcompareTo] at hn
        cases hn
      | ok m =>
        rw [compareValues, hcompareTo] at hn
        exact h o1 o2 rfl rfl (hn ▸ hcompareTo)

theorem keyOrder_eq_iff {key : SortKey O V} {ascending : Bool} {get : RowMap O V → Option V} {n : ℤ}
    (hresolve : key.resolve = .ok (ascending, get))
    (horder : Ord.compare n 0 = nullsLast C.order (get map1) (get map2)) :
    keyOrder C key map1 map2 = .eq ↔ n = 0 := by
  have hcmp := transCmp_nullsLast C.transCmp_order
  have hdirected : keyOrder C key map1 map2 = .eq ↔
      nullsLast C.order (get map1) (get map2) = .eq := by
    rw [keyOrder, hresolve]
    cases ascending with
    | true => exact Iff.rfl
    | false => exact @Std.OrientedCmp.eq_comm _ (nullsLast C.order) _ _ _
  rw [hdirected, ← horder]
  exact compare_eq_iff_eq

theorem compare_directed {key : SortKey O V} {ascending : Bool} {get : RowMap O V → Option V}
    {n : ℤ} (hresolve : key.resolve = .ok (ascending, get))
    (horder : Ord.compare n 0 = nullsLast C.order (get map1) (get map2))
    (hrange : -2 ^ 31 ≤ n ∧ n < 2 ^ 31) (hleast : ascending = false → n ≠ -2 ^ 31) :
    Ord.compare (if ascending then n else (-n).bmod (2 ^ 32)) 0 = keyOrder C key map1 map2 := by
  cases ascending with
  | true =>
    rw [if_pos rfl, keyOrder, hresolve]
    exact horder
  | false =>
    have hne : n ≠ -2 ^ 31 := hleast rfl
    have hbmod : (-n).bmod (2 ^ 32) = -n := by
      apply Int.bmod_eq_of_le
      · omega
      · omega
    have hswap := @Std.OrientedCmp.eq_swap _ _
      (@Std.TransCmp.toOrientedCmp _ _ (transCmp_nullsLast C.transCmp_order)) (get map2) (get map1)
    rw [if_neg Bool.false_ne_true, hbmod, keyOrder, hresolve, compare_neg, horder]
    exact hswap.symm

/-- **The loop returns the lexicographic order.** -/
theorem exists_compareLoop {keys : List (SortKey O V)}
    (hkeys : ∀ key ∈ keys, IsComparable C key maps) (h1 : map1 ∈ maps) (h2 : map2 ∈ maps) :
    ∃ n, compareLoop C map1 map2 keys = .ok n ∧ Ord.compare n 0 = keysOrder C keys map1 map2 := by
  induction keys with
  | nil => exact ⟨0, rfl, rfl⟩
  | cons key keys ih =>
    rw [List.forall_mem_cons] at hkeys
    obtain ⟨m, hm, hmorder⟩ := ih hkeys.2
    obtain ⟨ascending, get, hresolve⟩ := hkeys.1.resolves
    have hcomparable := hkeys.1.comparable ascending get hresolve map1 h1 map2 h2
    obtain ⟨n, hn, hrange, hnorder⟩ := exists_compareValues (C := C) (v := get map1) (w := get map2)
      fun o1 o2 ho1 ho2 => (hcomparable o1 o2 ho1 ho2).1
    have hleast : ascending = false → n ≠ -2 ^ 31 := by
      intro hascending
      exact ne_least_of_compareValues hn fun o1 o2 ho1 ho2 =>
        (hcomparable o1 o2 ho1 ho2).2 hascending
    have hkeyOrder := compare_directed hresolve hnorder hrange hleast
    have hloop : compareLoop C map1 map2 (key :: keys) =
        if n ≠ 0 then .ok (if ascending then n else (-n).bmod (2 ^ 32)) else .ok m := by
      rw [compareLoop, hresolve, ← hm]
      change (compareValues C (get map1) (get map2) >>= _) = _
      rw [hn]
      rfl
    have hlexicographic : keysOrder C (key :: keys) map1 map2 =
        (keyOrder C key map1 map2).then (keysOrder C keys map1 map2) := rfl
    by_cases hzero : n = 0
    · -- the key ties, and the next ones decide
      have heq : keyOrder C key map1 map2 = .eq := by
        rw [← hkeyOrder, hzero]
        cases ascending with
        | true => rfl
        | false => rfl
      refine ⟨m, by rw [hloop, if_neg (not_not.mpr hzero)], ?_⟩
      rw [hlexicographic, heq, hmorder]
      rfl
    · refine ⟨_, by rw [hloop, if_pos hzero], ?_⟩
      have hne : keyOrder C key map1 map2 ≠ .eq := by
        intro heq
        rw [keyOrder_eq_iff hresolve hnorder] at heq
        exact hzero heq
      rw [hkeyOrder, hlexicographic, then_of_ne_eq hne]

/-- **The comparator compares lexicographically, and sorting with it sorts**, where the values under
a key can be compared with one another. -/
theorem compare_correct (C : Comparables V) (keys : List (SortKey O V)) (maps : List (RowMap O V))
    (hne : keys ≠ []) (hkeys : ∀ key ∈ keys, IsComparable C key maps) :
    (∀ map1 ∈ maps, ∀ map2 ∈ maps, ∃ n, compare C (some keys) map1 map2 = .ok n ∧
      Ord.compare n 0 = keysOrder C keys map1 map2) ∧
    IsTotalPreorder (compareSign C (some keys)) maps ∧
    ∃ sorted, sortM (compareSign C (some keys)) maps = .ok sorted ∧ sorted.Perm maps ∧
      sorted.Pairwise fun map1 map2 => (keysOrder C keys map1 map2).isLE = true := by
  have hcompare : ∀ map1 ∈ maps, ∀ map2 ∈ maps, ∃ n, compare C (some keys) map1 map2 = .ok n ∧
      Ord.compare n 0 = keysOrder C keys map1 map2 := by
    intro map1 h1 map2 h2
    obtain ⟨key, keys, rfl⟩ := List.exists_cons_of_ne_nil hne
    exact exists_compareLoop hkeys h1 h2
  have hsign : ∀ map1 ∈ maps, ∀ map2 ∈ maps,
      compareSign C (some keys) map1 map2 = .ok (keysOrder C keys map1 map2) := by
    intro map1 h1 map2 h2
    obtain ⟨n, hn, horder⟩ := hcompare map1 h1 map2 h2
    rw [compareSign, hn, ← horder]
    rfl
  have htotal := isTotalPreorder_of_eq (transCmp_keysOrder keys) hsign
  obtain ⟨sorted, hsort, hperm, hsorted⟩ := exists_sortM htotal
  refine ⟨hcompare, htotal, sorted, hsort, hperm, hsorted.imp_of_mem ?_⟩
  intro map1 map2 h1 h2 hle
  obtain ⟨o, ho, hle⟩ := hle
  rw [hsign map1 (hperm.mem_iff.mp h1) map2 (hperm.mem_iff.mp h2), Except.ok.injEq] at ho
  rwa [ho]

end Comparator

/-! ### Integers and booleans -/

def compareIntegerOrBoolean : ℤ ⊕ Bool → ℤ ⊕ Bool → Except String ℤ
  | .inl i, .inl j => .ok (if i < j then -1 else if i = j then 0 else 1)
  | .inr b, .inr c => .ok (if b = c then 0 else if b then 1 else -1)
  | _, _ => .error "java.lang.ClassCastException"

def rank : ℤ ⊕ Bool → ℤ
  | .inl i => i
  | .inr b => if b then 1 else 0

theorem compareIntegerOrBoolean_eq {v w : ℤ ⊕ Bool} (h : v.isLeft = w.isLeft) :
    ∃ n, compareIntegerOrBoolean v w = .ok n ∧ (-1 ≤ n ∧ n ≤ 1) ∧
      Ord.compare n 0 = Ord.compare (rank v) (rank w) := by
  cases v with
  | inl i =>
    cases w with
    | inr c => exact Bool.noConfusion h
    | inl j =>
      refine ⟨_, rfl, ?_, ?_⟩
      · split_ifs
        · decide
        · decide
        · decide
      · rcases lt_trichotomy i j with hlt | rfl | hgt
        · rw [if_pos hlt, rank, rank, compare_lt_iff_lt.mpr hlt]
          rfl
        · rw [if_neg (lt_irrefl i), if_pos rfl, compare_eq_iff_eq.mpr rfl]
          exact (compare_eq_iff_eq.mpr rfl).symm
        · rw [if_neg (lt_asymm hgt), if_neg (ne_of_gt hgt), rank, rank, compare_gt_iff_gt.mpr hgt]
          rfl
  | inr b =>
    cases w with
    | inl j => exact Bool.noConfusion h
    | inr c =>
      refine ⟨_, rfl, ?_, ?_⟩
      · revert b c
        decide
      · revert b c
        decide

/-- The classes `Integer` and `Boolean`, whose values cannot be compared with those of the other
one. -/
def integersAndBooleans : Comparables (ℤ ⊕ Bool) where
  compareTo := compareIntegerOrBoolean
  comparable v w := v.isLeft = w.isLeft
  order v w := Ord.compare (rank v) (rank w)
  transCmp_order := transCmp_on (inferInstanceAs (Std.TransCmp fun i j : ℤ => Ord.compare i j)) rank
  compareTo_eq v w h := by
    obtain ⟨n, hn, hrange, horder⟩ := compareIntegerOrBoolean_eq h
    exact ⟨n, hn, by omega, horder⟩

theorem isComparable_of_isLeft {maps : List (RowMap O (ℤ ⊕ Bool))} {key : SortKey O (ℤ ⊕ Bool)}
    {ascending : Bool} {get : RowMap O (ℤ ⊕ Bool) → Option (ℤ ⊕ Bool)} (isInteger : Bool)
    (hresolve : key.resolve = .ok (ascending, get))
    (h : ∀ map ∈ maps, ∀ v, get map = some v → v.isLeft = isInteger) :
    IsComparable integersAndBooleans key maps where
  resolves := ⟨ascending, get, hresolve⟩
  comparable ascending' get' hresolve' map1 h1 map2 h2 o1 o2 ho1 ho2 := by
    rw [hresolve, Except.ok.injEq, Prod.mk.injEq] at hresolve'
    obtain ⟨-, rfl⟩ := hresolve'
    have hleft : o1.isLeft = o2.isLeft := (h map1 h1 o1 ho1).trans (h map2 h2 o2 ho2).symm
    refine ⟨hleft, fun _ hleast => ?_⟩
    obtain ⟨n, hn, hrange, -⟩ := compareIntegerOrBoolean_eq hleft
    have hn' : n = -2 ^ 31 := Except.ok.inj (hn.symm.trans hleast)
    omega

def quantityRow (quantity : Option ℤ) (isFixed : Option Bool) : RowMap Unit (ℤ ⊕ Bool)
  | .inl name =>
    if name = "quantity".toList then quantity.map .inl
    else if name = "fixed".toList then isFixed.map .inr
    else none
  | .inr _ => none

theorem isLeft_quantityRow {rows : List (Option ℤ × Option Bool)} {map : RowMap Unit (ℤ ⊕ Bool)}
    (hmap : map ∈ rows.map fun row => quantityRow row.1 row.2) :
    (∀ v, map (.inl "quantity".toList) = some v → v.isLeft = true) ∧
      ∀ v, map (.inl "fixed".toList) = some v → v.isLeft = false := by
  obtain ⟨row, -, rfl⟩ := List.mem_map.mp hmap
  constructor
  · intro v hv
    rw [quantityRow, if_pos rfl] at hv
    obtain ⟨i, -, rfl⟩ := Option.map_eq_some_iff.mp hv
    rfl
  · intro v hv
    rw [quantityRow, if_neg (by decide), if_pos rfl] at hv
    obtain ⟨b, -, rfl⟩ := Option.map_eq_some_iff.mp hv
    rfl

theorem compare_correct_quantityRows :
    let keys : List (SortKey Unit (ℤ ⊕ Bool)) :=
      [.string "-quantity".toList, .string "fixed".toList]
    let rows : List (Option ℤ × Option Bool) :=
      [(some 2, some true), (none, some false), (some 3, none)]
    let maps := rows.map fun row => quantityRow row.1 row.2
    (∀ map1 ∈ maps, ∀ map2 ∈ maps, ∃ n,
      compare integersAndBooleans (some keys) map1 map2 = .ok n ∧
      Ord.compare n 0 = keysOrder integersAndBooleans keys map1 map2) ∧
    IsTotalPreorder (compareSign integersAndBooleans (some keys)) maps ∧
    ∃ sorted, sortM (compareSign integersAndBooleans (some keys)) maps = .ok sorted ∧
      sorted.Perm maps ∧ sorted.Pairwise fun map1 map2 =>
        (keysOrder integersAndBooleans keys map1 map2).isLE = true := by
  refine compare_correct integersAndBooleans _ _ (List.cons_ne_nil _ _) ?_
  refine List.forall_mem_cons.mpr ⟨?_, List.forall_mem_cons.mpr ⟨?_, List.forall_mem_nil _⟩⟩
  · have hresolve : (SortKey.string "-quantity".toList).resolve =
        .ok (false, fun map : RowMap Unit (ℤ ⊕ Bool) => map (.inl "quantity".toList)) := rfl
    exact isComparable_of_isLeft true hresolve fun map hmap => (isLeft_quantityRow hmap).1
  · have hresolve : (SortKey.string "fixed".toList).resolve =
        .ok (true, fun map : RowMap Unit (ℤ ⊕ Bool) => map (.inl "fixed".toList)) := rfl
    exact isComparable_of_isLeft false hresolve fun map hmap => (isLeft_quantityRow hmap).2

theorem not_isTotalPreorder_mixed :
    let keys : List (SortKey Unit (ℤ ⊕ Bool)) := [.string "value".toList]
    let map1 : RowMap Unit (ℤ ⊕ Bool) := fun _ => some (.inl 1)
    let map2 : RowMap Unit (ℤ ⊕ Bool) := fun _ => some (.inr true)
    compare integersAndBooleans (some keys) map1 map2 =
      .error "Error sorting list of Maps: java.lang.ClassCastException" ∧
    ¬IsTotalPreorder (compareSign integersAndBooleans (some keys)) [map1, map2] := by
  intro keys map1 map2
  refine ⟨rfl, fun htotal => ?_⟩
  obtain ⟨o, ho, -⟩ := htotal.total map1 List.mem_cons_self map2
    (List.mem_cons_of_mem map1 List.mem_cons_self)
  cases ho

end OfficeAuto.Base.MapComparator
