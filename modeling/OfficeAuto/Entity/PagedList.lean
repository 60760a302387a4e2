import Mathlib.Algebra.Order.Ring.Int
import OfficeAuto.Entity.EntityListIterator
import OfficeAuto.Odata.Paging

/-!
# Paged lists

`EntityUtil.getPagedList` reads the page of a view index from an iterator. The rows come from
`getPartialList`, and the indexes of the first and last row are computed beside, in `int`. The last
index is cut back to the number of rows, and before that to the rows of the page where these are
fewer than the *view index*.

`pageRight_iff` says exactly for which view indexes and sizes the page is right. The pages within
the rows are, unless the last index of the page overflows and the page has not fewer rows than the
view index. A page after the rows has indexes that do not fit its size, unless it begins right after
them.
-/

namespace OfficeAuto.Entity

variable {α : Type}

structure PagedList (α : Type) where
  startIndex : Int32
  endIndex : Int32
  size : Int32
  viewIndex : Int32
  viewSize : Int32
  data : List α

def getStartIndexFromViewIndex (viewIndex viewSize : Int32) : Int32 :=
  if viewIndex = 0 then 1 else viewIndex * viewSize + 1

def getPagedList (it : EntityListIterator α) (viewIndex viewSize : Int32) : PagedList α :=
  let startIndex := getStartIndexFromViewIndex viewIndex viewSize
  let endIndex := startIndex + viewSize - 1
  let dataItems := it.getPartialList startIndex viewSize
  let endIndex := if Int32.ofNat dataItems.1.length < viewIndex then
    endIndex - viewSize + Int32.ofNat dataItems.1.length else endIndex
  let size := dataItems.2.getResultsSizeAfterPartialList.1
  let endIndex := if size < endIndex then size else endIndex
  ⟨startIndex, endIndex, size, viewIndex, viewSize, dataItems.1⟩

/-- The data are the rows of the page, the indexes are those of its first and last row, and the
size is the number of rows. -/
structure PageRight (it : EntityListIterator α) (viewIndex viewSize : Int32) : Prop where
  data : (getPagedList it viewIndex viewSize).data =
    EntityListIterator.rowsFrom it.resultSet.rows (viewIndex.toInt * viewSize.toInt + 1)
      viewSize.toInt
  startIndex : (getPagedList it viewIndex viewSize).data ≠ [] →
    (getPagedList it viewIndex viewSize).startIndex.toInt =
      viewIndex.toInt * viewSize.toInt + 1
  endIndex : ((getPagedList it viewIndex viewSize).data.length : ℤ) =
    (getPagedList it viewIndex viewSize).endIndex.toInt -
      (getPagedList it viewIndex viewSize).startIndex.toInt + 1
  size : (getPagedList it viewIndex viewSize).size.toInt = it.resultSet.rows.length

def IndexesFit (rows : ℕ) (viewIndex viewSize : ℤ) : Prop :=
  if 0 ≤ viewIndex ∧ viewIndex * viewSize + 1 < 2 ^ 31 then
    -- the page begins within the rows or right after them
    viewIndex * viewSize ≤ rows ∧
      (viewIndex * viewSize + viewSize < 2 ^ 31 ∨
        min viewSize (rows - viewIndex * viewSize) < viewIndex)
  else if viewIndex < 0 then
    (viewIndex * viewSize + 1).bmod (2 ^ 32) = rows + 1 ∧ rows + 1 + viewSize ≤ 2 ^ 31
  else
    (viewIndex * viewSize + 1).bmod (2 ^ 32) = rows + 1 ∨
      ((viewIndex * viewSize + 1).bmod (2 ^ 32) = 0 ∧ rows = 0) ∨
      (-2 ^ 31 < (viewIndex * viewSize + 1).bmod (2 ^ 32) ∧
        (viewIndex * viewSize + 1).bmod (2 ^ 32) < 0 ∧
        rows + (viewIndex * viewSize + 1).bmod (2 ^ 32) < 1)

/-! ### Arithmetic of `int` -/

theorem bmod_spec (n : ℤ) :
    ∃ k, n.bmod (2 ^ 32) = n - 4294967296 * k ∧ -2147483648 ≤ n.bmod (2 ^ 32) ∧
      n.bmod (2 ^ 32) < 2147483648 := by
  have hlow := Int.le_bmod (x := n) (m := 2 ^ 32) (by decide)
  have hhigh := Int.bmod_lt (x := n) (m := 2 ^ 32) (by decide)
  refine ⟨n.bdiv (2 ^ 32), ?_, by omega, by omega⟩
  have hsum := Int.bmod_add_bdiv n (2 ^ 32)
  omega

theorem toInt_getStartIndex (viewIndex viewSize : Int32) :
    (getStartIndexFromViewIndex viewIndex viewSize).toInt =
      (viewIndex.toInt * viewSize.toInt + 1).bmod (2 ^ 32) := by
  have hone : (1 : Int32).toInt = 1 := rfl
  rw [getStartIndexFromViewIndex]
  by_cases hzero : viewIndex = 0
  · rw [if_pos hzero, hzero, Int32.toInt_zero, zero_mul]
    rfl
  · rw [if_neg hzero, Int32.toInt_add, Int32.toInt_mul, hone, Int.bmod_add_bmod]

theorem toInt_pageEnd (startIndex viewIndex viewSize : Int32) {items : ℕ} (h : items < 2 ^ 31) :
    (if Int32.ofNat items < viewIndex then
        startIndex + viewSize - 1 - viewSize + Int32.ofNat items
      else startIndex + viewSize - 1).toInt =
    if (items : ℤ) < viewIndex.toInt then (startIndex.toInt - 1 + items).bmod (2 ^ 32)
    else (startIndex.toInt + viewSize.toInt - 1).bmod (2 ^ 32) := by
  have hone : (1 : Int32).toInt = 1 := rfl
  have hitems : (Int32.ofNat items).toInt = items := Int32.toInt_ofNat_of_lt h
  have hback : startIndex + viewSize - 1 - viewSize = startIndex - 1 := by
    calc startIndex + viewSize - 1 - viewSize
      _ = startIndex + -1 + viewSize - viewSize := by
        rw [Int32.sub_eq_add_neg _ 1, Int32.add_assoc, Int32.add_comm viewSize,
          ← Int32.add_assoc]
      _ = startIndex - 1 := by rw [Int32.add_sub_cancel, Int32.sub_eq_add_neg]
  rw [hback]
  by_cases hfew : (items : ℤ) < viewIndex.toInt
  · rw [if_pos hfew, if_pos (Int32.lt_iff_toInt_lt.mpr (by rw [hitems]; exact hfew)),
      Int32.toInt_add, Int32.toInt_sub, hone, hitems, Int.bmod_add_bmod]
  · rw [if_neg hfew, if_neg fun hlt => hfew (hitems ▸ Int32.lt_iff_toInt_lt.mp hlt),
      Int32.toInt_sub, Int32.toInt_add, hone, Int.bmod_sub_bmod]

section Page

variable {it : EntityListIterator α} {viewIndex viewSize : Int32}

theorem toInt_endIndex
    (hsize : (getPagedList it viewIndex viewSize).size.toInt = it.resultSet.rows.length)
    (hlength : (getPagedList it viewIndex viewSize).data.length < 2 ^ 31) :
    (getPagedList it viewIndex viewSize).endIndex.toInt =
      min (if ((getPagedList it viewIndex viewSize).data.length : ℤ) < viewIndex.toInt then
          ((getPagedList it viewIndex viewSize).startIndex.toInt - 1 +
            (getPagedList it viewIndex viewSize).data.length).bmod (2 ^ 32)
        else ((getPagedList it viewIndex viewSize).startIndex.toInt + viewSize.toInt - 1).bmod
          (2 ^ 32)) it.resultSet.rows.length := by
  have hmin (a b : Int32) : (if a < b then a else b).toInt = min b.toInt a.toInt := by
    by_cases hlt : a < b
    · rw [if_pos hlt, min_eq_right (Int32.lt_iff_toInt_lt.mp hlt).le]
    · rw [if_neg hlt, min_eq_left (Int.not_lt.mp fun h => hlt (Int32.lt_iff_toInt_lt.mpr h))]
  rw [← hsize, ← toInt_pageEnd _ _ _ hlength]
  exact hmin _ _

theorem length_data (hpos : 1 ≤ viewSize.toInt) :
    ((getPagedList it viewIndex viewSize).data.length : ℤ) =
      if 0 ≤ (getPagedList it viewIndex viewSize).startIndex.toInt then
        min viewSize.toInt (it.resultSet.rows.length -
          ((getPagedList it viewIndex viewSize).startIndex.toInt - 1).toNat : ℕ)
      else if 1 ≤ it.resultSet.rows.length +
          (getPagedList it viewIndex viewSize).startIndex.toInt then
        min viewSize.toInt (-(getPagedList it viewIndex viewSize).startIndex.toInt)
      else 0 := by
  have hdata : (getPagedList it viewIndex viewSize).data = _ := it.getPartialList_fst
    (getPagedList it viewIndex viewSize).startIndex viewSize
  rw [hdata]
  by_cases hnonneg : 0 ≤ (getPagedList it viewIndex viewSize).startIndex.toInt
  · rw [if_pos hnonneg, if_pos hnonneg, List.length_take, List.length_drop]
    omega
  · rw [if_neg hnonneg, if_neg hnonneg]
    by_cases hlen : 1 ≤ it.resultSet.rows.length +
        (getPagedList it viewIndex viewSize).startIndex.toInt
    · rw [if_pos hlen, if_pos hlen, List.length_take, List.length_drop]
      omega
    · rw [if_neg hlen, if_neg hlen]
      rfl

theorem size_iff (h : it.Sound) :
    (getPagedList it viewIndex viewSize).size.toInt = it.resultSet.rows.length ↔
      ∀ count, it.genericDAO = some count → count.toInt32.toInt = it.resultSet.rows.length := by
  have hsame := it.sameQuery_getPartialList
    (getPagedList it viewIndex viewSize).startIndex viewSize
  have hsize := EntityListIterator.resultsSize_iff
    (h.getPartialList (getPagedList it viewIndex viewSize).startIndex viewSize)
  rw [hsame.1, hsame.2] at hsize
  exact hsize

theorem length_rowsFrom (rows : List α) (start number : ℤ) :
    (EntityListIterator.rowsFrom rows start number).length =
      min (start + number - 1).toNat rows.length - (start - 1).toNat := by
  rw [EntityListIterator.rowsFrom, List.length_drop, List.length_take]

theorem mul_cases {v p : ℤ} (hp : 1 ≤ p) :
    (v < 0 ∧ v * p + p ≤ 0) ∨ (v = 0 ∧ v * p = 0) ∨ (0 < v ∧ p ≤ v * p) := by
  obtain hneg | rfl | hpos := lt_trichotomy v 0
  · have := mul_nonpos_of_nonpos_of_nonneg (show v + 1 ≤ 0 by omega) (show 0 ≤ p by omega)
    rw [add_mul, one_mul] at this
    exact Or.inl ⟨hneg, this⟩
  · exact Or.inr (Or.inl ⟨rfl, zero_mul p⟩)
  · have := le_mul_of_one_le_left (show 0 ≤ p by omega) (show 1 ≤ v by omega)
    exact Or.inr (Or.inr ⟨hpos, this⟩)

theorem length_page {n d : ℕ} {p x : ℤ} (hp : 1 ≤ p) (hx : 0 ≤ x)
    (hd : (d : ℤ) = min p (n - x.toNat : ℕ)) : d = min (x + p).toNat n - x.toNat := by
  omega

theorem fits_of_within {n d : ℕ} {v p x E E₁ E₂ k : ℤ} (hn : n < 2 ^ 31) (hp : 1 ≤ p)
    (hlt : p < 2 ^ 31) (hv : 0 ≤ v) (hx : x + 1 < 2 ^ 31)
    (hmul : v < 0 ∧ x + p ≤ 0 ∨ v = 0 ∧ x = 0 ∨ 0 < v ∧ p ≤ x)
    (hd : (d : ℤ) = min p (n - x.toNat : ℕ)) (hE : E = min (if (d : ℤ) < v then E₁ else E₂) n)
    (h₁ : E₁ = x + d) (h₂ : E₂ = x + p - 4294967296 * k) (hlow : -2147483648 ≤ E₂)
    (hhigh : E₂ < 2147483648) :
    d = min (x + p).toNat n - x.toNat ∧ (d : ℤ) = E - (x + 1) + 1 ↔
      x ≤ n ∧ (x + p < 2 ^ 31 ∨ min p (n - x) < v) := by
  have hnonneg : 0 ≤ x ∧ (v = 0 → x = 0) := by omega
  rw [and_iff_right (length_page hp hnonneg.1 hd)]
  clear hmul
  by_cases hfew : (d : ℤ) < v
  · rw [if_pos hfew, h₁] at hE
    constructor
    · omega
    · omega
  · rw [if_neg hfew] at hE
    by_cases hover : x + p < 2 ^ 31
    · obtain rfl : k = 0 := by omega
      constructor <;> omega
    · obtain rfl : k = 1 := by omega
      constructor <;> omega

/-- No rows are found from an `int` on exactly if it is after the rows, or before all that a
negative start counts to. -/
theorem length_eq_zero_iff {n d : ℕ} {p S : ℤ} (hp : 1 ≤ p)
    (hd : (d : ℤ) = if 0 ≤ S then min p (n - (S - 1).toNat : ℕ)
      else if 1 ≤ n + S then min p (-S) else 0) :
    d = 0 ↔ (0 < S ∧ n < S) ∨ (S = 0 ∧ n = 0) ∨ (S < 0 ∧ n + S < 1) := by
  by_cases hnonneg : 0 ≤ S
  · rw [if_pos hnonneg] at hd
    constructor <;> omega
  · rw [if_neg hnonneg] at hd
    by_cases hlen : 1 ≤ n + S
    · rw [if_pos hlen] at hd
      constructor <;> omega
    · rw [if_neg hlen] at hd
      constructor <;> omega

theorem fits_of_neg {n d : ℕ} {p S E₂ k : ℤ} (hn : n < 2 ^ 31) (hp : 1 ≤ p) (hlt : p < 2 ^ 31)
    (hS : -2147483648 ≤ S ∧ S < 2147483648)
    (hd : d = 0 ↔ (0 < S ∧ n < S) ∨ (S = 0 ∧ n = 0) ∨ (S < 0 ∧ n + S < 1))
    (h₂ : E₂ = S + p - 1 - 4294967296 * k) (hlow : -2147483648 ≤ E₂) (hhigh : E₂ < 2147483648) :
    d = 0 ∧ (d : ℤ) = min E₂ n - S + 1 ↔ S = n + 1 ∧ n + 1 + p ≤ 2 ^ 31 := by
  by_cases hover : S + p - 1 < 2147483648
  · obtain rfl : k = 0 := by omega
    constructor <;> omega
  · obtain rfl : k = 1 := by omega
    constructor <;> omega

theorem fits_of_over {n d : ℕ} {v S E₁ E₂ k : ℤ} (hn : n < 2 ^ 31) (hv : 0 < v)
    (hS : -2147483648 ≤ S ∧ S < 2147483648)
    (hd : d = 0 ↔ (0 < S ∧ n < S) ∨ (S = 0 ∧ n = 0) ∨ (S < 0 ∧ n + S < 1))
    (h₁ : E₁ = S - 1 + d - 4294967296 * k) (hlow : -2147483648 ≤ E₁)
    (hhigh : E₁ < 2147483648) :
    d = 0 ∧ (d : ℤ) = min (if (d : ℤ) < v then E₁ else E₂) n - S + 1 ↔
      S = n + 1 ∨ (S = 0 ∧ n = 0) ∨ (-2 ^ 31 < S ∧ S < 0 ∧ n + S < 1) := by
  by_cases hzero : d = 0
  · rw [if_pos (by omega)]
    by_cases hmin : S = -2147483648
    · obtain rfl : k = -1 := by omega
      constructor <;> omega
    · obtain rfl : k = 0 := by omega
      constructor <;> omega
  · refine iff_of_false (fun h => hzero h.1) fun h => hzero (hd.mpr ?_)
    omega

/-- The arithmetic of a page: the number of its rows and its last index are what they should be
exactly if the indexes fit. -/
theorem indexesFit_iff {n d : ℕ} {v p S : ℤ} (hn : n < 2 ^ 31) (hp : 1 ≤ p) (hlt : p < 2 ^ 31)
    (hS : S = (v * p + 1).bmod (2 ^ 32))
    (hd : (d : ℤ) = if 0 ≤ S then min p (n - (S - 1).toNat : ℕ)
      else if 1 ≤ n + S then min p (-S) else 0) :
    d = min (v * p + p).toNat n - (v * p).toNat ∧
        (d : ℤ) = min (if (d : ℤ) < v then (S - 1 + d).bmod (2 ^ 32)
          else (S + p - 1).bmod (2 ^ 32)) n - S + 1 ↔
      IndexesFit n v p := by
  have hmul := @mul_cases v p hp
  obtain ⟨k, hk, hlow, hhigh⟩ := bmod_spec (v * p + 1)
  obtain ⟨k₁, hk₁, hlow₁, hhigh₁⟩ := bmod_spec (S - 1 + d)
  obtain ⟨k₂, hk₂, hlow₂, hhigh₂⟩ := bmod_spec (S + p - 1)
  rw [IndexesFit, ← hS]
  rw [← hS] at hk hlow hhigh
  by_cases hwithin : 0 ≤ v ∧ v * p + 1 < 2 ^ 31
  · have hstart : S = v * p + 1 := by omega
    rw [if_pos (by omega)] at hd
    rw [if_pos hwithin]
    subst hstart
    have hcount : (d : ℤ) = min p (n - (v * p).toNat : ℕ) := by
      rw [hd, show v * p + 1 - 1 = v * p by omega]
    have hover : (v * p + 1 + p - 1).bmod (2 ^ 32) = v * p + p - 4294967296 * k₂ := by omega
    exact fits_of_within hn hp hlt hwithin.1 hwithin.2 hmul hcount rfl (by omega)
      hover hlow₂ hhigh₂
  · have hnone : min (v * p + p).toNat n - (v * p).toNat = 0 := by omega
    have hzero := length_eq_zero_iff hp hd
    rw [if_neg hwithin, hnone]
    by_cases hneg : v < 0
    · rw [if_pos hneg, if_neg (by omega)]
      exact fits_of_neg hn hp hlt ⟨hlow, hhigh⟩ hzero hk₂ hlow₂ hhigh₂
    · rw [if_neg hneg]
      exact fits_of_over hn (by omega) ⟨hlow, hhigh⟩ hzero hk₁ hlow₁ hhigh₁

theorem data_of_within (hpos : 1 ≤ viewSize.toInt) (hnonneg : 0 ≤ viewIndex.toInt)
    (hwithin : viewIndex.toInt * viewSize.toInt + 1 < 2 ^ 31) :
    (getPagedList it viewIndex viewSize).startIndex.toInt =
        viewIndex.toInt * viewSize.toInt + 1 ∧
      (getPagedList it viewIndex viewSize).data =
        (it.resultSet.rows.drop (viewIndex.toInt * viewSize.toInt).toNat).take
          viewSize.toInt.toNat := by
  have hmul := @mul_cases viewIndex.toInt viewSize.toInt hpos
  have hstart := toInt_getStartIndex viewIndex viewSize
  rw [Int.bmod_eq_of_le (by omega) (by omega)] at hstart
  have hdata : (getPagedList it viewIndex viewSize).data = _ :=
    it.getPartialList_fst (getStartIndexFromViewIndex viewIndex viewSize) viewSize
  refine ⟨hstart, ?_⟩
  rw [hdata, hstart, if_pos (by omega), Int.add_sub_cancel]

theorem data_of_length (hpos : 1 ≤ viewSize.toInt)
    (h : (getPagedList it viewIndex viewSize).data.length =
      (EntityListIterator.rowsFrom it.resultSet.rows (viewIndex.toInt * viewSize.toInt + 1)
        viewSize.toInt).length) :
    (getPagedList it viewIndex viewSize).data =
        EntityListIterator.rowsFrom it.resultSet.rows (viewIndex.toInt * viewSize.toInt + 1)
          viewSize.toInt ∧
      ((getPagedList it viewIndex viewSize).data ≠ [] →
        (getPagedList it viewIndex viewSize).startIndex.toInt =
          viewIndex.toInt * viewSize.toInt + 1) := by
  have hrows := it.resultSet.length_lt
  have hmul := @mul_cases viewIndex.toInt viewSize.toInt hpos
  by_cases hwithin : 0 ≤ viewIndex.toInt ∧ viewIndex.toInt * viewSize.toInt + 1 < 2 ^ 31
  · obtain ⟨hstart, hdata⟩ := @data_of_within _ it _ _ hpos hwithin.1 hwithin.2
    refine ⟨?_, fun _ => hstart⟩
    rw [hdata, EntityListIterator.rowsFrom, List.drop_take, Int.add_sub_cancel]
    congr 1
    omega
  · have hnone : (EntityListIterator.rowsFrom it.resultSet.rows
        (viewIndex.toInt * viewSize.toInt + 1) viewSize.toInt) = [] := by
      rw [← List.length_eq_zero_iff, length_rowsFrom]
      omega
    rw [hnone, List.length_nil, List.length_eq_zero_iff] at h
    exact ⟨h.trans hnone.symm, fun hne => absurd h hne⟩

/-- **A page is right exactly** if the count of a `genericDAO` is the number of rows and the
indexes fit. -/
theorem pageRight_iff_indexesFit (h : it.Sound) (hpos : 1 ≤ viewSize.toInt) :
    PageRight it viewIndex viewSize ↔
      (∀ count, it.genericDAO = some count →
        count.toInt32.toInt = it.resultSet.rows.length) ∧
      IndexesFit it.resultSet.rows.length viewIndex.toInt viewSize.toInt := by
  have hcount := @length_data _ it viewIndex viewSize hpos
  have hstart : (getPagedList it viewIndex viewSize).startIndex.toInt = _ :=
    toInt_getStartIndex viewIndex viewSize
  have hrows := it.resultSet.length_lt
  have hshort : (getPagedList it viewIndex viewSize).data.length < 2 ^ 31 := by
    have hlow := (getPagedList it viewIndex viewSize).startIndex.le_toInt
    have hlt := viewSize.toInt_lt
    rw [← Int.ofNat_lt, hcount]
    split_ifs <;> omega
  have hpage := length_rowsFrom it.resultSet.rows
    (viewIndex.toInt * viewSize.toInt + 1) viewSize.toInt
  rw [show viewIndex.toInt * viewSize.toInt + 1 + viewSize.toInt - 1 =
      viewIndex.toInt * viewSize.toInt + viewSize.toInt by omega,
    show viewIndex.toInt * viewSize.toInt + 1 - 1 =
      viewIndex.toInt * viewSize.toInt by omega] at hpage
  rw [← @size_iff _ it viewIndex viewSize h,
    ← indexesFit_iff hrows hpos viewSize.toInt_lt hstart hcount]
  constructor
  · intro hright
    have hend := hright.endIndex
    rw [toInt_endIndex hright.size hshort] at hend
    exact ⟨hright.size, (congrArg List.length hright.data).trans hpage, hend⟩
  · rintro ⟨hsize, hlength, hend⟩
    obtain ⟨hdata, hfirst⟩ := data_of_length hpos (hlength.trans hpage.symm)
    exact ⟨hdata, hfirst, by rw [toInt_endIndex hsize hshort]; exact hend, hsize⟩

def pageCount (it : EntityListIterator α) (viewSize : Int32) : ℕ :=
  (it.resultSet.rows.length + viewSize.toInt.toNat - 1) / viewSize.toInt.toNat

theorem flatMap_data (hpos : 1 ≤ viewSize.toInt) :
    (List.range (pageCount it viewSize)).flatMap
      (fun viewIndex => (getPagedList it (Int32.ofNat viewIndex) viewSize).data) =
    it.resultSet.rows := by
  have hrows := it.resultSet.length_lt
  obtain ⟨p, hp⟩ := Int.eq_ofNat_of_zero_le (show 0 ≤ viewSize.toInt by omega)
  have hsize : viewSize.toInt.toNat = p := by omega
  have hdiv := Nat.div_add_mod (it.resultSet.rows.length + p - 1) p
  have hmod := Nat.mod_lt (it.resultSet.rows.length + p - 1) (show 0 < p by omega)
  have hcover : it.resultSet.rows.length ≤ pageCount it viewSize * p := by
    rw [pageCount, hsize, Nat.mul_comm]
    omega
  have hpages : ∀ k ∈ List.range (pageCount it viewSize),
      (getPagedList it (Int32.ofNat k) viewSize).data =
        Odata.pageWindow it.resultSet.rows (k * p) p := fun k hk => by
    have hbegin : k * p < it.resultSet.rows.length := by
      have hle := Nat.mul_le_mul_left p (Nat.succ_le_of_lt (List.mem_range.mp hk))
      rw [pageCount, hsize, Nat.mul_succ, Nat.mul_comm p k] at hle
      omega
    have hk' : k ≤ k * p := Nat.le_mul_of_pos_right k (by omega)
    have hindex : (Int32.ofNat k).toInt = k := Int32.toInt_ofNat_of_lt (by omega)
    have hdata := (@data_of_within _ it (Int32.ofNat k) viewSize hpos (by omega)
      (by rw [hindex, hp]; omega)).2
    rw [hindex, hp] at hdata
    exact hdata
  rw [List.flatMap_def, List.map_congr_left hpages]
  exact (Odata.flatten_windows_of_length_le hcover).1

/-- **The pages of any iterator**: a page is right exactly if the count of a `genericDAO` is the
number of rows and its indexes fit, and the pages that begin within the rows, put together, are
the rows. -/
theorem pageRight_iff (h : (EntityListIterator.system α).Reachable it)
    (hpos : 1 ≤ viewSize.toInt) :
    (∀ viewIndex, PageRight it viewIndex viewSize ↔
      (∀ count, it.genericDAO = some count →
        count.toInt32.toInt = it.resultSet.rows.length) ∧
      IndexesFit it.resultSet.rows.length viewIndex.toInt viewSize.toInt) ∧
    (List.range (pageCount it viewSize)).flatMap
      (fun viewIndex => (getPagedList it (Int32.ofNat viewIndex) viewSize).data) =
    it.resultSet.rows :=
  ⟨fun _ => pageRight_iff_indexesFit (EntityListIterator.sound_of_reachable h) hpos,
    flatMap_data hpos⟩

end Page

/-! ### A query with five rows -/

theorem length_fiveRows : [1, 2, 3, 4, 5].length < 2 ^ 31 := by decide

def fiveRows : EntityListIterator ℕ := .create (.ofRows [1, 2, 3, 4, 5] length_fiveRows) none

theorem reachable_fiveRows : (EntityListIterator.system ℕ).Reachable fiveRows :=
  .init ⟨_, length_fiveRows, none, rfl⟩

theorem indexesFit_fiveRows : IndexesFit 5 2 2 := by
  rw [IndexesFit, if_pos (by decide)]
  decide

theorem not_indexesFit_fiveRows : ¬IndexesFit 5 2 10 := by
  rw [IndexesFit, if_pos (by decide)]
  decide

theorem pageRight_fiveRows : PageRight fiveRows 2 2 ∧ ¬PageRight fiveRows 2 10 :=
  ⟨((pageRight_iff reachable_fiveRows (by decide)).1 2).mpr
      ⟨fun _ hcount => absurd hcount.symm (Option.some_ne_none _), indexesFit_fiveRows⟩,
    fun hright => not_indexesFit_fiveRows
      (((pageRight_iff reachable_fiveRows (by decide)).1 2).mp hright).2⟩

theorem not_pageRight_fiveRows : ¬∀ (it : EntityListIterator ℕ) (viewIndex viewSize : Int32),
    (EntityListIterator.system ℕ).Reachable it → 1 ≤ viewSize.toInt →
      PageRight it viewIndex viewSize := fun h =>
  absurd (h fiveRows 2 10 reachable_fiveRows (by decide)).endIndex (by decide)

end OfficeAuto.Entity
