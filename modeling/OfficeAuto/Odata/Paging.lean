import OfficeAuto.Logic.Result
import OfficeAuto.Odata.ExtraReader

/-!
# Pages

`Util.pageEntityCollection` cuts the page of a request out of a list. The page of a list is a
`window`, and the windows of one size put together are the list (`flatten_windows`).

The code cuts a window if the page begins within the list and its end is an `int`. A page that
begins after the last entity is not empty: the code leaves the list as it is
(`pageEntityCollection_eq_window_iff`). So the pages of a request after the other partition the list
only as far as the list goes (`pages_eq_windows_iff`).
-/

namespace OfficeAuto.Odata

/-! ### Windows -/

section Windows

variable {α : Type} (es : List α) (skip top n : ℕ)

def pageWindow : List α := (es.drop skip).take top

def windows : List (List α) := (List.range n).map fun k => pageWindow es (k * top) top

/-- **Windows of one size partition a list**: put together they are its beginning. -/
theorem flatten_windows : (windows es top n).flatten = es.take (n * top) := by
  induction n with
  | zero => simp [windows]
  | succ n ih =>
    rw [windows, List.range_succ, List.map_append, List.flatten_append, ← windows, ih,
      List.map_singleton, List.flatten_singleton, pageWindow, Nat.succ_mul, List.take_add]

theorem flatten_windows_of_length_le {es : List α} {top n : ℕ} (h : es.length ≤ n * top) :
    (windows es top n).flatten = es ∧ ∀ k, n ≤ k → pageWindow es (k * top) top = [] := by
  refine ⟨by rw [flatten_windows, List.take_of_length_le h], fun k hk => ?_⟩
  have hend : es.length ≤ k * top := Nat.le_trans h (Nat.mul_le_mul_right top hk)
  rw [pageWindow, List.drop_eq_nil_of_le hend, List.take_nil]

end Windows

/-! ### The pages of the code -/

section Pages

variable {E : Type} {es : List E} {skip top n : ℕ}

/-- A page that the code cuts: its end is an `int`, and it begins before the end of the list, or at
the end if it has no size, or the list is empty. -/
def IsWindow (es : List E) (skip top : ℕ) : Prop :=
  skip + top < 2 ^ 31 ∧ (es = [] ∨ skip < es.length ∨ skip = es.length ∧ top = 0)

instance (es : List E) (skip top : ℕ) [DecidableEq E] : Decidable (IsWindow es skip top) :=
  inferInstanceAs (Decidable (_ ∧ _))

def pages (es : List E) (top n : ℕ) : Except FindException (List (List E)) :=
  (List.range n).mapM fun k => pageEntityCollection es (k * top) top

theorem pageEntityCollection_zero (hskip : skip < 2 ^ 31) :
    pageEntityCollection es skip 0 = if es.length < skip then .ok es else .ok [] := by
  unfold pageEntityCollection
  rw [Nat.add_zero, bmod_of_lt hskip]
  by_cases hlong : es.length < skip
  · rw [if_pos hlong, if_pos (by omega), if_pos (by omega)]
  · rw [if_neg hlong, if_neg (by omega), if_neg (by omega), List.take_zero]

theorem pageWindow_eq_nil (h : es.length ≤ skip) : pageWindow es skip top = [] := by
  rw [pageWindow, List.drop_eq_nil_of_le h, List.take_nil]

/-- **The code cuts the window of a page** exactly if it is a window in the sense of the code. -/
theorem pageEntityCollection_eq_window_iff (hskip : skip < 2 ^ 31) (htop : top < 2 ^ 31) :
    pageEntityCollection es skip top = .ok (pageWindow es skip top) ↔ IsWindow es skip top := by
  have hself (h : es.length ≤ skip) :
      (.ok es : Except FindException (List E)) = .ok (pageWindow es skip top) ↔ es = [] := by
    rw [pageWindow_eq_nil h, Except.ok.injEq]
  rcases Nat.eq_zero_or_pos top with rfl | hpos
  · rw [pageEntityCollection_zero hskip]
    by_cases hlong : es.length < skip
    · rw [if_pos hlong, hself (by omega)]
      refine ⟨fun hnil => ⟨hskip, .inl hnil⟩, fun h => ?_⟩
      rcases h.2 with hnil | hlt | ⟨heq, -⟩
      · exact hnil
      · omega
      · omega
    · rw [if_neg hlong]
      have hcases : skip < es.length ∨ skip = es.length ∧ 0 = 0 := by omega
      exact iff_of_true (by rw [pageWindow, List.take_zero]) ⟨hskip, .inr hcases⟩
  · rw [pageEntityCollection_eq hskip htop hpos]
    by_cases hover : 2 ^ 31 ≤ skip + top
    · rw [if_pos hover]
      exact iff_of_false (fun h => by cases h) fun h => absurd h.1 (by omega)
    · rw [if_neg hover]
      by_cases hlong : es.length ≤ skip
      · rw [if_pos hlong, hself hlong]
        refine ⟨fun hnil => ⟨by omega, .inl hnil⟩, fun h => ?_⟩
        rcases h.2 with hnil | hlt | ⟨-, hzero⟩
        · exact hnil
        · omega
        · omega
      · rw [if_neg hlong]
        exact iff_of_true rfl ⟨by omega, .inr (.inl (by omega))⟩

/-- **A list is paged** as it should be, page by page, exactly if each page is a window. -/
theorem pages_eq_windows_iff (htop : top < 2 ^ 31) (hskip : ∀ k < n, k * top < 2 ^ 31) :
    pages es top n = .ok (windows es top n) ↔ ∀ k < n, IsWindow es (k * top) top := by
  rw [pages, windows, Except.mapM_eq_ok, List.forall₂_map_right_iff, List.forall₂_same]
  refine forall_congr' fun k => ?_
  rw [List.mem_range]
  exact forall_congr' fun hk => pageEntityCollection_eq_window_iff (hskip k hk) htop

/-- **The pages of a list** are the windows of their requests exactly if these are windows in the
sense of the code. Put together they are the list as far as they go, and the next ones are empty. -/
theorem pageEntityCollection_pages (es : List E) :
    (∀ skip top : ℕ, skip < 2 ^ 31 → top < 2 ^ 31 →
      (pageEntityCollection es skip top = .ok (pageWindow es skip top) ↔ IsWindow es skip top)) ∧
    ∀ top n : ℕ, top < 2 ^ 31 → (∀ k < n, k * top < 2 ^ 31) →
      (pages es top n = .ok (windows es top n) ↔ ∀ k < n, IsWindow es (k * top) top) ∧
      (windows es top n).flatten = es.take (n * top) ∧
      (es.length ≤ n * top →
        (windows es top n).flatten = es ∧ ∀ k, n ≤ k → pageWindow es (k * top) top = []) :=
  ⟨fun _ _ hskip htop => pageEntityCollection_eq_window_iff hskip htop,
    fun top n htop hskip => ⟨pages_eq_windows_iff htop hskip, flatten_windows es top n,
      flatten_windows_of_length_le⟩⟩

theorem pageEntityCollection_pages_three :
    pages [10, 20, 30] 2 2 = .ok [[10, 20], [30]] ∧ [[10, 20], [30]].flatten = [10, 20, 30] := by
  obtain ⟨hpages, -, hcover⟩ :=
    (pageEntityCollection_pages [10, 20, 30]).2 2 2 (by decide) (by decide)
  exact ⟨hpages.mpr (by decide), (hcover (by decide)).1⟩

theorem pageEntityCollection_afterLast :
    pageEntityCollection [10] 1 1 ≠ .ok (pageWindow [10] 1 1) := by
  have hpage : pageEntityCollection [10] 1 1 = .ok [10] := rfl
  rw [hpage, ne_eq, Except.ok.injEq]
  decide

end Pages

end OfficeAuto.Odata
