import Mathlib.Order.Compare
import OfficeAuto.Logic.Comparator

/-!
# Ordering rows by columns

A row has a value under each name of a column, or none. Rows are ordered by a list of columns, each
in a direction: the first column that tells two rows apart decides, and a row without a value goes
after one with a value.

More columns at the end of the list change the order of some rows, unless each of them is one of the
columns before (`columnOrder_append_eq_iff`).
-/

namespace Comparator

variable {C V : Type} [LinearOrder V]

def columnCompare (column : C × Bool) (row row' : C → Option V) : Ordering :=
  nullsLast (directed column.2 compare) (row column.1) (row' column.1)

def columnOrder (columns : List (C × Bool)) : (C → Option V) → (C → Option V) → Ordering :=
  lexicographic (columns.map columnCompare)

variable {columns later : List (C × Bool)} {row row' : C → Option V}

theorem columnCompare_eq_iff {column : C × Bool} :
    columnCompare column row row' = .eq ↔ row column.1 = row' column.1 := by
  unfold columnCompare
  cases hrow : row column.1 with
  | none =>
    cases hrow' : row' column.1 with
    | none => exact iff_of_true rfl rfl
    | some v' => exact iff_of_false nofun nofun
  | some v =>
    cases hrow' : row' column.1 with
    | none => exact iff_of_false nofun nofun
    | some v' =>
      rw [Option.some.injEq]
      unfold nullsLast directed
      split_ifs
      · rw [compare_eq_iff_eq, eq_comm]
      · exact compare_eq_iff_eq

theorem columnOrder_eq_iff :
    columnOrder columns row row' = .eq ↔ ∀ column ∈ columns, row column.1 = row' column.1 := by
  induction columns with
  | nil => exact iff_of_true rfl fun column h => absurd h List.not_mem_nil
  | cons column columns ih =>
    have hcons : columnOrder (column :: columns) row row' =
        (columnCompare column row row').then (columnOrder columns row row') := rfl
    rw [hcons, Ordering.then_eq_eq, columnCompare_eq_iff, ih, List.forall_mem_cons]

theorem columnOrder_append :
    columnOrder (columns ++ later) row row' =
      (columnOrder columns row row').then (columnOrder later row row') := by
  induction columns with
  | nil => rfl
  | cons column columns ih =>
    have hcons : ∀ cs : List (C × Bool), columnOrder (column :: cs) row row' =
        (columnCompare column row row').then (columnOrder cs row row') := fun _ => rfl
    rw [List.cons_append, hcons, hcons, ih, Ordering.then_assoc]

/-- **Columns at the end** of an order do not matter exactly if they are columns of it before. -/
theorem columnOrder_append_eq_iff [Inhabited V] :
    (∀ row row' : C → Option V,
      columnOrder (columns ++ later) row row' = columnOrder columns row row') ↔
      ∀ column ∈ later, column.1 ∈ columns.map Prod.fst := by
  classical
  constructor
  · intro h column hcolumn
    by_contra hnot
    -- two rows that differ in this column only
    let row : C → Option V := fun _ => none
    let row' : C → Option V := Function.update row column.1 (some default)
    have htied : columnOrder columns row row' = .eq := by
      refine columnOrder_eq_iff.mpr fun column' hcolumn' => ?_
      have hne : column'.1 ≠ column.1 := fun heq =>
        hnot (heq ▸ List.mem_map_of_mem hcolumn')
      exact (Function.update_of_ne hne _ _).symm
    have hall := h row row'
    rw [htied, columnOrder_eq_iff] at hall
    have hvalue := hall column (List.mem_append_right columns hcolumn)
    exact nomatch hvalue.trans (Function.update_self column.1 (some default) row)
  · intro h row row'
    rw [columnOrder_append]
    by_cases htied : columnOrder columns row row' = .eq
    · rw [htied]
      refine columnOrder_eq_iff.mpr fun column hcolumn => ?_
      obtain ⟨column', hcolumn', heq⟩ := List.mem_map.mp (h column hcolumn)
      exact heq ▸ columnOrder_eq_iff.mp htied column' hcolumn'
    · exact then_of_ne_eq htied _

end Comparator
