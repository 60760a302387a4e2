import Mathlib.Algebra.Ring.Int.Defs
import Mathlib.Algebra.Ring.Nat
import Mathlib.Data.List.Basic
import Mathlib.Order.Basic

/-!
# Scrollable result sets

The rows of a query under a cursor that moves both ways, as JDBC has them. The cursor is before
the first row (position `0`), on a row (`1` to the number of rows) or after the last row. Rows are
numbered by `int`.

On a result set without rows the four questions about the place of the cursor (`isBeforeFirst`,
`isFirst`, `isLast`, `isAfterLast`) are all answered with no.
-/

/-- The rows, and where the cursor is. -/
structure ResultSet (α : Type) where
  rows : List α
  position : ℕ
  position_le : position ≤ rows.length + 1
  length_lt : rows.length < 2 ^ 31

namespace ResultSet

variable {α : Type} {r : ResultSet α}

/-- A result set as the query returns it, with the cursor before the first row. -/
def ofRows (rows : List α) (h : rows.length < 2 ^ 31) : ResultSet α :=
  ⟨rows, 0, Nat.zero_le _, h⟩

def moveTo (r : ResultSet α) (position : ℕ) : ResultSet α :=
  { r with position := min position (r.rows.length + 1), position_le := Nat.min_le_right _ _ }

def onRow (r : ResultSet α) : Bool := decide (1 ≤ r.position ∧ r.position ≤ r.rows.length)

def row (r : ResultSet α) : Option α :=
  match r.position with
  | 0 => none
  | position + 1 => r.rows[position]?

def isBeforeFirst (r : ResultSet α) : Bool := !r.rows.isEmpty && r.position == 0

def isFirst (r : ResultSet α) : Bool := !r.rows.isEmpty && r.position == 1

def isLast (r : ResultSet α) : Bool := !r.rows.isEmpty && r.position == r.rows.length

def isAfterLast (r : ResultSet α) : Bool := !r.rows.isEmpty && r.position == r.rows.length + 1

def getRow (r : ResultSet α) : Int32 := if r.onRow then Int32.ofNat r.position else 0

def move (r : ResultSet α) (position : ℕ) : Bool × ResultSet α :=
  ((r.moveTo position).onRow, r.moveTo position)

def beforeFirst (r : ResultSet α) : ResultSet α := r.moveTo 0

def afterLast (r : ResultSet α) : ResultSet α := r.moveTo (r.rows.length + 1)

def first (r : ResultSet α) : Bool × ResultSet α := r.move 1

def last (r : ResultSet α) : Bool × ResultSet α := r.move r.rows.length

def next (r : ResultSet α) : Bool × ResultSet α := r.move (r.position + 1)

def previous (r : ResultSet α) : Bool × ResultSet α := r.move (r.position - 1)

def absolute (r : ResultSet α) (rowNum : Int32) : Bool × ResultSet α :=
  if 0 ≤ rowNum.toInt then r.move rowNum.toInt.toNat
  else r.move (r.rows.length + 1 + rowNum.toInt).toNat

/-! ### Where the moves lead -/

@[simp] theorem rows_moveTo (position : ℕ) : (r.moveTo position).rows = r.rows := rfl

theorem position_moveTo {position : ℕ} (h : position ≤ r.rows.length + 1) :
    (r.moveTo position).position = position :=
  Nat.min_eq_left h

theorem row_of_position {position : ℕ} (h : r.position = position + 1) :
    r.row = r.rows[position]? := by
  rw [row, h]

theorem onRow_iff : r.onRow = true ↔ 1 ≤ r.position ∧ r.position ≤ r.rows.length :=
  decide_eq_true_iff

theorem onRow_moveTo_iff {position : ℕ} :
    (r.moveTo position).onRow = true ↔ 1 ≤ position ∧ position ≤ r.rows.length := by
  rw [onRow_iff, rows_moveTo, moveTo]
  dsimp only
  omega

def rest (r : ResultSet α) : List α := r.rows.drop r.position

theorem rest_eq_cons {row : α} (h : r.rows[r.position]? = some row) :
    r.rest = row :: (r.moveTo (r.position + 1)).rest := by
  obtain ⟨hlt, rfl⟩ := List.getElem?_eq_some_iff.mp h
  rw [rest, rest, rows_moveTo, position_moveTo (by omega)]
  exact List.drop_eq_getElem_cons hlt

theorem rest_eq_nil (h : r.rows.length ≤ r.position) : r.rest = [] :=
  List.drop_eq_nil_of_le h

theorem rest_eq_nil_iff : r.rest = [] ↔ r.rows.length ≤ r.position :=
  List.drop_eq_nil_iff

theorem rest_eq_rows_iff : r.rest = r.rows ↔ r.position = 0 ∨ r.rows = [] := by
  constructor
  · intro h
    have hlength := congrArg List.length h
    rw [rest, List.length_drop] at hlength
    rw [← List.length_eq_zero_iff]
    omega
  · rintro (h | h)
    · rw [rest, h, List.drop_zero]
    · rw [rest, h, List.drop_nil]

end ResultSet
