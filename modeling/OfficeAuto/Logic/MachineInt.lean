import Mathlib.Algebra.Order.Group.Int
import Mathlib.Algebra.Ring.Nat

/-!
# Integers of a machine

The machine integer of 32 bits for a number is the number itself, less a multiple of `2 ^ 32` that
brings it into the range (`int_spec`).
-/

namespace MachineInt

def int (n : ℤ) : ℤ := n.bmod (2 ^ 32)

theorem int_spec (n : ℤ) :
    ∃ k, int n = n - 4294967296 * k ∧ -2147483648 ≤ int n ∧ int n < 2147483648 := by
  have hle : -2147483648 ≤ int n := Int.le_bmod (m := 2 ^ 32) (by decide)
  have hlt : int n < 2147483648 := Int.bmod_lt (m := 2 ^ 32) (by decide)
  exact ⟨n.bdiv (2 ^ 32), Int.bmod_eq_self_sub_mul_bdiv n (2 ^ 32), hle, hlt⟩

theorem int_int (n : ℤ) : int (int n) = int n := Int.bmod_bmod

theorem int_add_int (m n : ℤ) : int (int m + n) = int (m + n) := Int.bmod_add_bmod

theorem int_eq {n : ℤ} (hge : -2147483648 ≤ n) (hlt : n < 2147483648) : int n = n :=
  Int.bmod_eq_of_le (by omega) (by omega)

end MachineInt
