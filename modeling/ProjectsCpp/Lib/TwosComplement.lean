import Mathlib.Data.Int.Order.Basic
import Mathlib.Algebra.Group.Nat.Defs
import Mathlib.Algebra.Group.Int.Defs

/-! Signed arithmetic in 64 and in 32 bits that wraps around. -/

namespace ProjectsCpp.TwosComplement

/-- The result of `int64_t` arithmetic. -/
def int64 (n : Int) : Int := n.bmod (2 ^ 64)

def IsInt64 (n : Int) : Prop := -2 ^ 63 ≤ n ∧ n < 2 ^ 63

instance (n : Int) : Decidable (IsInt64 n) := inferInstanceAs (Decidable (_ ∧ _))

theorem int64_eq {n : Int} (fits : IsInt64 n) : int64 n = n := by
  obtain ⟨low, high⟩ := fits
  exact Int.bmod_eq_of_le_mul_two (by omega) (by omega)

theorem int64_add (m n : Int) : int64 (int64 m + n) = int64 (m + n) := Int.bmod_add_bmod

def toUInt64 (n : Int) : Int := n % 2 ^ 64

@[irreducible] def int32 (n : Int) : Int := n.bmod (2 ^ 32)

theorem int32_eq {n : Int} (low : -2 ^ 31 ≤ n) (high : n < 2 ^ 31) : int32 n = n := by
  rw [int32]
  exact Int.bmod_eq_of_le_mul_two (by omega) (by omega)

theorem int32_lt (n : Int) : int32 n < 2 ^ 31 := by
  have := Int.bmod_lt (x := n) (m := 2 ^ 32) (by decide)
  rw [int32]
  omega

theorem int32_ge (n : Int) : -2 ^ 31 ≤ int32 n := by
  have := Int.le_bmod (x := n) (m := 2 ^ 32) (by decide)
  rw [int32]
  omega

theorem int32_le {n : Nat} (positive : 0 ≤ int32 n) : int32 n ≤ n := by
  rw [int32, Int.bmod_def] at *
  split at positive <;> omega

end ProjectsCpp.TwosComplement
