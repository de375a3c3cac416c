import Mathlib.Algebra.Ring.Int.Defs
import Mathlib.Algebra.Ring.Nat

namespace Library.Integers

/-- Two's complement wrap-around to a signed 32-bit integer. -/
def int32 (x : ℤ) : ℤ := x.bmod (2 ^ 32)

def uint64 (x : ℤ) : ℕ := (x % 2 ^ 64).toNat

theorem int32_eq {x : ℤ} (hlo : -2 ^ 31 ≤ x) (hhi : x < 2 ^ 31) : int32 x = x :=
  Int.bmod_eq_of_le (by omega) (by omega)

theorem int32_sub (x y : ℤ) : int32 (int32 x - y) = int32 (x - y) :=
  Int.bmod_sub_bmod

theorem int32_emod (x : ℤ) : int32 x % 2 ^ 32 = x % 2 ^ 32 :=
  Int.bmod_emod

theorem mod_add_bits (x m n : ℕ) : x % 2 ^ m + 2 ^ m * (x / 2 ^ m % 2 ^ n) = x % 2 ^ (m + n) := by
  rw [Nat.pow_add, Nat.mod_mul]

theorem uint64_eq {n : ℕ} (h : n < 2 ^ 64) : uint64 n = n := by
  unfold uint64
  omega

end Library.Integers
