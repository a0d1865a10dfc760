import Mathlib.Data.Int.ModEq
import Mathlib.Tactic.Common

/-!
# Fixed-width integers

Unsigned words are natural numbers reduced modulo `2 ^ w` and `int32_t` is an integer brought back
into `-2 ^ 31 ≤ x < 2 ^ 31`. A value already in range is left alone: `u64_of_lt`, `i32_of_range`,
`toU64_of_nonneg`, `u64Sub_of_le`.
-/

set_option autoImplicit false

namespace Word

/-- The largest `int32_t`. -/
def int32Max : ℤ := 2147483647

/-- `x` is a value of `int32_t`. -/
def InInt32 (x : ℤ) : Prop := -2147483648 ≤ x ∧ x ≤ int32Max

instance (x : ℤ) : Decidable (InInt32 x) := inferInstanceAs (Decidable (_ ∧ _))

/-- `int32_t` arithmetic, wrapping around as two's complement does. -/
def i32 (x : ℤ) : ℤ := Int.bmod x 4294967296

/-- `uint32_t` arithmetic. -/
def u32 (n : ℕ) : ℕ := n % 4294967296

/-- `uint64_t` arithmetic. -/
def u64 (n : ℕ) : ℕ := n % 18446744073709551616

/-- Conversion of a signed integer to `uint64_t`. -/
def toU64 (x : ℤ) : ℕ := (x % 18446744073709551616).toNat

/-- Subtraction of `uint64_t`, wrapping around below zero. -/
def u64Sub (a b : ℕ) : ℕ := toU64 ((a : ℤ) - b)

theorem u64_of_lt {n : ℕ} (h : n < 18446744073709551616) : u64 n = n := Nat.mod_eq_of_lt h

theorem i32_of_range {x : ℤ} (h : InInt32 x) : i32 x = x := by
  obtain ⟨h1, h2⟩ := h
  unfold int32Max at h2
  exact Int.bmod_eq_of_le (by omega) (by omega)

theorem toU64_of_nonneg {x : ℤ} (h0 : 0 ≤ x) (h : x < 18446744073709551616) : toU64 x = x.toNat := by
  rw [toU64, Int.emod_eq_of_lt h0 h]

theorem u64Sub_of_le {a b : ℕ} (h : b ≤ a) (ha : a < 18446744073709551616) : u64Sub a b = a - b := by
  rw [u64Sub, toU64_of_nonneg (by omega) (by omega)]
  omega

end Word
