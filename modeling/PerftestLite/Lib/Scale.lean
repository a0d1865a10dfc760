import Mathlib

/-!
# Changing the unit of a count

A counter that ticks `c` times a second shows `n`; in units of which `k` make a second that is
`n * k / c`, rounded down.

* `rescale`, `rescale_mono`, `rescale_le`;
* `split_rescale`: whole seconds and the rest converted apart give the same;
* `abs_rescale_sub_lt`: differences are right up to one unit.
-/

set_option autoImplicit false

namespace Scale

/-- `n` ticks at `c` a second, in units of which `k` make a second. -/
def rescale (k c n : ℕ) : ℕ := n * k / c

variable {k c : ℕ}

/-- **Whole seconds and the rest converted apart.** -/
theorem split_rescale (k n : ℕ) (hc : 0 < c) : n / c * k + n % c * k / c = rescale k c n := by
  have hn : n * k = n % c * k + c * (n / c * k) := by
    calc n * k = (n % c + c * (n / c)) * k := by rw [Nat.mod_add_div]
      _ = n % c * k + c * (n / c * k) := by rw [Nat.add_mul, Nat.mul_assoc]
  unfold rescale
  rw [hn, Nat.add_mul_div_left _ _ hc, Nat.add_comm]

theorem rescale_mono (k c : ℕ) {m n : ℕ} (h : m ≤ n) : rescale k c m ≤ rescale k c n :=
  Nat.div_le_div_right (Nat.mul_le_mul_right k h)

/-- A coarser unit makes a smaller number. -/
theorem rescale_le (n : ℕ) (h : k ≤ c) : rescale k c n ≤ n := by
  apply Nat.div_le_of_le_mul
  rw [Nat.mul_comm c]
  exact Nat.mul_le_mul_left n h

/-- Rounding down loses less than one unit. -/
theorem rescale_bounds (k n : ℕ) (hc : 0 < c) :
    (rescale k c n : ℚ) ≤ n * k / c ∧ (n * k / c : ℚ) < rescale k c n + 1 := by
  have hcq : (0 : ℚ) < c := by exact_mod_cast hc
  have hlow : rescale k c n * c ≤ n * k := Nat.div_mul_le_self _ _
  have hhigh : n * k < (rescale k c n + 1) * c := Nat.lt_mul_of_div_lt (Nat.lt_succ_self _) hc
  constructor
  · rw [le_div_iff₀ hcq]
    exact_mod_cast hlow
  · rw [div_lt_iff₀ hcq]
    exact_mod_cast hhigh

/-- **Differences are right up to one unit.** -/
theorem abs_rescale_sub_lt (k m n : ℕ) (hc : 0 < c) :
    |((rescale k c n : ℚ) - rescale k c m) - ((n : ℚ) - m) * k / c| < 1 := by
  obtain ⟨hm, hm'⟩ := rescale_bounds k m hc
  obtain ⟨hn, hn'⟩ := rescale_bounds k n hc
  have hsplit : ((n : ℚ) - m) * k / c = n * k / c - m * k / c := by ring
  rw [hsplit, abs_lt]
  constructor <;> linarith

end Scale
