import PerftestLite.Lib.Word

/-!
# Arithmetic that must not overflow

Signed overflow is undefined, so an operation on `int32_t` is a partial one: `none` where the exact
result does not fit. What is defined agrees with the wrapping arithmetic of `Word`.

* `add`, `sub`; `add_of_range`, `sub_of_range`: the operation on results that fit;
* `fit_i32`, `add_i32`: what is defined is what wraps around to itself.
-/

set_option autoImplicit false

namespace Checked

open Word

/-- The exact result, if it fits. -/
def fit (x : ℤ) : Option ℤ := if InInt32 x then some x else none

def add (a b : ℤ) : Option ℤ := fit (a + b)

def sub (a b : ℤ) : Option ℤ := fit (a - b)

variable {a b x v : ℤ}

theorem fit_i32 (h : fit x = some v) : i32 x = v := by
  unfold fit at h
  split_ifs at h with hx
  cases h
  exact i32_of_range hx

theorem add_of_range (h : InInt32 (a + b)) : add a b = some (a + b) := if_pos h

theorem sub_of_range (h : InInt32 (a - b)) : sub a b = some (a - b) := if_pos h

theorem add_i32 (h : add a b = some v) : i32 (a + b) = v := fit_i32 h

end Checked
