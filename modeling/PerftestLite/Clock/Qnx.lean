import PerftestLite.Lib.Scale
import PerftestLite.Lib.Word

/-!
# The clock of the QNX port

`qnx_time_now_us` turns a cycle count into microseconds without a product of 128 bits: the whole
seconds and the cycles of the second begun are converted apart.

* `qnx_wholeSeconds_lt`, `qnx_remainder_lt`, `qnx_sum_lt`: nothing wraps;
* `qnxTimeNowUs_eq`: the reading is the rescaled cycle count;
* `qnx_clock_exact`: it is exact, monotone, and differences are right up to one microsecond.
-/

set_option autoImplicit false

namespace PerftestLite

open Word Scale

/-- `qnx_time_now_us` at `now` cycles of a counter with `cyclesPerSec` cycles a second. -/
def qnxTimeNowUs (cyclesPerSec now : ℕ) : ℕ :=
  if cyclesPerSec = 0 then 0
  else u64 (u64 (now / cyclesPerSec * 1000000) + u64 (now % cyclesPerSec * 1000000) / cyclesPerSec)

section Range

variable {c now : ℕ}

/-- A whole second has at least as many cycles as microseconds. -/
theorem qnx_wholeSeconds_lt (hc : 1000000 ≤ c) (hnow : now < 18446744073709551616) :
    now / c * 1000000 < 18446744073709551616 := by
  have hle : now / c * 1000000 ≤ now := by
    calc now / c * 1000000 ≤ now / c * c := Nat.mul_le_mul_left _ hc
      _ ≤ now := Nat.div_mul_le_self now c
  exact lt_of_le_of_lt hle hnow

theorem qnx_remainder_lt (now : ℕ) (hc : 1000000 ≤ c) (hmul : (c - 1) * 1000000 < 18446744073709551616) :
    now % c * 1000000 < 18446744073709551616 := by
  have hlt : now % c < c := Nat.mod_lt now (by omega)
  have hle : now % c * 1000000 ≤ (c - 1) * 1000000 := Nat.mul_le_mul_right _ (by omega)
  exact lt_of_le_of_lt hle hmul

theorem qnx_sum_lt (hc : 1000000 ≤ c) (hnow : now < 18446744073709551616) :
    now / c * 1000000 + now % c * 1000000 / c < 18446744073709551616 := by
  rw [split_rescale 1000000 now (by omega)]
  exact lt_of_le_of_lt (rescale_le now hc) hnow

/-- **No wrap-around, so the two halves make up the whole.** -/
theorem qnxTimeNowUs_eq (hc : 1000000 ≤ c) (hmul : (c - 1) * 1000000 < 18446744073709551616)
    (hnow : now < 18446744073709551616) : qnxTimeNowUs c now = rescale 1000000 c now := by
  have hpos : 0 < c := by omega
  unfold qnxTimeNowUs
  rw [if_neg hpos.ne', u64_of_lt (qnx_wholeSeconds_lt hc hnow), u64_of_lt (qnx_remainder_lt now hc hmul),
    u64_of_lt (qnx_sum_lt hc hnow)]
  exact split_rescale 1000000 now hpos

end Range

/-- **The clock is exact and monotone.** For a counter of at least 1 MHz whose cycles of one second fit
into 64 bits when multiplied: at every cycle count no intermediate result wraps and the reading is the
exact number of microseconds rounded down; more cycles are never an earlier reading; and the difference
of two readings is less than one microsecond off. -/
theorem qnx_clock_exact {c : ℕ} (hc : 1000000 ≤ c) (hmul : (c - 1) * 1000000 < 2 ^ 64) :
    (∀ now < 2 ^ 64, now / c * 1000000 < 2 ^ 64 ∧ now % c * 1000000 < 2 ^ 64 ∧
      now / c * 1000000 + now % c * 1000000 / c < 2 ^ 64 ∧ qnxTimeNowUs c now = now * 1000000 / c) ∧
    (∀ a b, a ≤ b → b < 2 ^ 64 → qnxTimeNowUs c a ≤ qnxTimeNowUs c b) ∧
    ∀ a < 2 ^ 64, ∀ b < 2 ^ 64,
      |((qnxTimeNowUs c b : ℚ) - qnxTimeNowUs c a) - ((b : ℚ) - a) * 1000000 / c| < 1 := by
  refine ⟨fun now hnow => ?_, fun a b hab hb => ?_, fun a ha b hb => ?_⟩
  · exact ⟨qnx_wholeSeconds_lt hc hnow, qnx_remainder_lt now hc hmul, qnx_sum_lt hc hnow,
      qnxTimeNowUs_eq hc hmul hnow⟩
  · rw [qnxTimeNowUs_eq hc hmul hb, qnxTimeNowUs_eq hc hmul (lt_of_le_of_lt hab hb)]
    exact rescale_mono 1000000 c hab
  · rw [qnxTimeNowUs_eq hc hmul ha, qnxTimeNowUs_eq hc hmul hb]
    exact abs_rescale_sub_lt 1000000 a b (by omega)

/-- A counter of 2.4 GHz, at the largest cycle count. -/
theorem qnx_clock_exact_ghz :
    qnxTimeNowUs 2400000000 18446744073709551615 = 7686143364045646 ∧
      |((qnxTimeNowUs 2400000000 18446744073709551615 : ℚ) - qnxTimeNowUs 2400000000 2399) -
        (((18446744073709551615 : ℕ) : ℚ) - (2399 : ℕ)) * 1000000 / (2400000000 : ℕ)| < 1 := by
  obtain ⟨hexact, -, hdiff⟩ := qnx_clock_exact (c := 2400000000) (by norm_num) (by norm_num)
  exact ⟨(hexact 18446744073709551615 (by norm_num)).2.2.2.trans (by norm_num),
    hdiff 2399 (by norm_num) 18446744073709551615 (by norm_num)⟩

end PerftestLite
