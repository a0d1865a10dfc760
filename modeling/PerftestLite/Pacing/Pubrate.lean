import PerftestLite.Core.Args
import PerftestLite.Core.Throughput
import PerftestLite.Lib.Observer
import PerftestLite.Lib.Rate

/-!
# The requested rate

With `-pubrate r` the publisher pauses `1000000 / r` microseconds after each sample, a division that
drops its remainder once and for all samples. A stopwatch follows the run: it lets a step pass if the
clock has not gone back and a `sleep_us` before it has lasted, and notes when samples were written.

* `Stopwatch`, `watchPub`, `pacedStep`: the publisher and the stopwatch;
* `PubPaced`, `pubPaced_exec`: samples are a pause apart, and all pauses but the last fit into the test;
* `paced_outcomes`: the stopwatch notes the writes of the loop;
* `exists_dense`: a run that writes as fast as the pause allows;
* `rateKept_iff`: the arguments for which no run exceeds the rate.
-/

set_option autoImplicit false

namespace PerftestLite

open Word Machine Rate

/-! ## The stopwatch -/

/-- What `sleep_us` is asked for at a statement. -/
def sleepFor (cfg : Config) (args : InputArgs) : PubPc → ℕ
  | .settle => 1000000
  | .sleep => (sleepUs cfg args).toNat
  | .finalSleep _ => 50000
  | _ => 0

/-- The last reading of the clock, the earliest reading at which the main thread goes on, and when
`writer->write` was called in the loop, with the outcomes. -/
structure Stopwatch where
  clock : ℕ
  ready : ℕ
  written : List (ℕ × Bool)
  deriving DecidableEq, Repr

/-- The clock does not go back, a reading is a `uint64_t`, and `sleep_us` lasts as long as asked. -/
def watchPub (cfg : Config) (args : InputArgs) (s : PubState) (o : Stopwatch) :
    ℕ × PubAction → Option Stopwatch
  | (now, .main ok) =>
    if o.clock ≤ now ∧ o.ready ≤ now ∧ now < 18446744073709551616 then
      some {
        clock := now
        ready := now + sleepFor cfg args s.pc
        written := if s.pc = .write then o.written ++ [(now, ok)] else o.written }
    else none
  | (now, .pong _) | (now, .matched _) =>
    if o.clock ≤ now ∧ now < 18446744073709551616 then some { o with clock := now } else none

/-- One step of the publisher under the stopwatch. -/
def pacedStep (T : TypeInterface) (cfg : Config) (args : InputArgs) :
    PubState × Stopwatch → ℕ × PubAction → Option (PubState × Stopwatch) :=
  observed (pubStep T cfg args) (watchPub cfg args)

/-- The samples written in the window from `t` to `t + d`: every call of `writer->write`, or those that
succeeded. -/
def Stopwatch.samplesIn (o : Stopwatch) (calls : Bool) (t d : ℕ) : ℕ :=
  o.written.countP fun w => (calls || w.2) && decide (t ≤ w.1 ∧ w.1 ≤ t + d)

/-- No run writes more samples in any window than the rate asked for, rounded up, and one. -/
def RateKept (T : TypeInterface) (cfg : Config) (args : InputArgs) (calls : Bool) : Prop :=
  ∀ (history : Bool) (matchedPubs : ℤ) (results : Option Results) (clock : ℕ)
    (es : List (ℕ × PubAction)) (p : PubState) (o : Stopwatch),
    exec (pacedStep T cfg args) (pubInit T args history matchedPubs results, ⟨clock, clock, []⟩) es =
      some (p, o) →
    ∀ t d, o.samplesIn calls t d ≤ (d * args.pubrate.toNat) ⌈/⌉ 1000000 + 1

/-! ## Samples are a pause apart -/

section Run

variable {T : TypeInterface} {cfg : Config} {args : InputArgs} {now : ℕ} {ok : Bool} {s s' : PubState}
  {o o' : Stopwatch}

/-- The readings at which samples were written. -/
def Stopwatch.times (o : Stopwatch) : List ℕ := o.written.map Prod.fst

theorem Stopwatch.samplesIn_le (o : Stopwatch) (calls : Bool) (t d : ℕ) :
    o.samplesIn calls t d ≤ inWindow t d o.times := by
  unfold Stopwatch.samplesIn inWindow Stopwatch.times
  rw [List.countP_map]
  refine List.countP_mono_left fun w _ hw => ?_
  rw [Bool.and_eq_true] at hw
  exact hw.2

/-- How far the samples written so far are behind the clock. -/
def PubPc.Behind (g : ℕ) (o : Stopwatch) : PubPc → Prop
  | .warmup | .burst _ | .settle | .reset | .begin => o.times = []
  | .loop | .prepare | .write | .line _ => ∀ w ∈ o.times, w + g ≤ o.clock
  | .wait _ | .sleep => ∀ w ∈ o.times, w ≤ o.clock
  | .tick => ∀ w ∈ o.times, w + g ≤ o.ready
  | _ => True

/-- In the measuring loop. -/
def PubPc.inLoop : PubPc → Bool
  | .loop | .prepare | .write | .wait _ | .sleep | .tick | .line _ => true
  | _ => false

/-- A turn of the loop has begun and its sample is not written yet. -/
def PubPc.turning : PubPc → Bool
  | .prepare | .write => true
  | _ => false

/-- Samples at least `g` apart, in a loop that is left `e` after it began. -/
structure PubPaced (g e : ℕ) (s : PubState) (o : Stopwatch) : Prop where
  spaced : Spaced g o.times
  behind : s.pc.Behind g o
  started : s.pc.inLoop = true → s.t0 ≤ o.clock ∧ ∀ w ∈ o.times, s.t0 ≤ w
  turning : s.pc.turning = true → o.times.length * g < e
  short : o.times = [] ∨ (o.times.length - 1) * g < e

variable {g e : ℕ}

/-- Where nothing is written and the loop has not begun or is over. -/
theorem PubPaced.outside (h : PubPaced g e s o) (htimes : o'.times = o.times)
    (hb : s'.pc.Behind g o') (hl : s'.pc.inLoop = false) : PubPaced g e s' o' := by
  have ht : s'.pc.turning = false := by
    cases hpc : s'.pc <;> simp_all [PubPc.inLoop, PubPc.turning]
  exact ⟨by rw [htimes]; exact h.spaced, hb, fun h => absurd (hl.symm.trans h) Bool.false_ne_true,
    fun h => absurd (ht.symm.trans h) Bool.false_ne_true, by rw [htimes]; exact h.short⟩

/-- Where nothing is written inside the loop. -/
theorem PubPaced.inside (h : PubPaced g e s o) (htimes : o'.times = o.times) (ht0 : s'.t0 = s.t0)
    (hclock : o.clock ≤ o'.clock) (hl : s.pc.inLoop = true) (hb : s'.pc.Behind g o')
    (ht : s'.pc.turning = true → o.times.length * g < e) : PubPaced g e s' o' := by
  obtain ⟨hle, hall⟩ := h.started hl
  refine ⟨by rw [htimes]; exact h.spaced, hb, fun _ => ?_, by rw [htimes]; exact ht,
    by rw [htimes]; exact h.short⟩
  rw [ht0, htimes]
  exact ⟨Nat.le_trans hle hclock, hall⟩

/-- The stopwatch after a statement at `now`. -/
def Stopwatch.after (cfg : Config) (args : InputArgs) (now : ℕ) (ok : Bool) (s : PubState)
    (o : Stopwatch) : Stopwatch where
  clock := now
  ready := now + sleepFor cfg args s.pc
  written := if s.pc = .write then o.written ++ [(now, ok)] else o.written

theorem Stopwatch.times_after (h : s.pc ≠ .write) : (o.after cfg args now ok s).times = o.times := by
  unfold Stopwatch.times Stopwatch.after
  rw [if_neg h]

theorem Stopwatch.times_after_write (h : s.pc = .write) :
    (o.after cfg args now ok s).times = o.times ++ [now] := by
  unfold Stopwatch.times Stopwatch.after
  rw [if_pos h, List.map_append]
  rfl

/-- One sample more: a pause after those before it, in the time the test has. -/
theorem PubPaced.wrote (h : PubPaced g e s o) (hpc : s.pc = .write) (hclock : o.clock ≤ now)
    (ht0 : s'.t0 = s.t0) (ht : s'.pc.turning = false)
    (hb : s'.pc.Behind g (o.after cfg args now ok s)) :
    PubPaced g e s' (o.after cfg args now ok s) := by
  have htimes : (o.after cfg args now ok s).times = o.times ++ [now] := Stopwatch.times_after_write hpc
  have hbehind : ∀ w ∈ o.times, w + g ≤ o.clock := by
    have := h.behind
    rw [hpc] at this
    exact this
  obtain ⟨hle, hall⟩ := h.started (by rw [hpc]; rfl)
  refine ⟨?_, hb, fun _ => ⟨?_, fun w hw => ?_⟩, fun h => absurd (ht.symm.trans h) Bool.false_ne_true, ?_⟩
  · rw [htimes]
    exact h.spaced.snoc fun w hw => Nat.le_trans (hbehind w hw) hclock
  · rw [ht0]
    exact Nat.le_trans hle hclock
  · rw [ht0]
    rw [htimes] at hw
    rcases List.mem_append.mp hw with hw | hw
    · exact hall w hw
    · rw [List.mem_singleton.mp hw]
      exact Nat.le_trans hle hclock
  · refine .inr ?_
    rw [htimes, List.length_append, List.length_singleton, Nat.add_sub_cancel]
    exact h.turning (by rw [hpc]; rfl)

theorem pubPaced_main (hg : g = (sleepUs cfg args).toNat) (he : e = timeoutUs args)
    (h : PubPaced g e s o) (hclock : o.clock ≤ now) (hready : o.ready ≤ now)
    (hnow : now < 18446744073709551616) (hs : PubMain T cfg args now ok s s') :
    PubPaced g e s' (o.after cfg args now ok s) := by
  have hbehind := h.behind
  have hkeep : s.pc ≠ .write → (o.after cfg args now ok s).times = o.times := Stopwatch.times_after
  cases hs with
  | warmup hpc | burst i hpc _ | burstEnd i hpc _ | settle hpc | reset hpc =>
    rw [hpc] at hbehind hkeep
    exact h.outside (hkeep (by simp)) ((hkeep (by simp)).trans hbehind) rfl
  | begin hpc =>
    rw [hpc] at hbehind hkeep
    have htimes : (o.after cfg args now ok s).times = [] := (hkeep (by simp)).trans hbehind
    refine ⟨?_, ?_, fun _ => ⟨Nat.le_refl _, ?_⟩, by simp [PubPc.turning], .inl htimes⟩
    · rw [htimes]
      exact List.Pairwise.nil
    · intro w hw
      rw [htimes] at hw
      cases hw
    · intro w hw
      rw [htimes] at hw
      cases hw
  | again hpc ht =>
    rw [hpc] at hbehind hkeep
    obtain ⟨hle, hall⟩ := h.started (by rw [hpc]; rfl)
    refine h.inside (hkeep (by simp)) rfl hclock (by rw [hpc]; rfl) ?_ fun _ => ?_
    · intro w hw
      rw [hkeep (by simp)] at hw
      exact Nat.le_trans (hbehind w hw) hclock
    · -- the samples so far and their pauses lie between the start and this reading
      have hspan := h.spaced.span_le (Nat.le_trans hle hclock) hall fun w hw =>
        Nat.le_trans (hbehind w hw) hclock
      rw [u64Sub_of_le (by omega) hnow] at ht
      rw [he]
      omega
  | leave hpc _ =>
    rw [hpc] at hkeep
    exact h.outside (hkeep (by simp)) trivial rfl
  | line _ _ hpc _ | lineEnd _ hpc _ =>
    rw [hpc] at hbehind hkeep
    refine h.inside (hkeep (by simp)) rfl hclock (by rw [hpc]; rfl) ?_ (by simp [PubPc.turning])
    intro w hw
    rw [hkeep (by simp)] at hw
    exact Nat.le_trans (hbehind w hw) hclock
  | prepare hpc =>
    rw [hpc] at hbehind hkeep
    refine h.inside (hkeep (by simp)) rfl hclock (by rw [hpc]; rfl) ?_ fun _ => h.turning (by rw [hpc]; rfl)
    intro w hw
    rw [hkeep (by simp)] at hw
    exact Nat.le_trans (hbehind w hw) hclock
  | writeWait hpc _ _ _ | writeOn hpc _ =>
    rw [hpc] at hbehind
    refine h.wrote hpc hclock rfl rfl ?_
    intro w hw
    rw [Stopwatch.times_after_write hpc] at hw
    rcases List.mem_append.mp hw with hw | hw
    · exact Nat.le_trans (Nat.le_trans (Nat.le_add_right w g) (hbehind w hw)) hclock
    · exact Nat.le_of_eq (List.mem_singleton.mp hw)
  | taken _ hpc _ _ | expired _ hpc _ _ _ =>
    rw [hpc] at hbehind hkeep
    refine h.inside (hkeep (by simp)) rfl hclock (by rw [hpc]; rfl) ?_ (by simp [PubPc.turning])
    intro w hw
    rw [hkeep (by simp)] at hw
    exact Nat.le_trans (hbehind w hw) hclock
  | sleep hpc =>
    rw [hpc] at hbehind hkeep
    refine h.inside (hkeep (by simp)) rfl hclock (by rw [hpc]; rfl) ?_ (by simp [PubPc.turning])
    intro w hw
    rw [hkeep (by simp)] at hw
    have hle := hbehind w hw
    change w + g ≤ now + sleepFor cfg args s.pc
    rw [hpc, hg]
    change w + _ ≤ now + (sleepUs cfg args).toNat
    omega
  | tick hpc _ | tickLine hpc _ _ =>
    rw [hpc] at hbehind hkeep
    refine h.inside (hkeep (by simp)) rfl hclock (by rw [hpc]; rfl) ?_ (by simp [PubPc.turning])
    intro w hw
    rw [hkeep (by simp)] at hw
    exact Nat.le_trans (hbehind w hw) hready
  | finish _ _ hpc _ | finishEnd _ hpc _ | report hpc | final k hpc _ _ | finalEnd k hpc _
  | finalSleep k hpc | shutdown hpc =>
    rw [hpc] at hkeep
    exact h.outside (hkeep (by simp)) trivial rfl

/-- A callback lets the clock go on. -/
theorem PubPaced.callback (h : PubPaced g e s o) (hclock : o.clock ≤ now) (hpc : s'.pc = s.pc)
    (ht0 : s'.t0 = s.t0) : PubPaced g e s' { o with clock := now } := by
  obtain ⟨hspaced, hbehind, hstarted, hturning, hshort⟩ := h
  refine ⟨hspaced, ?_, ?_, by rw [hpc]; exact hturning, hshort⟩
  · rw [hpc]
    cases hs : s.pc <;> rw [hs] at hbehind <;> first
      | exact hbehind
      | exact fun w hw => Nat.le_trans (hbehind w hw) hclock
  · rw [hpc, ht0]
    exact fun hl => ⟨Nat.le_trans (hstarted hl).1 hclock, (hstarted hl).2⟩

theorem pubPaced_exec {history : Bool} {matchedPubs : ℤ} {results : Option Results} {clock : ℕ}
    {es : List (ℕ × PubAction)}
    (hrun : exec (pacedStep T cfg args)
      (pubInit T args history matchedPubs results, ⟨clock, clock, []⟩) es = some (s, o)) :
    PubPaced (sleepUs cfg args).toNat (timeoutUs args) s o := by
  refine exec_invariant (I := fun q : PubState × Stopwatch =>
    PubPaced (sleepUs cfg args).toNat (timeoutUs args) q.1 q.2) ?_ hrun
    ⟨List.Pairwise.nil, rfl, by simp [pubInit, PubPc.inLoop], by simp [pubInit, PubPc.turning], .inl rfl⟩
  rintro ⟨s, o⟩ ⟨now, act⟩ ⟨s', o'⟩ h hs
  obtain ⟨hstep, hwatch⟩ := observed_eq_some.mp hs
  cases act with
  | main ok =>
    simp only [watchPub, Option.ite_none_right_eq_some, Option.some.injEq] at hwatch
    obtain ⟨⟨hclock, hready, hnow⟩, rfl⟩ := hwatch
    exact pubPaced_main rfl rfl h hclock hready hnow (pubMain_cases hstep)
  | pong x | matched change =>
    simp only [watchPub, Option.ite_none_right_eq_some, Option.some.injEq] at hwatch
    obtain ⟨⟨hclock, -⟩, rfl⟩ := hwatch
    simp only [pubStep, Option.ite_none_left_eq_some, Option.some.injEq] at hstep
    obtain ⟨-, rfl⟩ := hstep
    exact h.callback hclock rfl rfl

/-- A write of the loop adds its outcome. -/
theorem outcomes_wrote (hs : PubInv args s) (hpc : s.pc = .write) (ok : Bool) :
    (loopWrites (s.wrote s.sample ok)).map Prod.snd = outcomes s ++ [ok] := by
  have hdata : s.sample.isData = true := by
    unfold PerftestSample.isData
    rw [(hs.order.write hpc).1]
    exact loopKind_isData args s.seq
  unfold PubState.wrote
  rw [loopWrites_append_data hdata, List.map_append]
  rfl

/-- A statement adds to the outcomes at `write` only. -/
theorem outcomes_main (h : PubInv args s) (hs : PubMain T cfg args now ok s s') :
    outcomes s' = if s.pc = .write then outcomes s ++ [ok] else outcomes s := by
  have hother : ∀ x : PerftestSample, x.isData = false →
      (loopWrites (s.wrote x ok)).map Prod.snd = outcomes s := fun x hx =>
    congrArg (List.map Prod.snd) (loopWrites_append_other hx)
  cases hs with
  | writeWait hpc hok _ _ =>
    rw [if_pos hpc, hok]
    exact outcomes_wrote h hpc true
  | writeOn hpc _ =>
    rw [if_pos hpc]
    exact outcomes_wrote h hpc ok
  | burst i hpc _ =>
    rw [if_neg (by simp [hpc])]
    exact hother _ (PerftestSample.isData_eq (h.order.burst i hpc))
  | final k hpc _ _ =>
    rw [if_neg (by simp [hpc])]
    exact hother _ (PerftestSample.isData_eq (h.order.final (by rw [hpc]; rfl)))
  | warmup hpc | burstEnd _ hpc _ | settle hpc | reset hpc | begin hpc | again hpc _ | leave hpc _
  | prepare hpc | taken _ hpc _ _ | expired _ hpc _ _ _ | sleep hpc | tick hpc _ | tickLine hpc _ _
  | line _ _ hpc _ | lineEnd _ hpc _ | finish _ _ hpc _ | finishEnd _ hpc _ | report hpc | finalEnd _ hpc _
  | finalSleep _ hpc | shutdown hpc =>
    have hne : s.pc ≠ .write := by simp [hpc]
    exact (if_neg hne).symm

/-- **The stopwatch notes the writes of the loop**, each with its outcome. -/
theorem paced_outcomes {history : Bool} {matchedPubs : ℤ} {results : Option Results} {clock : ℕ}
    {es : List (ℕ × PubAction)}
    (hrun : exec (pacedStep T cfg args)
      (pubInit T args history matchedPubs results, ⟨clock, clock, []⟩) es = some (s, o)) :
    o.written.map Prod.snd = outcomes s := by
  induction es using List.reverseRecOn generalizing s o with
  | nil =>
    cases hrun
    rfl
  | append_singleton es e ih =>
    obtain ⟨⟨m, om⟩, hm, he⟩ := exec_snoc.mp hrun
    have hprev := ih hm
    have hinv : PubInv args m := pubInv_exec (exec_observed_fst hm)
    obtain ⟨hstep, hwatch⟩ := observed_eq_some.mp he
    obtain ⟨now, act⟩ := e
    cases act with
    | main ok =>
      simp only [watchPub, Option.ite_none_right_eq_some, Option.some.injEq] at hwatch
      rw [outcomes_main hinv (pubMain_cases hstep), ← hwatch.2, ← hprev]
      dsimp only
      split_ifs
      · rw [List.map_append]
        rfl
      · rfl
    | pong x | matched change =>
      simp only [watchPub, Option.ite_none_right_eq_some, Option.some.injEq] at hwatch
      simp only [pubStep, Option.ite_none_left_eq_some, Option.some.injEq] at hstep
      rw [← hwatch.2, ← hstep.2]
      exact hprev

/-- The pause of a requested rate. -/
theorem sleepUs_of_pubrate (cfg : Config) (h : 0 < args.pubrate) :
    (sleepUs cfg args).toNat = 1000000 / args.pubrate.toNat := by
  unfold sleepUs
  rw [if_pos h]
  obtain ⟨r, hr⟩ := Int.eq_ofNat_of_zero_le h.le
  rw [hr, Int.toNat_natCast]
  exact Int.toNat_natCast (1000000 / r)

/-- **Samples in a window and in a test**: one more than the pauses. -/
theorem PubPaced.samplesIn (h : PubPaced g e s o) (calls : Bool) (t d : ℕ) :
    o.samplesIn calls t d = 0 ∨
      ∃ k, o.samplesIn calls t d = k + 1 ∧ k * g ≤ d ∧ k * g < e := by
  have hle := o.samplesIn_le calls t d
  have hwindow := h.spaced.inWindow_le t d
  have hlength := inWindow_le_length t d o.times
  cases hk : o.samplesIn calls t d with
  | zero => exact .inl rfl
  | succ k =>
    rw [hk] at hle
    refine .inr ⟨k, rfl, ?_, ?_⟩
    · exact Nat.le_trans (Nat.mul_le_mul_right g (by omega)) hwindow
    · rcases h.short with hnil | hshort
      · rw [hnil] at hle
        cases hle
      · exact Nat.lt_of_le_of_lt (Nat.mul_le_mul_right g (by omega)) hshort

end Run

/-- The test is over before what the division drops adds up to a sample: `r` divides 1000000, or the test
is no longer than the pauses it takes. -/
def RateFits (args : InputArgs) : Prop :=
  1000000 % args.pubrate.toNat = 0 ∨
    timeoutUs args ≤ 1000000 ⌈/⌉ (1000000 % args.pubrate.toNat) * (1000000 / args.pubrate.toNat)

theorem rateFits_iff {args : InputArgs} :
    RateFits args ↔ ∀ k, k * (1000000 / args.pubrate.toNat) < timeoutUs args →
      k * (1000000 % args.pubrate.toNat) < 1000000 := by
  unfold RateFits
  rcases Nat.eq_zero_or_pos (1000000 % args.pubrate.toNat) with hq | hq
  · simp [hq]
  · rw [gaps_fit_iff hq, or_iff_right hq.ne']

/-- **The rate is kept** where the test is short enough for it. -/
theorem rateKept_of_fits (T : TypeInterface) (cfg : Config) {args : InputArgs} (calls : Bool)
    (hr : 0 < args.pubrate) (h : RateFits args) : RateKept T cfg args calls := by
  intro history matchedPubs results clock es p o hrun t d
  have hpaced := pubPaced_exec hrun
  rw [sleepUs_of_pubrate cfg hr] at hpaced
  rcases hpaced.samplesIn calls t d with h0 | ⟨k, hk, hkd, hke⟩
  · omega
  · rw [hk]
    exact Nat.succ_le_succ (le_ceilDiv_of_gaps (by norm_num) hkd (rateFits_iff.mp h k hke))

/-! ## Writing as fast as the pause allows -/

/-- A pong of a ping sample. -/
def promptPong : PerftestSample := ⟨1, .dataPing, 0, ⟨0, 0⟩⟩

/-- The warm-up at reading 0, the loop reached at `t`. -/
def pacedWarmup (cfg : Config) (t : ℕ) : List (ℕ × PubAction) :=
  List.replicate (cfg.initBurst + 3) (0, .main true) ++ List.replicate 2 (t, .main true)

section Dense

variable {T : TypeInterface} {cfg : Config} {args : InputArgs} {now t : ℕ} {s s' : PubState}
  {o : Stopwatch}

theorem pacedStep_main (hs : pubStep T cfg args s (now, .main true) = some s') (hc : o.clock ≤ now)
    (hr : o.ready ≤ now) (hn : now < 18446744073709551616) :
    pacedStep T cfg args (s, o) (now, .main true) = some (s', o.after cfg args now true s) :=
  observed_of_steps hs (if_pos ⟨hc, hr, hn⟩)

/-- A statement that neither writes nor sleeps, right after another one. -/
theorem pacedStep_still {written : List (ℕ × Bool)}
    (hs : pubStep T cfg args s (now, .main true) = some s') (hw : s.pc ≠ .write)
    (h0 : sleepFor cfg args s.pc = 0) (hn : now < 18446744073709551616) :
    pacedStep T cfg args (s, ⟨now, now, written⟩) (now, .main true) =
      some (s', ⟨now, now, written⟩) := by
  rw [pacedStep_main hs (Nat.le_refl _) (Nat.le_refl _) hn]
  unfold Stopwatch.after
  rw [h0, if_neg hw]
  rfl

theorem pacedStep_write {written : List (ℕ × Bool)}
    (hs : pubStep T cfg args s (now, .main true) = some s') (hpc : s.pc = .write)
    (hn : now < 18446744073709551616) :
    pacedStep T cfg args (s, ⟨now, now, written⟩) (now, .main true) =
      some (s', ⟨now, now, written ++ [(now, true)]⟩) := by
  rw [pacedStep_main hs (Nat.le_refl _) (Nat.le_refl _) hn]
  unfold Stopwatch.after
  rw [hpc]
  rfl

/-- The pong of a ping sample leaves a token. -/
theorem pacedStep_pong {written : List (ℕ × Bool)} (hpc : s.pc ≠ .done)
    (hn : now < 18446744073709551616) :
    pacedStep T cfg args (s, ⟨now, now, written⟩) (now, .pong promptPong) =
      some (s.pong cfg now promptPong, ⟨now, now, written⟩) :=
  observed_of_steps (if_neg hpc) (if_pos ⟨Nat.le_refl _, hn⟩)

theorem pubStep_writeWait {ok : Bool} (hl : args.latencyTest = true) (hok : ok = true)
    (hpc : s.pc = .write) :
    pubStep T cfg args s (now, .main ok) = some { s with
      pc := .wait now, total := s.total + 1, writes := s.wrote s.sample true } := by
  simp [pubStep, pubMain, hpc, hl, hok, isPing]

theorem pubStep_taken {since : ℕ} {ok : Bool} (hok : ok = true) (hpc : s.pc = .wait since)
    (hsem : s.ctx.latencySem.token = true) :
    pubStep T cfg args s (now, .main ok) = some { s with
      pc := .sleep, ctx := { s.ctx with latencySem := s.ctx.latencySem.take } } := by
  simp [pubStep, pubMain, hpc, hok, hsem]

variable (T cfg) in
/-- The condition, the sample and the write, with the wait for the pong where there is one. -/
theorem exec_sample (written : List (ℕ × Bool)) {live : Bool} (hpc : s.pc = .loop)
    (hsem : s.ctx.latencySem = .live live) (ht : u64Sub t s.t0 < timeoutUs args)
    (hn : t < 18446744073709551616) :
    ∃ s', exec (pacedStep T cfg args) (s, ⟨t, t, written⟩) (List.replicate 3 (t, .main true) ++
        if args.latencyTest then [(t, .pong promptPong), (t, .main true)] else []) =
        some (s', ⟨t, t, written ++ [(t, true)]⟩) ∧
      s'.pc = .sleep ∧ s'.t0 = s.t0 ∧ ∃ live', s'.ctx.latencySem = .live live' := by
  have hloop : pacedStep T cfg args (s, ⟨t, t, written⟩) (t, .main true) =
      some (_, ⟨t, t, written⟩) :=
    pacedStep_still (pubStep_again hpc ht) (by rw [hpc]; simp) (by rw [hpc]; rfl) hn
  have hprepare : ∀ checks, pacedStep T cfg args ({ s with pc := .prepare, checks := checks },
      ⟨t, t, written⟩) (t, .main true) = some (_, ⟨t, t, written⟩) := fun checks =>
    pacedStep_still rfl (by simp) rfl hn
  cases hl : args.latencyTest with
  | false =>
    refine ⟨_, exec_cons.mpr ⟨_, hloop, exec_cons.mpr ⟨_, hprepare _, exec_cons.mpr ⟨_,
      pacedStep_write (pubStep_writeOn hl rfl) rfl hn, rfl⟩⟩⟩, rfl, rfl, live, hsem⟩
  | true =>
    refine ⟨_, exec_cons.mpr ⟨_, hloop, exec_cons.mpr ⟨_, hprepare _, exec_cons.mpr ⟨_,
      pacedStep_write (pubStep_writeWait hl rfl rfl) rfl hn, exec_cons.mpr ⟨_,
      pacedStep_pong (by simp) hn, exec_cons.mpr ⟨_,
      pacedStep_still (pubStep_taken rfl rfl ?_) (by simp [PubState.pong]) rfl hn, rfl⟩⟩⟩⟩⟩, rfl, rfl,
      false, ?_⟩
    · change s.ctx.latencySem.give.token = true
      rw [hsem]
      rfl
    · change s.ctx.latencySem.give.take = .live false
      rw [hsem]
      rfl

variable (T) in
/-- A line takes no time. -/
theorem exec_pacedLine (written : List (ℕ × Bool)) (k : ℕ) {s : PubState} {l : LinePc} (hpc : s.pc = .line l)
    (hk : 4 ≤ l.index + k) (hn : now < 18446744073709551616) :
    ∃ es s', exec (pacedStep T cfg args) (s, ⟨now, now, written⟩) es = some (s', ⟨now, now, written⟩) ∧
      s'.pc = .loop ∧ s'.t0 = s.t0 ∧ s'.ctx = s.ctx := by
  induction k generalizing s l with
  | zero => cases l <;> simp [LinePc.index] at hk
  | succ k ih =>
    have hstep : pacedStep T cfg args (s, ⟨now, now, written⟩) (now, .main true) =
        some ({ s with pc := (l.next s.ctx).elim .loop .line }, ⟨now, now, written⟩) :=
      pacedStep_still (by simp only [pubStep, pubMain, hpc]) (by simp [hpc]) (by rw [hpc]; rfl) hn
    cases hl : l.next s.ctx with
    | none =>
      rw [hl] at hstep
      exact ⟨[(now, .main true)], _, exec_cons.mpr ⟨_, hstep, rfl⟩, rfl, rfl, rfl⟩
    | some l' =>
      rw [hl] at hstep
      have hlt := LinePc.index_lt_of_next hl
      obtain ⟨es, s', hes, hs'⟩ := ih (s := { s with pc := .line l' }) rfl (by omega)
      exact ⟨(now, .main true) :: es, s', exec_cons.mpr ⟨_, hstep, hes⟩, hs'⟩

variable (T) in
/-- The pause, and the end of the turn as soon as it is over. -/
theorem exec_pause {g : ℕ} (written : List (ℕ × Bool)) (hg : g = (sleepUs cfg args).toNat)
    (hpc : s.pc = .sleep) (hn : t + g < 18446744073709551616) :
    ∃ es s', exec (pacedStep T cfg args) (s, ⟨t, t, written⟩) es = some (s', ⟨t + g, t + g, written⟩) ∧
      s'.pc = .loop ∧ s'.t0 = s.t0 ∧ s'.ctx = s.ctx := by
  have hsleep : pacedStep T cfg args (s, ⟨t, t, written⟩) (t, .main true) =
      some ({ s with pc := .tick }, ⟨t, t + g, written⟩) := by
    have hstep : pubStep T cfg args s (t, .main true) = some { s with pc := .tick } := by
      simp [pubStep, pubMain, hpc]
    rw [pacedStep_main hstep (Nat.le_refl _) (Nat.le_refl _) (by omega), hg]
    unfold Stopwatch.after
    rw [hpc]
    rfl
  have htick : ∀ s', pubStep T cfg args { s with pc := .tick } (t + g, .main true) = some s' →
      pacedStep T cfg args ({ s with pc := .tick }, ⟨t, t + g, written⟩) (t + g, .main true) =
        some (s', ⟨t + g, t + g, written⟩) := fun s' hs' =>
    pacedStep_main hs' (Nat.le_add_right t g) (Nat.le_refl _) hn
  by_cases hline : args.printEverySecond ∧ t + g ≥ s.tNextPrint
  · have hstep := htick _ (by simp only [pubStep, pubMain, if_pos hline]; rfl)
    obtain ⟨es, s', hes, hs'⟩ : ∃ es s', exec (pacedStep T cfg args) _ es = some _ ∧ _ :=
      exec_pacedLine T written 4 (s := { s with
        pc := .line (.count (t + g)), tNextPrint := u64 (t + g + 1000000) }) rfl (Nat.le_add_left 4 _) hn
    exact ⟨(t, .main true) :: (t + g, .main true) :: es, s',
      exec_cons.mpr ⟨_, hsleep, exec_cons.mpr ⟨_, hstep, hes⟩⟩, hs'⟩
  · have hstep := htick _ (by simp only [pubStep, pubMain, if_neg hline]; rfl)
    exact ⟨[(t, .main true), (t + g, .main true)], _,
      exec_cons.mpr ⟨_, hsleep, exec_cons.mpr ⟨_, hstep, rfl⟩⟩, rfl, rfl, rfl⟩

/-- **One turn of the loop.** -/
theorem exec_pacedTurn {g : ℕ} {written : List (ℕ × Bool)} {live : Bool}
    (hg : g = (sleepUs cfg args).toNat) (hpc : s.pc = .loop) (hsem : s.ctx.latencySem = .live live)
    (ht : u64Sub t s.t0 < timeoutUs args) (hn : t + g < 18446744073709551616) :
    ∃ es s', exec (pacedStep T cfg args) (s, ⟨t, t, written⟩) es =
        some (s', ⟨t + g, t + g, written ++ [(t, true)]⟩) ∧
      s'.pc = .loop ∧ s'.t0 = s.t0 ∧ ∃ live', s'.ctx.latencySem = .live live' := by
  obtain ⟨m, hm, hpcm, htm, live', hsemm⟩ := exec_sample T cfg written hpc hsem ht (by omega)
  obtain ⟨es, s', hs', hpcs, hts, hctx⟩ := exec_pause T (written ++ [(t, true)]) hg hpcm hn
  refine ⟨_, s', exec_append.mpr ⟨_, hm, hs'⟩, hpcs, hts.trans htm, live', ?_⟩
  rw [hctx]
  exact hsemm

/-- **Turns of the loop**, each a pause after the one before. -/
theorem exec_pacedTurns {g : ℕ} {live : Bool} (hg : g = (sleepUs cfg args).toNat) (hpc : s.pc = .loop)
    (hsem : s.ctx.latencySem = .live live) (ht0 : s.t0 = t) (n : ℕ)
    (ht : ∀ i < n, i * g < timeoutUs args) (hn : t + n * g < 18446744073709551616) :
    ∃ es s', exec (pacedStep T cfg args) (s, ⟨t, t, []⟩) es =
        some (s', ⟨t + n * g, t + n * g, (every g t n).map fun w => (w, true)⟩) ∧
      s'.pc = .loop ∧ s'.t0 = t ∧ ∃ live', s'.ctx.latencySem = .live live' := by
  induction n with
  | zero =>
    refine ⟨[], s, ?_, hpc, ht0, live, hsem⟩
    rw [Nat.zero_mul, Nat.add_zero]
    rfl
  | succ n ih =>
    rw [Nat.succ_mul] at hn
    obtain ⟨es, m, hm, hpcm, htm, live', hsemm⟩ := ih (fun i hi => ht i (by omega)) (by omega)
    have hin : u64Sub (t + n * g) m.t0 < timeoutUs args := by
      rw [htm, u64Sub_of_le (by omega) (by omega), Nat.add_sub_cancel_left]
      exact ht n (Nat.lt_succ_self n)
    obtain ⟨turn, s', hs', hpcs, hts, hsems⟩ := exec_pacedTurn (T := T) hg hpcm hsemm hin (by omega)
    refine ⟨es ++ turn, s', ?_, hpcs, hts.trans htm, hsems⟩
    rw [Nat.succ_mul, ← Nat.add_assoc, every, List.map_append]
    exact exec_append.mpr ⟨_, hm, hs'⟩

variable (T cfg args)

theorem exec_pacedBurst (n i : ℕ) (hpc : s.pc = .burst i) (hi : i + n = cfg.initBurst) :
    ∃ s', exec (pacedStep T cfg args) (s, ⟨0, 0, []⟩) (List.replicate n (0, .main true)) =
        some (s', ⟨0, 0, []⟩) ∧ s'.pc = .burst cfg.initBurst ∧ s'.ctx = s.ctx := by
  induction n generalizing i s with
  | zero =>
    refine ⟨s, rfl, ?_, rfl⟩
    rw [hpc, ← hi, Nat.add_zero]
  | succ n ih =>
    have hlt : i < cfg.initBurst := by omega
    obtain ⟨s', hrun, hpc', hctx⟩ := ih (i + 1)
      (s := { s with
        pc := .burst (i + 1)
        sample := { s.sample with timestampUs := 0 }
        writes := s.wrote { s.sample with timestampUs := 0 } true }) rfl (by omega)
    refine ⟨s', ?_, hpc', hctx⟩
    rw [List.replicate_succ]
    exact exec_cons.mpr ⟨_, pacedStep_still (by simp [pubStep, pubMain, hpc, hlt]) (by rw [hpc]; simp)
      (by rw [hpc]; rfl) (by norm_num), hrun⟩

/-- The warm-up leaves a loop that begins when it has settled, with nothing written in it. -/
theorem exec_pacedWarmup (ht : t = sleepFor cfg args .settle) (hn : t < 18446744073709551616)
    (history : Bool) (matchedPubs : ℤ) (results : Option Results) :
    ∃ s, exec (pacedStep T cfg args) (pubInit T args history matchedPubs results, ⟨0, 0, []⟩)
        (pacedWarmup cfg t) = some (s, ⟨t, t, []⟩) ∧
      s.pc = .loop ∧ s.t0 = t ∧ s.ctx.latencySem = .live false := by
  obtain ⟨s₁, h₁, hpc₁, hctx₁⟩ := exec_pacedBurst T cfg args cfg.initBurst 0
    (s := { pubInit T args history matchedPubs results with
      pc := .burst 0
      sample := warmupSample T cfg args T.create }) rfl (Nat.zero_add _)
  have hsplit : List.replicate (cfg.initBurst + 3) ((0, .main true) : ℕ × PubAction) =
      (0, .main true) :: (List.replicate cfg.initBurst (0, .main true) ++
        List.replicate 2 (0, .main true)) := by
    rw [List.replicate_succ, List.replicate_add]
  have hend : pubStep T cfg args s₁ (0, .main true) = some { s₁ with pc := .settle } := by
    simp [pubStep, pubMain, hpc₁]
  have hsettle : pacedStep T cfg args ({ s₁ with pc := .settle }, ⟨0, 0, []⟩) (0, .main true) =
      some ({ s₁ with pc := .reset, sample := T.resize s₁.sample args.datalen }, ⟨0, t, []⟩) := by
    rw [pacedStep_main rfl (Nat.le_refl _) (Nat.le_refl _) (by norm_num), ht]
    unfold Stopwatch.after
    rw [Nat.zero_add]
    rfl
  have hsettled : exec (pacedStep T cfg args) (pubInit T args history matchedPubs results, ⟨0, 0, []⟩)
      (List.replicate (cfg.initBurst + 3) (0, .main true)) =
        some ({ s₁ with pc := .reset, sample := T.resize s₁.sample args.datalen }, ⟨0, t, []⟩) := by
    rw [hsplit]
    exact exec_cons.mpr ⟨_, pacedStep_still rfl (by simp [pubInit]) rfl (by norm_num),
      exec_append.mpr ⟨_, h₁, exec_cons.mpr ⟨_, pacedStep_still hend (by rw [hpc₁]; simp)
        (by rw [hpc₁]; rfl) (by norm_num), exec_cons.mpr ⟨_, hsettle, rfl⟩⟩⟩⟩
  refine ⟨_, exec_append.mpr ⟨_, hsettled, exec_cons.mpr ⟨_, pacedStep_main rfl (Nat.zero_le _)
    (Nat.le_refl _) hn, exec_cons.mpr ⟨_, pacedStep_main rfl (Nat.le_refl _) (Nat.le_refl _) hn, rfl⟩⟩⟩,
    rfl, rfl, ?_⟩
  change s₁.ctx.latencySem = .live false
  rw [hctx₁]
  rfl

end Dense

/-- **The rate is exceeded** where the test has room for `k` pauses that drop a whole sample. -/
theorem exists_dense (T : TypeInterface) (cfg : Config) {args : InputArgs} (hr : 0 < args.pubrate)
    {k : ℕ} (hk : k ≤ 1000000) (hfit : k * (1000000 / args.pubrate.toNat) < timeoutUs args)
    (hdrop : 1000000 ≤ k * (1000000 % args.pubrate.toNat)) (history : Bool) (matchedPubs : ℤ)
    (results : Option Results) :
    ∃ es p o, exec (pacedStep T cfg args)
        (pubInit T args history matchedPubs results, ⟨0, 0, []⟩) es = some (p, o) ∧
      ∀ calls, (k * (1000000 / args.pubrate.toNat) * args.pubrate.toNat) ⌈/⌉ 1000000 + 1 <
        o.samplesIn calls 1000000 (k * (1000000 / args.pubrate.toNat)) := by
  obtain ⟨s, hs, hpc, ht0, hsem⟩ := exec_pacedWarmup T cfg args (t := 1000000) rfl (by norm_num) history
    matchedPubs results
  have hg := (sleepUs_of_pubrate cfg hr).symm
  have hpause : 1000000 / args.pubrate.toNat ≤ 1000000 := Nat.div_le_self _ _
  have hclock : (k + 1) * (1000000 / args.pubrate.toNat) ≤ 1000001 * 1000000 :=
    Nat.mul_le_mul (by omega) hpause
  obtain ⟨fs, p, hp, -, -, -⟩ := exec_pacedTurns (T := T) hg hpc hsem ht0 (k + 1)
    (fun i hi => Nat.lt_of_le_of_lt (Nat.mul_le_mul_right _ (by omega)) hfit) (by omega)
  refine ⟨_, p, _, exec_append.mpr ⟨_, hs, hp⟩, fun calls => ?_⟩
  have hall : ∀ l : List ℕ, (⟨1000000 + (k + 1) * (1000000 / args.pubrate.toNat),
      1000000 + (k + 1) * (1000000 / args.pubrate.toNat), l.map fun w => (w, true)⟩ : Stopwatch).samplesIn
        calls 1000000 (k * (1000000 / args.pubrate.toNat)) =
      inWindow 1000000 (k * (1000000 / args.pubrate.toNat)) l := by
    intro l
    unfold Stopwatch.samplesIn inWindow
    rw [List.countP_map]
    congr 1
    funext w
    simp
  rw [hall, inWindow_every]
  exact Nat.succ_lt_succ (ceilDiv_lt_of_gaps (by norm_num) hdrop)

/-- Pauses that drop a whole sample, as few as needed. -/
theorem exists_few_pauses {args : InputArgs} (h : ¬ RateFits args) :
    ∃ k ≤ 1000000, k * (1000000 / args.pubrate.toNat) < timeoutUs args ∧
      1000000 ≤ k * (1000000 % args.pubrate.toNat) := by
  rw [rateFits_iff] at h
  push Not at h
  obtain ⟨k, hk, hdrop⟩ := h
  by_cases hle : k ≤ 1000000
  · exact ⟨k, hle, hk, hdrop⟩
  · refine ⟨1000000, le_rfl, ?_, ?_⟩
    · exact Nat.lt_of_le_of_lt (Nat.mul_le_mul_right _ (by omega)) hk
    · have hpos : 0 < 1000000 % args.pubrate.toNat := by
        apply Nat.pos_of_ne_zero
        intro h0
        rw [h0] at hdrop
        omega
      omega

/-- **When the publisher keeps the requested rate.** Whatever the type, the compiled minimum sleep and the
other arguments are: no run exceeds the rate exactly if the test is over before the part of the pause that
the division drops adds up to a sample, at once for a rate that divides 1000000. It makes no difference
whether every call of `writer->write` counts or only those that succeed. -/
theorem rateKept_iff (T : TypeInterface) (cfg : Config) {args : InputArgs} (hr : 0 < args.pubrate)
    (calls : Bool) : RateKept T cfg args calls ↔ RateFits args := by
  refine ⟨fun h => ?_, rateKept_of_fits T cfg calls hr⟩
  by_contra hfits
  obtain ⟨k, hk, hfit, hdrop⟩ := exists_few_pauses hfits
  obtain ⟨es, p, o, hrun, hdense⟩ := exists_dense T cfg hr hk hfit hdrop false 1 none
  exact absurd (h false 1 none 0 es p o hrun _ _) (Nat.not_le_of_lt (hdense calls))

/-- 5000 samples a second, a pause of 200 microseconds. -/
theorem rateKept_five_thousand :
    RateKept sequenceType defaultConfig { publisherDefaults with pubrate := 5000 } true :=
  (rateKept_iff sequenceType defaultConfig (by decide) true).mpr (.inl (by decide))

/-- 600000 samples a second, a pause of one microsecond: four samples in three microseconds, where the rate
allows for three. -/
theorem not_rateKept_six_hundred_thousand :
    ¬ RateKept sequenceType defaultConfig { publisherDefaults with pubrate := 600000 } false := by
  intro h
  have hr : 0 < ({ publisherDefaults with pubrate := 600000 } : InputArgs).pubrate := by decide
  have hthree : 3 ≤ 1000000 := by decide
  obtain ⟨es, p, o, hrun, hdense⟩ := exists_dense sequenceType defaultConfig hr hthree (by decide)
    (by decide) false 1 none
  exact absurd (h false 1 none 0 es p o hrun _ _) (Nat.not_le_of_lt (hdense false))

end PerftestLite
