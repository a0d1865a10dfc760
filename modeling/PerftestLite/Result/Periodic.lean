import PerftestLite.Capture.Forgotten
import PerftestLite.Lib.Observer
import PerftestLite.Lib.Rate

/-!
# A line every second

While it polls, the subscriber prints the rate of the samples received since its last line. The counter is read
twice for it, once to be shown and once to be remembered, and a sample may come in between. A log follows the
run: it counts the data samples itself and notes the window of each line.

* `subLine`: the numbers of the line;
* `Window`, `LineLog`, `watchLines`: the subscriber and the log, with a clock that does not go back;
* `Window.Exact`, `SubLinePc.Shows`, `LineInv`, `lineInv_step`: each line shows the rate of its window;
* `lines_tile_test`.
-/

set_option autoImplicit false

namespace PerftestLite

open Word Machine Rate

/-- The numbers of one line: `t(s)`, `size(B)`, `samples/s`, `Mbps` and `lost`. -/
structure SubLine where
  seconds : ℕ
  sizeBytes : ℤ
  sps : ℚ
  mbps : ℚ
  lost : ℕ
  deriving DecidableEq, Repr

/-- The line, printed once its throughput has been stored. -/
def subLine (now : ℕ) (sps mbps : ℚ) (s : SubState) : SubLine where
  seconds := u64Sub now (if s.ctx.testStartUs ≠ 0 then s.ctx.testStartUs else now) / 1000000
  sizeBytes := s.ctx.currentSizeBytes
  sps := sps
  mbps := mbps
  lost := s.ctx.lostSamples

/-! ## The log -/

/-- What a line is about: two readings of the clock, the data samples it shows for the time between them and the
size it takes them to have. -/
structure Window where
  start : ℕ
  stop : ℕ
  samples : ℕ
  size : ℤ
  line : SubLine
  deriving DecidableEq, Repr

/-- The last reading of the clock and the reading at the reset block; the start of the window that is open, what
is in it, what is in the window of the line that is being put together, and the size taken for that; the samples
that came between the two readings of the counter; and the windows of the lines printed. -/
structure LineLog where
  clock : ℕ
  resetAt : ℕ
  start : ℕ
  samples : ℕ
  current : ℕ
  size : ℤ
  missed : ℕ
  windows : List Window
  deriving DecidableEq, Repr

/-- What a statement of a line does to the log. -/
def LineLog.line (s : SubState) (o : LineLog) : SubLinePc → LineLog
  | .delta _ => { o with current := o.samples, samples := 0 }
  | .last _ _ => { o with missed := o.missed + o.samples, samples := 0 }
  | .mbps _ _ => { o with size := s.ctx.currentSizeBytes }
  | .print now sps mbps =>
    { o with
      start := now
      current := 0
      windows := o.windows ++ [⟨o.start, now, o.current, o.size, subLine now sps mbps s⟩] }

/-- The log at the reset block. -/
def LineLog.new (now : ℕ) : LineLog := ⟨now, now, now, 0, 0, 0, 0, []⟩

/-- What a statement does to the log. -/
def LineLog.statement (now : ℕ) (s : SubState) (o : LineLog) : LineLog :=
  match s.pc with
  | .reset => .new now
  | .line l => { o.line s l with clock := now }
  | _ => { o with clock := now }

/-- A window of a second or more, the rate shown for it and the payload that makes. -/
structure Window.Exact (w : Window) : Prop where
  long : w.start + 1000000 ≤ w.stop
  rate : w.line.sps * ((w.stop - w.start : ℕ) : ℚ) = w.samples * 1000000
  payload : w.line.mbps * ((w.stop - w.start : ℕ) : ℚ) = w.samples * w.size * 8

/-- The reading of the clock that a line is about. -/
def SubLinePc.now : SubLinePc → ℕ
  | .delta now | .last now _ | .mbps now _ | .print now _ _ => now

/-- What has been computed for the line, against the log. -/
def SubLinePc.Shows (o : LineLog) : SubLinePc → Prop
  | .delta _ => o.current = 0
  | .last _ d => d = o.current
  | .mbps now sps => sps * ((now - o.start : ℕ) : ℚ) = o.current * 1000000
  | .print now sps payload =>
    sps * ((now - o.start : ℕ) : ℚ) = o.current * 1000000 ∧
      payload * ((now - o.start : ℕ) : ℚ) = o.current * o.size * 8

/-- How far the line is: nothing read, the counter read once, the counter read twice. -/
def SubPc.stage : SubPc → ℕ
  | .line (.last _ _) => 1
  | .line (.mbps _ _) | .line (.print _ _ _) => 2
  | _ => 0

/-- The subscriber and its log agree. -/
structure LineInv (s : SubState) (o : LineLog) : Prop where
  started : o.start ≤ o.clock
  word : o.clock < 18446744073709551616
  start : s.pc.stage < 2 → s.tLastPrint = o.start
  counted : s.ctx.totalReceived = s.lastCount + (if s.pc.stage = 1 then o.current else 0) + o.samples
  idle : s.pc.stage = 0 → o.current = 0
  total : (o.windows.map Window.samples).sum + o.current + o.missed + o.samples = s.ctx.totalReceived
  tiles : Tiles Window.start Window.stop o.resetAt o.windows o.start
  exact : ∀ w ∈ o.windows, w.Exact
  line : ∀ l, s.pc = .line l → o.start + 1000000 ≤ l.now ∧ l.now ≤ o.clock ∧ l.Shows o
  last : ∀ l, s.pc = .line l → s.pc.stage = 2 → s.tLastPrint = l.now

variable {T : TypeInterface} {args : InputArgs} {s s' : SubState} {o o' : LineLog} {l : SubLinePc} {now : ℕ}

/-- Where no sample is counted and no line is put together. -/
theorem LineInv.still (h : LineInv s o) (hclock : o.clock ≤ now) (hnow : now < 18446744073709551616)
    (hstage : s.pc.stage = 0) (hpc : ∀ l, s'.pc ≠ .line l) (ht : s'.tLastPrint = s.tLastPrint)
    (hl : s'.lastCount = s.lastCount) (hc : s'.ctx.totalReceived = s.ctx.totalReceived) :
    LineInv s' { o with clock := now } := by
  have hstage' : s'.pc.stage = 0 := by
    cases hp : s'.pc with
    | line l => exact absurd hp (hpc l)
    | _ => rfl
  have hcounted := h.counted
  rw [hstage] at hcounted
  refine ⟨h.started.trans hclock, hnow, fun _ => ht.trans (h.start (by omega)), ?_, fun _ => h.idle hstage,
    ?_, h.tiles, h.exact, fun l hl => absurd hl (hpc l), fun l hl => absurd hl (hpc l)⟩
  · rw [hc, hl, hstage']
    exact hcounted
  · rw [hc]
    exact h.total

/-- **A line begins**, a second or more after the one before. -/
theorem LineInv.begin (h : LineInv s o) (hclock : o.clock ≤ now) (hnow : now < 18446744073709551616)
    (hpc : s.pc = .stat) (hsecond : 1000000 ≤ u64Sub now s.tLastPrint) :
    LineInv { s with pc := .line (.delta now) } { o with clock := now } := by
  have hstage : s.pc.stage = 0 := by rw [hpc]; rfl
  have hcounted := h.counted
  rw [hstage] at hcounted
  have hsub : u64Sub now s.tLastPrint = now - o.start := by
    rw [h.start (by omega)]
    exact u64Sub_of_le (h.started.trans hclock) hnow
  refine ⟨h.started.trans hclock, hnow, fun _ => h.start (by omega), hcounted, fun _ => h.idle hstage, h.total,
    h.tiles, h.exact, fun l hl => ?_, fun l hl h2 => (by cases h2)⟩
  cases hl
  refine ⟨?_, le_rfl, h.idle hstage⟩
  change o.start + 1000000 ≤ now
  omega

/-- **A statement of a line.** -/
theorem LineInv.next (h : LineInv s o) (hclock : o.clock ≤ now) (hnow : now < 18446744073709551616)
    (hpc : s.pc = .line l) : LineInv (subLineStep s l) { o.line s l with clock := now } := by
  obtain ⟨hlong, hle, hshows⟩ := h.line l hpc
  have hcounted := h.counted
  have htotal := h.total
  cases l with
  | delta t =>
    have hstage : s.pc.stage = 0 := by rw [hpc]; rfl
    have hidle := h.idle hstage
    rw [hstage, if_neg (by decide)] at hcounted
    refine ⟨h.started.trans hclock, hnow, fun _ => h.start (by omega), ?_, fun h0 => (by cases h0), ?_, h.tiles,
      h.exact, fun l hl => ?_, fun l hl h2 => (by cases h2)⟩
    · change s.ctx.totalReceived = s.lastCount + o.samples + 0
      omega
    · change (o.windows.map Window.samples).sum + o.samples + o.missed + 0 = s.ctx.totalReceived
      omega
    · cases hl
      refine ⟨hlong, hle.trans hclock, ?_⟩
      change s.ctx.totalReceived - s.lastCount = o.samples
      omega
  | last t delta =>
    have hstage : s.pc.stage = 1 := by rw [hpc]; rfl
    have hstart := h.start (by omega)
    have hdelta : delta = o.current := hshows
    have hsub : u64Sub t s.tLastPrint = t - o.start := by
      rw [hstart]
      exact u64Sub_of_le ((Nat.le_add_right _ _).trans hlong) (hle.trans_lt h.word)
    have hne : ((t - o.start : ℕ) : ℚ) ≠ 0 := by
      rw [Nat.cast_ne_zero]
      have : o.start + 1000000 ≤ t := hlong
      omega
    refine ⟨h.started.trans hclock, hnow, fun h2 => absurd (show 2 < 2 from h2) (lt_irrefl 2), rfl,
      fun h0 => (by cases h0), ?_, h.tiles, h.exact, fun l hl => ?_, fun l hl _ => (by cases hl; rfl)⟩
    · change (o.windows.map Window.samples).sum + o.current + (o.missed + o.samples) + 0 = s.ctx.totalReceived
      omega
    · cases hl
      refine ⟨hlong, hle.trans hclock, ?_⟩
      change (delta : ℚ) * 1000000 / (u64Sub t s.tLastPrint : ℕ) * ((t - o.start : ℕ) : ℚ) = o.current * 1000000
      rw [hsub, hdelta]
      exact div_mul_cancel₀ _ hne
  | mbps t sps =>
    have hstage : s.pc.stage = 2 := by rw [hpc]; rfl
    have hrate : sps * ((t - o.start : ℕ) : ℚ) = o.current * 1000000 := hshows
    rw [hstage, if_neg (by decide)] at hcounted
    refine ⟨h.started.trans hclock, hnow, fun h2 => absurd (show 2 < 2 from h2) (lt_irrefl 2), hcounted,
      fun h0 => (by cases h0), htotal, h.tiles, h.exact, fun l hl => ?_, fun l hl _ => ?_⟩
    · cases hl
      refine ⟨hlong, hle.trans hclock, hrate, ?_⟩
      change sps * s.ctx.currentSizeBytes * 8 / 1000000 * ((t - o.start : ℕ) : ℚ) =
        o.current * s.ctx.currentSizeBytes * 8
      calc sps * s.ctx.currentSizeBytes * 8 / 1000000 * ((t - o.start : ℕ) : ℚ)
          = sps * ((t - o.start : ℕ) : ℚ) * s.ctx.currentSizeBytes * 8 / 1000000 := by ring
        _ = o.current * 1000000 * s.ctx.currentSizeBytes * 8 / 1000000 := by rw [hrate]
        _ = o.current * s.ctx.currentSizeBytes * 8 := by ring
    · cases hl
      exact h.last (.mbps t sps) hpc hstage
  | print t sps mbps =>
    have hstage : s.pc.stage = 2 := by rw [hpc]; rfl
    obtain ⟨hrate, hpayload⟩ := hshows
    rw [hstage, if_neg (by decide)] at hcounted
    have htime : t ≤ o.clock := hle
    refine ⟨htime.trans hclock, hnow, fun _ => h.last _ hpc hstage, hcounted, fun _ => rfl, ?_,
      h.tiles.snoc rfl, fun w hw => ?_, fun l hl => (by cases hl), fun l hl => (by cases hl)⟩
    · change ((o.windows ++ [_]).map Window.samples).sum + 0 + o.missed + o.samples = s.ctx.totalReceived
      rw [List.map_append, List.sum_append, List.map_singleton, List.sum_singleton]
      exact htotal
    · rcases List.mem_append.mp hw with hw | hw
      · exact h.exact w hw
      · rw [List.mem_singleton.mp hw]
        exact ⟨hlong, hrate, hpayload⟩

/-- **A callback**, which may count a sample. -/
theorem LineInv.callback (h : LineInv s o) (hclock : o.clock ≤ now) (hnow : now < 18446744073709551616)
    {ctx : SubCtx} {k : ℕ} (hctx : ctx.totalReceived = s.ctx.totalReceived + k) :
    LineInv { s with ctx := ctx } { o with clock := now, samples := o.samples + k } := by
  refine ⟨h.started.trans hclock, hnow, h.start, ?_, h.idle, ?_, h.tiles, h.exact, fun l hl => ?_, h.last⟩
  · change ctx.totalReceived = s.lastCount + (if s.pc.stage = 1 then o.current else 0) + (o.samples + k)
    rw [hctx, h.counted]
    omega
  · change (o.windows.map Window.samples).sum + o.current + o.missed + (o.samples + k) = ctx.totalReceived
    rw [hctx, ← h.total, ← Nat.add_assoc]
  · obtain ⟨hlong, hle, hshows⟩ := h.line l hl
    refine ⟨hlong, hle.trans hclock, ?_⟩
    cases l <;> exact hshows

end PerftestLite
