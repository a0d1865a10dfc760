import PerftestLite.Core.Types
import PerftestLite.Lib.Machine

/-!
# The subscriber engine

`subOnSample` is the sample callback: it updates the context and says which sample is written back
on the pong topic. `subStep` interleaves it, and the match callback, with the statements of the main
thread (`subMain`): the match poll, the reset block, the loop polling `finished` and the capture of
the result. Every event carries the clock reading at which it happens. A callback runs as a whole between two
statements; a periodic line is put together by several (`SubLinePc`), the capture is one.

* `subOnSample_data`, `subOnSample_initialization`, `subOnSample_finalization`;
* `subReceive`: the callback over a list of deliveries;
* `SubMain`, `subMain_cases`: what a step of the main thread can do.
-/

set_option autoImplicit false

namespace PerftestLite

open Word

structure SubCtx where
  totalReceived : ℕ
  currentSizeBytes : ℤ
  lastSeq : ℤ
  lostSamples : ℕ
  testStartUs : ℕ
  avgThroughputMbps : ℚ
  finished : Bool
  matchedPubs : ℤ
  deriving DecidableEq, Repr

/-- `memset(&ctx, 0, sizeof(ctx))`. -/
def SubCtx.zero : SubCtx := ⟨0, 0, 0, 0, 0, 0, false, 0⟩

/-! ## Callbacks -/

/-- `sub_on_reader_matched`. -/
def subOnReaderMatched (change : ℤ) (c : SubCtx) : SubCtx :=
  if change > 0 then { c with matchedPubs := c.matchedPubs + 1 }
  else if change < 0 then { c with matchedPubs := c.matchedPubs - 1 }
  else c

/-- `sub_on_sample`: the context after one sample, and the sample written on the pong topic. -/
def subOnSample (T : TypeInterface) (now : ℕ) (sample : PerftestSample) (c : SubCtx) :
    SubCtx × Option PerftestSample :=
  let size := T.getSampleSize sample
  match sample.kind with
  | .finalization =>
    if c.finished then (c, some sample)
    else
      let exp := sample.sequenceNumber
      -- trailing loss: the publisher stamps its last data number on the sample
      let lost := if exp > c.lastSeq then u64 (c.lostSamples + toU64 (i32 (exp - c.lastSeq)))
        else c.lostSamples
      ({ c with lostSamples := lost, finished := true }, some sample)
  | .initialization => (c, some sample)
  | .data | .dataPing =>
    let seq := sample.sequenceNumber
    let lost := if c.lastSeq ≠ 0 ∧ seq > i32 (c.lastSeq + 1)
      then u64 (c.lostSamples + toU64 (i32 (i32 (seq - c.lastSeq) - 1))) else c.lostSamples
    ({ c with
        lostSamples := lost
        lastSeq := seq
        totalReceived := c.totalReceived + 1
        currentSizeBytes := size
        testStartUs := if c.testStartUs = 0 then now else c.testStartUs },
      if sample.kind = .dataPing then some sample else none)

/-- The callback over the samples one after the other, each with its clock reading. -/
def subReceive (T : TypeInterface) (c : SubCtx) (ds : List (ℕ × PerftestSample)) : SubCtx :=
  ds.foldl (fun c d => (subOnSample T d.1 d.2 c).1) c

section Callbacks

variable {T : TypeInterface} {now : ℕ} {x : PerftestSample} {c : SubCtx}

theorem subOnSample_initialization (h : x.kind = .initialization) :
    subOnSample T now x c = (c, some x) := by
  simp [subOnSample, h]

theorem subOnSample_finished (h : x.kind = .finalization) (hf : c.finished = true) :
    subOnSample T now x c = (c, some x) := by
  simp [subOnSample, h, hf]

theorem subOnSample_finalization (h : x.kind = .finalization) (hf : c.finished = false) :
    subOnSample T now x c = ({ c with
      lostSamples := if x.sequenceNumber > c.lastSeq
        then u64 (c.lostSamples + toU64 (i32 (x.sequenceNumber - c.lastSeq))) else c.lostSamples
      finished := true }, some x) := by
  simp [subOnSample, h, hf]

theorem subOnSample_data (h : x.isData = true) :
    subOnSample T now x c = ({ c with
      lostSamples := if c.lastSeq ≠ 0 ∧ x.sequenceNumber > i32 (c.lastSeq + 1)
        then u64 (c.lostSamples + toU64 (i32 (i32 (x.sequenceNumber - c.lastSeq) - 1)))
        else c.lostSamples
      lastSeq := x.sequenceNumber
      totalReceived := c.totalReceived + 1
      currentSizeBytes := T.getSampleSize x
      testStartUs := if c.testStartUs = 0 then now else c.testStartUs },
      if x.kind = .dataPing then some x else none) := by
  unfold PerftestSample.isData PerftestTypeKind.isData at h
  cases hk : x.kind <;> simp_all [subOnSample]

/-- A sample that is not data moves the loss and `finished` at most. -/
theorem subOnSample_other (h : ¬ x.isData = true) :
    ∃ lost fin, (subOnSample T now x c).1 = { c with lostSamples := lost, finished := fin } := by
  rcases PerftestSample.kind_of_not_isData h with hk | hk
  · exact ⟨c.lostSamples, c.finished, by rw [subOnSample_initialization hk]⟩
  · cases hf : c.finished with
    | true => exact ⟨c.lostSamples, true, by rw [subOnSample_finished hk hf, ← hf]⟩
    | false => exact ⟨_, true, by rw [subOnSample_finalization hk hf]⟩

/-- Whatever is echoed is the sample itself, and plain `DATA` is not. -/
theorem subOnSample_echo :
    (subOnSample T now x c).2 = if x.kind = .data then none else some x := by
  cases hk : x.kind with
  | data => simp [subOnSample, hk]
  | dataPing => simp [subOnSample, hk]
  | initialization => simp [subOnSample, hk]
  | finalization => cases hf : c.finished <;> simp [subOnSample, hk, hf]

theorem subOnSample_finished_mono (hf : c.finished = true) :
    (subOnSample T now x c).1.finished = true := by
  cases hk : x.kind <;> simp [subOnSample, hk, hf]

theorem subReceive_cons (d : ℕ × PerftestSample) (ds : List (ℕ × PerftestSample)) :
    subReceive T c (d :: ds) = subReceive T (subOnSample T d.1 d.2 c).1 ds := rfl

theorem subReceive_append (ds es : List (ℕ × PerftestSample)) :
    subReceive T c (ds ++ es) = subReceive T (subReceive T c ds) es := List.foldl_append

end Callbacks

/-! ## The main thread -/

/-- The block that starts a measurement: every per-test counter is zeroed. -/
def subReset (c : SubCtx) : SubCtx :=
  { c with
    totalReceived := 0
    lastSeq := 0
    lostSamples := 0
    testStartUs := 0
    avgThroughputMbps := 0
    finished := false }

/-- `elapsed` of the captured result. -/
def subElapsed (now : ℕ) (c : SubCtx) : ℕ :=
  if c.testStartUs ≠ 0 then u64Sub now c.testStartUs else 0

/-- `final_mbps` of the captured result. -/
def subFinalMbps (elapsed : ℕ) (c : SubCtx) : ℚ :=
  if elapsed > 0 ∧ c.totalReceived > 0 then
    (c.totalReceived : ℚ) * c.currentSizeBytes * 8 / elapsed
  else 0

/-- The fields of the result entry the subscriber assigns; the others keep the storage's content. -/
def subFillResult (now : ℕ) (c : SubCtx) (r : SizeResult) : SizeResult :=
  { r with
    sizeBytes := c.currentSizeBytes
    totalSamples := c.totalReceived
    avgLatencyUs := 0
    minLatencyUs := 0
    maxLatencyUs := 0
    avgThroughputMbps := subFinalMbps (subElapsed now c) c
    lostSamples := c.lostSamples
    elapsedUs := subElapsed now c }

/-- The statements of one periodic line, with what has been computed for it. -/
inductive SubLinePc
  | delta (now : ℕ)
  | last (now delta : ℕ)
  | mbps (now : ℕ) (sps : ℚ)
  | print (now : ℕ) (sps mbps : ℚ)
  deriving DecidableEq, Repr

/-- Where the main thread stands, from the moment the listener is live until `shutdown`. -/
inductive SubPc
  | waitMatch
  | reset
  | poll
  | sleep
  | stat
  | line (l : SubLinePc)
  | capture
  | shutdown
  | done
  deriving DecidableEq, Repr

structure SubState where
  pc : SubPc
  ctx : SubCtx
  tLastPrint : ℕ
  lastCount : ℕ
  results : Option Results
  deriving DecidableEq

/-- The subscriber when its ping reader has just been created. -/
def subInit (results : Option Results) : SubState where
  pc := .waitMatch
  ctx := .zero
  tLastPrint := 0
  lastCount := 0
  results := results

/-- One statement of a periodic line; `total_received` is read for the difference and again for `last_count`. -/
def subLineStep (s : SubState) : SubLinePc → SubState
  | .delta now => { s with pc := .line (.last now (s.ctx.totalReceived - s.lastCount)) }
  | .last now delta =>
    { s with
      pc := .line (.mbps now ((delta : ℚ) * 1000000 / u64Sub now s.tLastPrint))
      lastCount := s.ctx.totalReceived
      tLastPrint := now }
  | .mbps now sps =>
    let mbps := sps * s.ctx.currentSizeBytes * 8 / 1000000
    { s with pc := .line (.print now sps mbps), ctx := { s.ctx with avgThroughputMbps := mbps } }
  | .print _ _ _ => { s with pc := .poll }

/-- The capture of the result. -/
def subCapture (now : ℕ) (s : SubState) : SubState :=
  match s.results with
  | some r =>
    if r.hasRoom then
      { s with
        results := some (r.push (subFillResult now s.ctx))
        ctx := { s.ctx with avgThroughputMbps := subFinalMbps (subElapsed now s.ctx) s.ctx } }
    else s
  | none => s

/-- The next statement of the main thread. -/
def subMain (args : InputArgs) (now : ℕ) (s : SubState) : Option SubState :=
  match s.pc with
  | .waitMatch => if s.ctx.matchedPubs < 1 then some s else some { s with pc := .reset }
  | .reset => some { s with pc := .poll, ctx := subReset s.ctx, tLastPrint := now, lastCount := 0 }
  | .poll => some { s with pc := if s.ctx.finished then .capture else .sleep }
  | .sleep => some { s with pc := .stat }
  | .stat =>
    some { s with
      pc := if args.printEverySecond ∧ u64Sub now s.tLastPrint ≥ 1000000 then .line (.delta now) else .poll }
  | .line l => some (subLineStep s l)
  | .capture => some { subCapture now s with pc := .shutdown }
  | .shutdown => some { s with pc := .done }
  | .done => none

/-- What one statement of the main thread can do. -/
inductive SubMain (args : InputArgs) (now : ℕ) (s : SubState) : SubState → Prop
  | waiting : s.pc = .waitMatch → s.ctx.matchedPubs < 1 → SubMain args now s s
  | matched : s.pc = .waitMatch → ¬ s.ctx.matchedPubs < 1 → SubMain args now s { s with pc := .reset }
  | reset : s.pc = .reset →
      SubMain args now s { s with
        pc := .poll, ctx := subReset s.ctx, tLastPrint := now, lastCount := 0 }
  | finished : s.pc = .poll → s.ctx.finished = true → SubMain args now s { s with pc := .capture }
  | again : s.pc = .poll → s.ctx.finished = false → SubMain args now s { s with pc := .sleep }
  | sleep : s.pc = .sleep → SubMain args now s { s with pc := .stat }
  | stat : s.pc = .stat → ¬ (args.printEverySecond = true ∧ u64Sub now s.tLastPrint ≥ 1000000) →
      SubMain args now s { s with pc := .poll }
  | statLine : s.pc = .stat → args.printEverySecond = true → 1000000 ≤ u64Sub now s.tLastPrint →
      SubMain args now s { s with pc := .line (.delta now) }
  | line (l : SubLinePc) : s.pc = .line l → SubMain args now s (subLineStep s l)
  | capture : s.pc = .capture → SubMain args now s { subCapture now s with pc := .shutdown }
  | shutdown : s.pc = .shutdown → SubMain args now s { s with pc := .done }

/-- **Every step of the main thread is one of `SubMain`.** -/
theorem subMain_cases {args : InputArgs} {now : ℕ} {s s' : SubState}
    (h : subMain args now s = some s') : SubMain args now s s' := by
  unfold subMain at h
  split at h
  case h_1 hpc =>
    split_ifs at h with hm
    · cases h; exact .waiting hpc hm
    · cases h; exact .matched hpc hm
  case h_2 hpc => cases h; exact .reset hpc
  case h_3 hpc =>
    cases h
    cases hf : s.ctx.finished with
    | true => exact .finished hpc hf
    | false => exact .again hpc hf
  case h_4 hpc => cases h; exact .sleep hpc
  case h_5 hpc =>
    cases h
    by_cases hline : args.printEverySecond = true ∧ u64Sub now s.tLastPrint ≥ 1000000
    · simpa only [if_pos hline] using SubMain.statLine hpc hline.1 hline.2
    · simpa only [if_neg hline] using SubMain.stat hpc hline
  case h_6 l hpc => cases h; exact .line l hpc
  case h_7 hpc => cases h; exact .capture hpc
  case h_8 hpc => cases h; exact .shutdown hpc
  case h_9 hpc => cases h

inductive SubAction
  | main
  | sample (x : PerftestSample)
  | matched (change : ℤ)
  deriving DecidableEq, Repr

/-- One step of the subscriber; callbacks end with `shutdown`. -/
def subStep (T : TypeInterface) (args : InputArgs) (s : SubState) : ℕ × SubAction → Option SubState
  | (now, .main) => subMain args now s
  | (now, .sample x) =>
    if s.pc = .done then none else some { s with ctx := (subOnSample T now x s.ctx).1 }
  | (_, .matched change) =>
    if s.pc = .done then none else some { s with ctx := subOnReaderMatched change s.ctx }

end PerftestLite
