import PerftestLite.Core.Types
import PerftestLite.Lib.Machine

/-!
# The publisher engine

`pubOnPongSample` is the pong callback. `pubMain` runs `run_one_size` and the finalization loop of
`perftest_lite_publisher` statement by statement; `pubStep` interleaves it with the callbacks. An
event carries the clock reading at which it happens and, for a statement that calls out, whether the
call succeeded: `writer->write` returned zero, `semaphore_take` consumed a token. A callback runs as a whole
between two statements, and a statement reads at most one of the latency statistics: a periodic line (`LinePc`)
and the result (`FinishPc`) are put together from several.

The state has three ghost fields that no statement reads: `writes` (every call of `writer->write`
with its outcome), `checks` (the clock readings of the loop condition) and `records` (the pongs that
were counted since the statistics were reset).
-/

set_option autoImplicit false

namespace PerftestLite

open Word

/-- The binary latency semaphore behind its pointer. -/
inductive Semaphore
  | null
  | live (token : Bool)
  | deleted
  deriving DecidableEq, Repr

/-- `semaphore_give`. -/
def Semaphore.give : Semaphore → Semaphore
  | .live _ => .live true
  | s => s

/-- A token is there to be taken. -/
def Semaphore.token : Semaphore → Bool
  | .live b => b
  | _ => false

/-- `semaphore_take` that consumes the token. -/
def Semaphore.take : Semaphore → Semaphore
  | .live _ => .live false
  | s => s

structure PubCtx where
  matchedSubs : ℤ
  matchedPubs : ℤ
  finishedRemote : Bool
  latencySem : Semaphore
  latSumUs : ℕ
  latCount : ℕ
  latMinUs : ℕ
  latMaxUs : ℕ
  /-- The filled part of the history buffer; `none` is a null pointer. -/
  latHistory : Option (List ℕ)
  /-- The lines of the log file; `none` is a null pointer. -/
  latencyLog : Option (List (ℕ × ℕ))
  latencyStream : Bool
  /-- The `[LAT]` lines printed so far. -/
  latLines : List (ℕ × ℕ)
  testStartUs : ℕ
  lastSeq : ℤ
  deriving DecidableEq, Repr

/-- `(uint64_t)-1`, the minimum of no latency. -/
def noLatency : ℕ := 18446744073709551615

/-! ## The pong callback -/

/-- `pub_on_reader_matched`. -/
def pubOnReaderMatched (change : ℤ) (c : PubCtx) : PubCtx :=
  if change > 0 then { c with matchedPubs := c.matchedPubs + 1 }
  else if change < 0 then { c with matchedPubs := c.matchedPubs - 1 }
  else c

/-- Half the round trip. -/
def pongLatency (now ts : ℕ) : ℕ := if now > ts then (now - ts) / 2 else 0

/-- One entry of the history, saturated, while there is room. -/
def recordHistory (cfg : Config) (latency : ℕ) (h : List ℕ) : List ℕ :=
  if h.length < cfg.latencyHistorySize then
    h ++ [if latency > 4294967295 then 4294967295 else latency]
  else h

/-- The part of `pub_on_pong_sample` below the kind checks: record one latency, then signal. -/
def recordPong (cfg : Config) (now ts : ℕ) (c : PubCtx) : PubCtx :=
  let latency := pongLatency now ts
  let elapsed := if now > c.testStartUs then now - c.testStartUs else 0
  { c with
    latSumUs := u64 (c.latSumUs + latency)
    latCount := c.latCount + 1
    latMaxUs := if latency > c.latMaxUs then latency else c.latMaxUs
    latMinUs := if latency < c.latMinUs then latency else c.latMinUs
    latHistory := c.latHistory.map (recordHistory cfg latency)
    latencyLog := c.latencyLog.map (· ++ [(elapsed, latency)])
    latLines := if c.latencyStream then c.latLines ++ [(u32 elapsed, u32 latency)] else c.latLines
    latencySem := c.latencySem.give }

/-- `pub_on_pong_sample`. -/
def pubOnPongSample (cfg : Config) (now : ℕ) (sample : PerftestSample) (c : PubCtx) : PubCtx :=
  match sample.kind with
  | .initialization => c
  | .finalization => { c with finishedRemote := true }
  | .data | .dataPing => recordPong cfg now sample.timestampUs c

theorem pubOnPongSample_data (cfg : Config) (now : ℕ) {x : PerftestSample} (h : x.isData = true)
    (c : PubCtx) : pubOnPongSample cfg now x c = recordPong cfg now x.timestampUs c := by
  unfold PerftestSample.isData PerftestTypeKind.isData at h
  cases hk : x.kind <;> simp_all [pubOnPongSample]

/-- A pong that is no data sample raises the flag at most. -/
theorem pubOnPongSample_other (cfg : Config) (now : ℕ) {x : PerftestSample} (h : ¬ x.isData = true)
    (c : PubCtx) : ∃ b, pubOnPongSample cfg now x c = { c with finishedRemote := b } := by
  rcases PerftestSample.kind_of_not_isData h with hk | hk
  · exact ⟨c.finishedRemote, by simp [pubOnPongSample, hk]⟩
  · exact ⟨true, by simp [pubOnPongSample, hk]⟩

/-! ## The main thread -/

/-- The statements of one periodic line, with what has been read for it. -/
inductive LinePc
  | count (now : ℕ)
  | average (now sum : ℕ)
  | minimum (now avg : ℕ)
  | range (now avg mn : ℕ)
  deriving DecidableEq, Repr

/-- The statements that fill the result; `average` has read the sum. -/
inductive FinishPc
  | sort
  | percentiles
  | elapsed
  | received
  | count
  | average (sum : ℕ)
  | minimum
  | maximum
  deriving DecidableEq, Repr

/-- Where the main thread stands. `wait since` is inside `semaphore_take`, called at `since`. -/
inductive PubPc
  | warmup
  | burst (i : ℕ)
  | settle
  | reset
  | begin
  | loop
  | prepare
  | write
  | wait (since : ℕ)
  | sleep
  | tick
  | line (l : LinePc)
  | finish (f : FinishPc)
  | report
  | final (k : ℕ)
  | finalSleep (k : ℕ)
  | shutdown
  | done
  deriving DecidableEq, Repr

structure PubState where
  pc : PubPc
  ctx : PubCtx
  sample : PerftestSample
  t0 : ℕ
  tNextPrint : ℕ
  total : ℕ
  seq : ℤ
  tmp : SizeResult
  results : Option Results
  writes : List (PerftestSample × Bool)
  checks : List ℕ
  records : List (ℕ × PerftestSample)
  deriving DecidableEq

/-- `is_ping`. -/
def isPing (args : InputArgs) (seq : ℤ) : Bool :=
  args.latencyTest || (decide (args.latencyCount > 0) && decide (seq.tmod args.latencyCount = 0))

/-- `timeout_us`. -/
def timeoutUs (args : InputArgs) : ℕ := u64 (toU64 args.execSeconds * 1000000)

/-- `sleep_us`, the pause after each sample. -/
def sleepUs (cfg : Config) (args : InputArgs) : ℤ :=
  if args.pubrate > 0 then 1000000 / args.pubrate else cfg.pubMinSleepUs

/-- The timeout handed to `semaphore_take`, in milliseconds; negative is an infinite wait. -/
def takeTimeoutMs (args : InputArgs) : ℤ := if args.reliable then -1 else 200

/-- A wait begun at `since` may give up at `now`. -/
def takeExpired (args : InputArgs) (since now : ℕ) : Bool :=
  decide (0 ≤ takeTimeoutMs args) && decide ((since : ℤ) + takeTimeoutMs args * 1000 ≤ now)

/-- Label the sample for the warm-up burst; the test size stays where the init size does not fit. -/
def warmupSample (T : TypeInterface) (cfg : Config) (args : InputArgs) (x : PerftestSample) :
    PerftestSample :=
  let x := { x with kind := .initialization }
  match T.setSampleSize x cfg.initSampleSize with
  | (true, y) => y
  | (false, y) => T.resize y args.datalen

/-- Reset the per-size statistics. -/
def resetStats (c : PubCtx) : PubCtx :=
  { c with
    latSumUs := 0
    latCount := 0
    latMinUs := noLatency
    latMaxUs := 0
    latHistory := c.latHistory.map fun _ => [] }

/-- `lat_history[n * p / 100]`, the product in `uint32_t`. -/
def percentile (h : List ℕ) (p : ℕ) : ℕ := h.getD (u32 (h.length * p) / 100) 0

/-- The next statement of a line, none behind the print. The count only grows and the minimum only falls: the
condition on either and the value used with it are one reading. -/
def LinePc.next (c : PubCtx) : LinePc → Option LinePc
  | .count now => some (if c.latCount ≠ 0 then .average now c.latSumUs else .minimum now 0)
  | .average now sum => some (.minimum now (sum / c.latCount))
  | .minimum now avg => some (.range now avg (if c.latMinUs = noLatency then 0 else c.latMinUs))
  | .range _ _ _ => none

/-- The history is null or empty. -/
def PubCtx.noHistory (c : PubCtx) : Bool := (c.latHistory.getD []).isEmpty

/-- The next statement of the result, none behind the last. -/
def FinishPc.next (c : PubCtx) : FinishPc → Option FinishPc
  | .sort => some (if c.noHistory then .elapsed else .percentiles)
  | .percentiles => some .elapsed
  | .elapsed => some .received
  | .received => some .count
  | .count => some (if c.latCount ≠ 0 then .average c.latSumUs else .minimum)
  | .average _ => some .minimum
  | .minimum => some .maximum
  | .maximum => none

/-- `qsort` of the history. -/
def FinishPc.sorted (h : Option (List ℕ)) : FinishPc → Option (List ℕ)
  | .sort => h.map List.mergeSort
  | _ => h

/-- `ctx->last_seq = seq`. -/
def FinishPc.stored (seq last : ℤ) : FinishPc → ℤ
  | .elapsed => seq
  | _ => last

/-- What a statement assigns in the result, which no other thread sees. -/
def FinishPc.assign (args : InputArgs) (now : ℕ) (s : PubState) : FinishPc → SizeResult
  | .sort =>
    if s.ctx.noHistory then { s.tmp with p50LatencyUs := 0, p90LatencyUs := 0, p99LatencyUs := 0 } else s.tmp
  | .percentiles =>
    { s.tmp with
      p50LatencyUs := percentile (s.ctx.latHistory.getD []) 50
      p90LatencyUs := percentile (s.ctx.latHistory.getD []) 90
      p99LatencyUs := percentile (s.ctx.latHistory.getD []) 99 }
  | .elapsed =>
    { s.tmp with
      sizeBytes := args.datalen
      totalSamples := s.total
      avgThroughputMbps := 0
      lostSamples := 0
      elapsedUs := u64Sub now s.t0 }
  | .received => { s.tmp with latencySamplesReceived := s.ctx.latCount }
  | .count => if s.ctx.latCount ≠ 0 then s.tmp else { s.tmp with avgLatencyUs := 0 }
  | .average sum => { s.tmp with avgLatencyUs := sum / s.ctx.latCount }
  | .minimum => { s.tmp with minLatencyUs := if s.ctx.latMinUs = noLatency then 0 else s.ctx.latMinUs }
  | .maximum => { s.tmp with maxLatencyUs := s.ctx.latMaxUs }

/-- `results->sizes[results->size_count++] = tmp` where there is room. -/
def appendResult (tmp : SizeResult) (r : Option Results) : Option Results :=
  r.map fun r => if r.hasRoom then r.push fun _ => tmp else r

/-- One call of `writer->write`, remembered with its outcome. -/
def PubState.wrote (s : PubState) (x : PerftestSample) (ok : Bool) : List (PerftestSample × Bool) :=
  s.writes ++ [(x, ok)]

/-- The next statement of the main thread at clock reading `now`; `ok` is the outcome of the call it
makes, if it makes one. -/
def pubMain (T : TypeInterface) (cfg : Config) (args : InputArgs) (now : ℕ) (ok : Bool)
    (s : PubState) : Option PubState :=
  match s.pc with
  | .warmup => some { s with pc := .burst 0, sample := warmupSample T cfg args s.sample }
  | .burst i =>
    if i < cfg.initBurst then
      let x := { s.sample with timestampUs := now }
      some { s with pc := .burst (i + 1), sample := x, writes := s.wrote x ok }
    else some { s with pc := .settle }
  | .settle => some { s with pc := .reset, sample := T.resize s.sample args.datalen }
  | .reset => some { s with pc := .begin, ctx := resetStats s.ctx, records := [] }
  | .begin =>
    some { s with
      pc := .loop
      t0 := now
      ctx := { s.ctx with testStartUs := now }
      tNextPrint := u64 (now + 1000000)
      total := 0
      seq := 0 }
  | .loop =>
    some { s with
      pc := if u64Sub now s.t0 < timeoutUs args then .prepare else .finish .sort
      checks := s.checks ++ [now] }
  | .prepare =>
    let seq := i32 (s.seq + 1)
    some { s with
      pc := .write
      seq := seq
      sample := { s.sample with
        sequenceNumber := seq
        timestampUs := now
        kind := if isPing args seq then .dataPing else .data } }
  | .write =>
    some { s with
      pc := if ok && isPing args s.seq && args.latencyTest then .wait now else .sleep
      total := if ok then s.total + 1 else s.total
      writes := s.wrote s.sample ok }
  | .wait since =>
    if ok then
      if s.ctx.latencySem.token then
        some { s with pc := .sleep, ctx := { s.ctx with latencySem := s.ctx.latencySem.take } }
      else none
    else if s.ctx.latencySem.token = false ∧ takeExpired args since now = true then
      some { s with pc := .sleep }
    else none
  | .sleep => some { s with pc := .tick }
  | .tick =>
    if args.printEverySecond ∧ now ≥ s.tNextPrint then
      some { s with pc := .line (.count now), tNextPrint := u64 (now + 1000000) }
    else some { s with pc := .loop }
  | .line l => some { s with pc := (l.next s.ctx).elim .loop .line }
  | .finish f =>
    some { s with
      pc := (f.next s.ctx).elim .report .finish
      ctx := { s.ctx with
        latHistory := f.sorted s.ctx.latHistory
        lastSeq := f.stored s.seq s.ctx.lastSeq }
      tmp := f.assign args now s }
  | .report =>
    some { s with
      pc := .final 0
      results := appendResult s.tmp s.results
      sample := { s.sample with kind := .finalization, sequenceNumber := s.ctx.lastSeq } }
  | .final k =>
    if k < 10 ∧ s.ctx.finishedRemote = false then
      some { s with pc := .finalSleep k, writes := s.wrote s.sample ok }
    else some { s with pc := .shutdown }
  | .finalSleep k => some { s with pc := .final (k + 1) }
  | .shutdown => some { s with pc := .done }
  | .done => none

/-- What one statement of the main thread can do, guard by guard. -/
inductive PubMain (T : TypeInterface) (cfg : Config) (args : InputArgs) (now : ℕ) (ok : Bool)
    (s : PubState) : PubState → Prop
  | warmup : s.pc = .warmup →
      PubMain T cfg args now ok s { s with pc := .burst 0, sample := warmupSample T cfg args s.sample }
  | burst (i : ℕ) : s.pc = .burst i → i < cfg.initBurst →
      PubMain T cfg args now ok s { s with
        pc := .burst (i + 1)
        sample := { s.sample with timestampUs := now }
        writes := s.wrote { s.sample with timestampUs := now } ok }
  | burstEnd (i : ℕ) : s.pc = .burst i → ¬ i < cfg.initBurst →
      PubMain T cfg args now ok s { s with pc := .settle }
  | settle : s.pc = .settle →
      PubMain T cfg args now ok s { s with pc := .reset, sample := T.resize s.sample args.datalen }
  | reset : s.pc = .reset →
      PubMain T cfg args now ok s { s with pc := .begin, ctx := resetStats s.ctx, records := [] }
  | begin : s.pc = .begin →
      PubMain T cfg args now ok s { s with
        pc := .loop
        t0 := now
        ctx := { s.ctx with testStartUs := now }
        tNextPrint := u64 (now + 1000000)
        total := 0
        seq := 0 }
  | again : s.pc = .loop → u64Sub now s.t0 < timeoutUs args →
      PubMain T cfg args now ok s { s with pc := .prepare, checks := s.checks ++ [now] }
  | leave : s.pc = .loop → ¬ u64Sub now s.t0 < timeoutUs args →
      PubMain T cfg args now ok s { s with pc := .finish .sort, checks := s.checks ++ [now] }
  | prepare : s.pc = .prepare →
      PubMain T cfg args now ok s { s with
        pc := .write
        seq := i32 (s.seq + 1)
        sample := { s.sample with
          sequenceNumber := i32 (s.seq + 1)
          timestampUs := now
          kind := if isPing args (i32 (s.seq + 1)) then .dataPing else .data } }
  | writeWait : s.pc = .write → ok = true → isPing args s.seq = true → args.latencyTest = true →
      PubMain T cfg args now ok s { s with
        pc := .wait now, total := s.total + 1, writes := s.wrote s.sample true }
  | writeOn : s.pc = .write → (ok && isPing args s.seq && args.latencyTest) = false →
      PubMain T cfg args now ok s { s with
        pc := .sleep
        total := if ok then s.total + 1 else s.total
        writes := s.wrote s.sample ok }
  | taken (since : ℕ) : s.pc = .wait since → ok = true → s.ctx.latencySem.token = true →
      PubMain T cfg args now ok s { s with
        pc := .sleep, ctx := { s.ctx with latencySem := s.ctx.latencySem.take } }
  | expired (since : ℕ) : s.pc = .wait since → ok = false → s.ctx.latencySem.token = false →
      takeExpired args since now = true →
      PubMain T cfg args now ok s { s with pc := .sleep }
  | sleep : s.pc = .sleep → PubMain T cfg args now ok s { s with pc := .tick }
  | tick : s.pc = .tick → ¬ (args.printEverySecond = true ∧ now ≥ s.tNextPrint) →
      PubMain T cfg args now ok s { s with pc := .loop }
  | tickLine : s.pc = .tick → args.printEverySecond = true → s.tNextPrint ≤ now →
      PubMain T cfg args now ok s { s with pc := .line (.count now), tNextPrint := u64 (now + 1000000) }
  | line (l l' : LinePc) : s.pc = .line l → l.next s.ctx = some l' →
      PubMain T cfg args now ok s { s with pc := .line l' }
  | lineEnd (l : LinePc) : s.pc = .line l → l.next s.ctx = none →
      PubMain T cfg args now ok s { s with pc := .loop }
  | finish (f f' : FinishPc) : s.pc = .finish f → f.next s.ctx = some f' →
      PubMain T cfg args now ok s { s with
        pc := .finish f'
        ctx := { s.ctx with
          latHistory := f.sorted s.ctx.latHistory
          lastSeq := f.stored s.seq s.ctx.lastSeq }
        tmp := f.assign args now s }
  | finishEnd (f : FinishPc) : s.pc = .finish f → f.next s.ctx = none →
      PubMain T cfg args now ok s { s with
        pc := .report
        ctx := { s.ctx with
          latHistory := f.sorted s.ctx.latHistory
          lastSeq := f.stored s.seq s.ctx.lastSeq }
        tmp := f.assign args now s }
  | report : s.pc = .report →
      PubMain T cfg args now ok s { s with
        pc := .final 0
        results := appendResult s.tmp s.results
        sample := { s.sample with kind := .finalization, sequenceNumber := s.ctx.lastSeq } }
  | final (k : ℕ) : s.pc = .final k → k < 10 → s.ctx.finishedRemote = false →
      PubMain T cfg args now ok s { s with pc := .finalSleep k, writes := s.wrote s.sample ok }
  | finalEnd (k : ℕ) : s.pc = .final k → ¬ (k < 10 ∧ s.ctx.finishedRemote = false) →
      PubMain T cfg args now ok s { s with pc := .shutdown }
  | finalSleep (k : ℕ) : s.pc = .finalSleep k →
      PubMain T cfg args now ok s { s with pc := .final (k + 1) }
  | shutdown : s.pc = .shutdown → PubMain T cfg args now ok s { s with pc := .done }

/-- **Every step of the main thread is one of `PubMain`.** -/
theorem pubMain_cases {T : TypeInterface} {cfg : Config} {args : InputArgs} {now : ℕ} {ok : Bool}
    {s s' : PubState} (h : pubMain T cfg args now ok s = some s') :
    PubMain T cfg args now ok s s' := by
  unfold pubMain at h
  split at h
  case h_1 hpc => cases h; exact .warmup hpc
  case h_2 i hpc =>
    split_ifs at h with hi
    · cases h; exact .burst i hpc hi
    · cases h; exact .burstEnd i hpc hi
  case h_3 hpc => cases h; exact .settle hpc
  case h_4 hpc => cases h; exact .reset hpc
  case h_5 hpc => cases h; exact .begin hpc
  case h_6 hpc =>
    cases h
    by_cases ht : u64Sub now s.t0 < timeoutUs args
    · simpa only [if_pos ht] using PubMain.again hpc ht
    · simpa only [if_neg ht] using PubMain.leave hpc ht
  case h_7 hpc => cases h; exact .prepare hpc
  case h_8 hpc =>
    cases h
    cases hw : ok && isPing args s.seq && args.latencyTest with
    | false => simpa [hw] using PubMain.writeOn hpc hw
    | true =>
      simp only [Bool.and_eq_true] at hw
      obtain ⟨⟨rfl, hp⟩, hl⟩ := hw
      have hwait : PubMain T cfg args now true s _ := .writeWait hpc rfl hp hl
      simpa [hp, hl] using hwait
  case h_9 since hpc =>
    split_ifs at h with hok htok hexp
    · cases h; exact .taken since hpc hok htok
    · cases h; exact .expired since hpc (by simpa using hok) hexp.1 hexp.2
  case h_10 hpc => cases h; exact .sleep hpc
  case h_11 hpc =>
    split_ifs at h with hline
    · cases h; exact .tickLine hpc hline.1 hline.2
    · cases h; exact .tick hpc hline
  case h_12 l hpc =>
    cases h
    cases hl : l.next s.ctx with
    | none => exact .lineEnd l hpc hl
    | some l' => exact .line l l' hpc hl
  case h_13 f hpc =>
    cases h
    cases hf : f.next s.ctx with
    | none => exact .finishEnd f hpc hf
    | some f' => exact .finish f f' hpc hf
  case h_14 hpc => cases h; exact .report hpc
  case h_15 k hpc =>
    split_ifs at h with hk
    · cases h; exact .final k hpc hk.1 hk.2
    · cases h; exact .finalEnd k hpc hk
  case h_16 k hpc => cases h; exact .finalSleep k hpc
  case h_17 hpc => cases h; exact .shutdown hpc
  case h_18 hpc => cases h

/-! ## Interleaving with the callbacks -/

inductive PubAction
  | main (ok : Bool)
  | pong (x : PerftestSample)
  | matched (change : ℤ)
  deriving DecidableEq, Repr

/-- The pong callback on the whole state: `records` remembers what was counted. -/
def PubState.pong (cfg : Config) (now : ℕ) (x : PerftestSample) (s : PubState) : PubState :=
  { s with
    ctx := pubOnPongSample cfg now x s.ctx
    records := if x.isData then s.records ++ [(now, x)] else s.records }

/-- One step of the publisher; the callbacks end with `shutdown`. -/
def pubStep (T : TypeInterface) (cfg : Config) (args : InputArgs) (s : PubState) :
    ℕ × PubAction → Option PubState
  | (now, .main ok) => pubMain T cfg args now ok s
  | (now, .pong x) => if s.pc = .done then none else some (s.pong cfg now x)
  | (_, .matched change) =>
    if s.pc = .done then none else some { s with ctx := pubOnReaderMatched change s.ctx }

/-- The context when the measurement starts: `memset`, the semaphore just created and empty, the
history allocated or not, the log opened or not. -/
def pubCtxInit (args : InputArgs) (history : Bool) (matchedPubs : ℤ) : PubCtx where
  matchedSubs := 0
  matchedPubs := matchedPubs
  finishedRemote := false
  latencySem := .live false
  latSumUs := 0
  latCount := 0
  latMinUs := noLatency
  latMaxUs := 0
  latHistory := if history then some [] else none
  latencyLog := if args.latencyLogFile.isSome then some [] else none
  latencyStream := args.latencyStream
  latLines := []
  testStartUs := 0
  lastSeq := 0

/-- The publisher at the call of `run_one_size`. -/
def pubInit (T : TypeInterface) (args : InputArgs) (history : Bool) (matchedPubs : ℤ)
    (results : Option Results) : PubState where
  pc := .warmup
  ctx := pubCtxInit args history matchedPubs
  sample := T.create
  t0 := 0
  tNextPrint := 0
  total := 0
  seq := 0
  tmp := .zero
  results := results
  writes := []
  checks := []
  records := []

end PerftestLite
