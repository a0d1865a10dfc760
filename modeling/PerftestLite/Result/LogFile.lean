import PerftestLite.Lib.Delimited
import PerftestLite.Lib.Printf
import PerftestLite.Result.Filling
import PerftestLite.Result.Streams

/-!
# The log file against the result

The log is a text: a header, then one line for each latency, written while the test runs and afterwards
until `shutdown`. The latency columns of the result can be computed again from it, each from the rows there were
when it was read, and the time of the result separates the early rows from the late ones.

* `logText`, `readLog`, `readLog_logText`: the text of the log and a reader for it;
* `Timed`: the time of the result against the rows;
* `PubReplay`, `pubReplay_step`: the result against the counted pongs, step by step;
* `log_replays_result`.
-/

set_option autoImplicit false

namespace PerftestLite

open Word Machine OrderStat Delimited Printf

/-! ## The text -/

def logHeader : List Char := "elapsed_us,latency_us".toList

/-- `"%llu,%llu"`. -/
def logLine (e : ℕ × ℕ) : List Char := [','].intercalate [decimal e.1, decimal e.2]

/-- The text of a log. -/
def logText (log : List (ℕ × ℕ)) : List Char := unlines '\n' (logHeader :: log.map logLine)

/-- The log file so far, if there is one. -/
def PubCtx.logFile (c : PubCtx) : Option (List Char) := c.latencyLog.map logText

/-- One line, taken apart. -/
def readLogLine (l : List Char) : Option (ℕ × ℕ) :=
  match l.splitOn ',' with
  | [elapsed, latency] => do some (← readDecimal elapsed, ← readDecimal latency)
  | _ => none

def readLog (text : List Char) : Option (List (ℕ × ℕ)) :=
  match lines '\n' text with
  | header :: rows => if header = logHeader then rows.mapM readLogLine else none
  | [] => none

/-- What one `fprintf` appends. -/
theorem logText_append (log : List (ℕ × ℕ)) (e : ℕ × ℕ) :
    logText (log ++ [e]) = logText log ++ (logLine e ++ ['\n']) := by
  unfold logText
  rw [List.map_append, ← List.cons_append, unlines_append]
  simp [unlines]

theorem logLine_plain {e : ℕ × ℕ} {f : List Char} (hf : f ∈ [decimal e.1, decimal e.2]) : Plain f := by
  rcases List.mem_cons.mp hf with rfl | hf
  · exact plain_decimal e.1
  · exact List.mem_singleton.mp hf ▸ plain_decimal e.2

theorem readLogLine_logLine (e : ℕ × ℕ) : readLogLine (logLine e) = some e := by
  unfold readLogLine logLine
  rw [List.splitOn_intercalate ',' (fun f hf => (logLine_plain hf).not_mem rfl (by decide) (by decide))
    (by simp)]
  simp [readDecimal_decimal]

/-- **The text reads back as the log.** -/
theorem readLog_logText (log : List (ℕ × ℕ)) : readLog (logText log) = some log := by
  have hlines : ∀ l ∈ logHeader :: log.map logLine, '\n' ∉ l := by
    intro l hl
    rcases List.mem_cons.mp hl with rfl | hl
    · decide +kernel
    · obtain ⟨e, -, rfl⟩ := List.mem_map.mp hl
      intro h
      rcases mem_intercalate h with hc | ⟨f, hf, hc⟩
      · cases List.mem_singleton.mp hc
      · exact (logLine_plain hf).not_mem rfl (by decide) (by decide) hc
  have hrows : (log.map logLine).mapM readLogLine = some (log.map id) := mapM_map_some readLogLine_logLine
  rw [List.map_id] at hrows
  rw [readLog, logText, lines_unlines hlines]
  dsimp only
  rw [if_pos rfl, hrows]

/-! ## The result against the counted pongs -/

variable {net : Net} {T : TypeInterface} {cfg : Config} {args subArgs : InputArgs} {s s' : Sys}
  {l : Label} {p p' : PubState} {n now clock clock' : ℕ} {c : Cuts n} {history : Bool}
  {results : Option Results}

theorem pairs_latencies (p : PubState) : p.pairs.map Prod.snd = p.latencies := by
  unfold PubState.pairs PubState.latencies
  rw [List.map_map]
  rfl

/-- A pong of a data sample makes one pair more. -/
theorem pairs_pong {x : PerftestSample} (hx : x.isData = true) :
    (p.pong cfg now x).pairs = p.pairs ++ [(now - p.ctx.testStartUs, pongLatency now x.timestampUs)] := by
  unfold PubState.pairs PubState.pong
  rw [pubOnPongSample_data cfg now hx, if_pos hx, List.map_append]
  rfl

/-- The time of the result separates the pongs counted before it was read from those counted after. -/
structure Timed (clock : ℕ) (c : Cuts n) (p : PubState) : Prop where
  early : ∀ e ∈ p.pairs.take c.timed, e.1 ≤ p.tmp.elapsedUs
  late : ∀ e ∈ p.pairs.drop c.timed, p.tmp.elapsedUs ≤ e.1
  ended : p.ctx.testStartUs + p.tmp.elapsedUs ≤ clock

/-- The result against the pairs. -/
structure PubReplay (cfg : Config) (history : Bool) (results : Option Results) (clock : ℕ) (p : PubState) :
    Prop where
  start : p.pc.phase ≠ 0 → p.t0 = p.ctx.testStartUs
  columns : ∃ n, ∃ c : Cuts n, Filling cfg history c p ∧ (3 ≤ p.pc.filled → Timed clock c p)
  stored : p.results = if p.pc.phase = 2 then appendResult p.tmp results else results

/-- What leaves the pairs and the time alone. -/
theorem Timed.still (h : Timed clock c p) (hpairs : p'.pairs = p.pairs)
    (helapsed : p'.tmp.elapsedUs = p.tmp.elapsedUs) (hstart : p'.ctx.testStartUs = p.ctx.testStartUs) {k : ℕ}
    (hk : 3 ≤ k) : Timed clock (c.mark k) p' := by
  have htimed : (c.mark k).timed = c.timed := if_pos (by omega)
  refine ⟨?_, ?_, ?_⟩
  · rw [hpairs, helapsed, htimed]
    exact h.early
  · rw [hpairs, helapsed, htimed]
    exact h.late
  · rw [hstart, helapsed]
    exact h.ended

/-- A late pong adds a late row. -/
theorem Timed.pong (h : Timed clock c p) (hc : n = p.pairs.length) {x : PerftestSample} (hx : x.isData = true) :
    Timed clock (c.weaken (Nat.le_succ n)) (p.pong cfg clock x) := by
  have hpairs : (p.pong cfg clock x).pairs = p.pairs ++ _ := pairs_pong hx
  have hle : c.timed ≤ p.pairs.length := by
    have := c.ordered
    omega
  have hctx : (p.pong cfg clock x).ctx = recordPong cfg clock x.timestampUs p.ctx :=
    pubOnPongSample_data cfg clock hx p.ctx
  refine ⟨?_, ?_, ?_⟩
  · rw [hpairs, show (c.weaken (Nat.le_succ n)).timed = c.timed from rfl, List.take_append_of_le_length hle]
    exact h.early
  · rw [hpairs, show (c.weaken (Nat.le_succ n)).timed = c.timed from rfl, List.drop_append_of_le_length hle]
    intro e he
    rcases List.mem_append.mp he with he | he
    · exact h.late e he
    · rw [List.mem_singleton.mp he]
      exact Nat.le_sub_of_add_le' h.ended
  · rw [hctx]
    exact h.ended

/-- The clock is read: every pong so far is early. -/
theorem Timed.read (hstr : PubStreamed args now p) (hclock : now < 18446744073709551616)
    (ht0 : p.t0 = p.ctx.testStartUs) (hc : n = p.pairs.length) (hpairs : p'.pairs = p.pairs)
    (helapsed : p'.tmp.elapsedUs = u64Sub now p.t0) (hstart : p'.ctx.testStartUs = p.ctx.testStartUs) :
    Timed now (c.mark 2) p' := by
  have hsub : u64Sub now p.t0 = now - p.t0 := u64Sub_of_le (ht0 ▸ hstr.started) hclock
  have htimed : (c.mark 2).timed = p.pairs.length := hc
  refine ⟨fun e he => ?_, fun e he => ?_, ?_⟩
  · rw [hpairs] at he
    obtain ⟨r, hr, rfl⟩ := List.mem_map.mp (List.mem_of_mem_take he)
    rw [helapsed, hsub, ht0]
    exact Nat.sub_le_sub_right (hstr.counted r hr).2 _
  · rw [hpairs, htimed, List.drop_length] at he
    cases he
  · rw [hstart, helapsed, hsub, ht0]
    exact (Nat.add_sub_cancel' hstr.started).le

/-- What was timed behind a statement of the result was timed before, or by it. -/
theorem FinishPc.timed_of_next {x : PubCtx} {f f' : FinishPc} (hf : f.next x = some f') (h : 3 ≤ f'.index) :
    f = .elapsed ∨ 3 ≤ f.index := by
  cases f with
  | sort =>
    simp only [FinishPc.next, Option.some.injEq] at hf
    subst hf
    split_ifs at h <;> exact absurd h (by decide)
  | percentiles =>
    cases hf
    exact absurd h (by decide)
  | elapsed => exact .inl rfl
  | received | count | average sum | minimum | maximum => exact .inr (by simp [FinishPc.index])

/-- A statement of the result. -/
theorem PubReplay.finish {f : FinishPc} (h : PubReplay cfg history results now p)
    (hclock : now < 18446744073709551616) (hstr : PubStreamed args now p) (hpc : p.pc = .finish f)
    (hrec : p'.records = p.records) (hstart : p'.ctx.testStartUs = p.ctx.testStartUs)
    (htmp : p'.tmp = f.assign args now p) (hf : f = .elapsed ∨ 3 ≤ f.index) (hfill : Filling cfg history c p)
    (htimed : 3 ≤ p.pc.filled → Timed now c p) : Timed now (c.mark f.index) p' := by
  have hpairs : p'.pairs = p.pairs := by
    unfold PubState.pairs
    rw [hstart, hrec]
  have helapsed := FinishPc.assign_elapsed f args now p
  rw [← htmp] at helapsed
  rcases hf with rfl | hf
  · have hlen : n = p.pairs.length := by
      rw [hfill.length, ← pairs_latencies, List.length_map]
    exact .read hstr hclock (h.start (by rw [hpc]; decide)) hlen hpairs (helapsed.trans (if_pos rfl)) hstart
  · refine (htimed (by rw [hpc]; exact hf)).still hpairs (helapsed.trans (if_neg ?_)) hstart hf
    rintro rfl
    exact absurd hf (by decide)

/-- **A statement**: each column of the result is filled from the pongs counted so far. -/
theorem pubReplay_main {ok : Bool} (hclock : now < 18446744073709551616) (hstats : PubStats cfg p)
    (hstr : PubStreamed args now p) (h : PubReplay cfg history results now p)
    (hs : PubMain T cfg args now ok p p') : PubReplay cfg history results now p' := by
  have hlat : ∀ x ∈ p.latencies, x < noLatency := by
    intro x hx
    obtain ⟨r, hr, rfl⟩ := List.mem_map.mp hx
    exact pongLatency_lt ((hstr.counted r hr).2.trans_lt hclock)
  obtain ⟨n, c, hfill, htimed⟩ := h.columns
  have hearly : p.pc.phase ≠ 2 → p.results = results := fun hph => h.stored.trans (if_neg hph)
  by_cases hreset : p.pc = .reset
  · cases hs with
    | reset hpc =>
      exact ⟨fun hph => absurd rfl hph, ⟨0, Cuts.all 0, .idle rfl (Option.isSome_map.trans hfill.buffer) rfl,
        fun hk => absurd (show 3 ≤ 0 from hk) (by decide)⟩, hearly (by simp [hpc, PubPc.phase])⟩
    | _ => simp_all
  have hmain : Filling cfg history (c.mark p.pc.reading) p' := filling_main hfill hstats hlat hreset hs
  cases hs with
  | warmup hpc | burst _ hpc _ | burstEnd _ hpc _ | settle hpc =>
    exact ⟨fun hph => absurd rfl hph, ⟨n, _, hmain, fun hk => absurd (show 3 ≤ 0 from hk) (by decide)⟩,
      hearly (by simp [hpc, PubPc.phase])⟩
  | reset hpc => exact absurd hpc hreset
  | begin hpc =>
    exact ⟨fun _ => rfl, ⟨n, _, hmain, fun hk => absurd (show 3 ≤ 0 from hk) (by decide)⟩,
      hearly (by simp [hpc, PubPc.phase])⟩
  | again hpc _ | leave hpc _ | prepare hpc | writeWait hpc _ _ _ | writeOn hpc _ | taken _ hpc _ _
  | expired _ hpc _ _ _ | sleep hpc | tick hpc _ | tickLine hpc _ _ | line _ _ hpc _ | lineEnd _ hpc _ =>
    exact ⟨fun _ => h.start (by simp [hpc, PubPc.phase]),
      ⟨n, _, hmain, fun hk => absurd (show 3 ≤ 0 from hk) (by decide)⟩, hearly (by simp [hpc, PubPc.phase])⟩
  | finish f f' hpc hf =>
    rw [hpc] at hmain
    exact ⟨fun _ => h.start (by simp [hpc, PubPc.phase]), ⟨n, _, hmain, fun hk =>
      h.finish hclock hstr hpc rfl rfl rfl (FinishPc.timed_of_next hf hk) hfill htimed⟩,
      hearly (by simp [hpc, PubPc.phase])⟩
  | finishEnd f hpc hf =>
    rw [hpc] at hmain
    refine ⟨fun _ => h.start (by simp [hpc, PubPc.phase]), ⟨n, _, hmain, fun _ =>
      h.finish hclock hstr hpc rfl rfl rfl (.inr ?_) hfill htimed⟩, hearly (by simp [hpc, PubPc.phase])⟩
    rw [FinishPc.eq_maximum hf]
    decide
  | report hpc =>
    have hstart := h.start (by simp [hpc, PubPc.phase])
    have hlast : Timed now c p := htimed (hpc ▸ Nat.le_add_left 3 5)
    rw [hpc] at hmain
    refine ⟨fun _ => hstart, ⟨n, c.mark 8, hmain, fun _ =>
      hlast.still (by rfl) (by rfl) (by rfl) (Nat.le_add_left 3 5)⟩, ?_⟩
    change appendResult p.tmp p.results = appendResult p.tmp results
    rw [hearly (by simp [hpc, PubPc.phase])]
  | final _ hpc _ _ | finalEnd _ hpc _ | finalSleep _ hpc | shutdown hpc =>
    have hph : p.pc.phase = 2 := by rw [hpc]; rfl
    have hlast : Timed now c p := htimed (hpc ▸ Nat.le_add_left 3 5)
    rw [hpc] at hmain
    exact ⟨fun _ => h.start (by rw [hph]; decide), ⟨n, c.mark 8, hmain, fun _ =>
      hlast.still (by rfl) (by rfl) (by rfl) (Nat.le_add_left 3 5)⟩, h.stored.trans (if_pos hph)⟩

/-- **One step of the system**, as long as the clock fits its type. -/
theorem pubReplay_step (hclock : s'.clock < 18446744073709551616) (hstats : PubStats cfg s.pub)
    (hstr : PubStreamed args s.clock s.pub) (h : PubReplay cfg history results s.clock s.pub)
    (hs : SysStep net T cfg args subArgs s l s') : PubReplay cfg history results s'.clock s'.pub := by
  obtain ⟨n, c, hfill, htimed⟩ := h.columns
  cases hs with
  | tick d =>
    exact ⟨h.start, ⟨n, c, hfill, fun hk => { htimed hk with
      ended := (htimed hk).ended.trans (Nat.le_add_right _ _) }⟩, h.stored⟩
  | pub ok p hp => exact pubReplay_main hclock hstats hstr h (pubMain_cases hp)
  | deliverPong i m rest hd hpc =>
    have hlen : n = s.pub.pairs.length := by
      rw [hfill.length, ← pairs_latencies, List.length_map]
    by_cases hdata : m.sample.isData = true
    · have hctx : (s.pub.pong cfg s.clock m.sample).ctx =
          recordPong cfg s.clock m.sample.timestampUs s.pub.ctx :=
        pubOnPongSample_data cfg s.clock hdata s.pub.ctx
      refine ⟨?_, ⟨_, _, hfill.pong hdata, fun hk => (htimed hk).pong hlen hdata⟩, h.stored⟩
      rw [hctx]
      exact h.start
    · obtain ⟨b, hb⟩ := pubOnPongSample_other cfg s.clock hdata s.pub.ctx
      have hc : (s.pub.pong cfg s.clock m.sample).ctx = { s.pub.ctx with finishedRemote := b } := hb
      have hrec : (s.pub.pong cfg s.clock m.sample).records = s.pub.records := if_neg hdata
      have hpairs : (s.pub.pong cfg s.clock m.sample).pairs = s.pub.pairs := by
        unfold PubState.pairs
        rw [hc, hrec]
      refine ⟨by rw [hc]; exact h.start,
        ⟨n, c, hfill.still hrec (by rw [hc]) rfl rfl fun _ hf => hf, fun hk => ?_⟩, h.stored⟩
      exact (htimed hk).still hpairs rfl (by rw [hc]) (Nat.le_add_left 3 5)
  | pubMatched change hpc =>
    have hctx : (pubOnReaderMatched change s.pub.ctx).latHistory = s.pub.ctx.latHistory ∧
        (pubOnReaderMatched change s.pub.ctx).testStartUs = s.pub.ctx.testStartUs := by
      unfold pubOnReaderMatched
      split_ifs <;> exact ⟨rfl, rfl⟩
    refine ⟨by rw [hctx.2]; exact h.start, ⟨n, c, hfill.callback hctx.1, fun hk => ?_⟩, h.stored⟩
    have hpairs : ({ s.pub with ctx := pubOnReaderMatched change s.pub.ctx } : PubState).pairs =
        s.pub.pairs := by
      unfold PubState.pairs
      rw [hctx.2]
    exact (htimed hk).still hpairs rfl hctx.2 (Nat.le_add_left 3 5)
  | sub q hq | subMatched change hpc | deliverPing i echoed m rest hd he hpc | dropPing i rest hd
  | dropPong i rest hd =>
    exact h

theorem pubReplay_init (T : TypeInterface) (cfg : Config) (args : InputArgs) (history : Bool) (matchedPubs : ℤ)
    (results : Option Results) (clock : ℕ) :
    PubReplay cfg history results clock (pubInit T args history matchedPubs results) := by
  refine ⟨fun hph => absurd rfl hph, ⟨0, Cuts.all 0, .idle rfl ?_ rfl,
    fun hk => absurd (show 3 ≤ 0 from hk) (by decide)⟩, rfl⟩
  cases history <;> rfl

/-- **The log file against the result.** In every state of every run with a log file: the text of the file
reads back as one row for each latency recorded. Once the result is filled, each of its latency columns is that
of the rows there were when it was read, and the readings are in order; the rows there were when the clock was
read arrived within its time and all others not before its end; and it is this result that goes into the
caller's storage. -/
theorem log_replays_result {matchedPubs : ℤ} {subResults : Option Results} {ls : List Label}
    (hlog : args.latencyLogFile.isSome = true)
    (hrun : exec (sysStep net T cfg args subArgs)
      (sysInit T args history matchedPubs results subResults clock) ls = some s)
    (hclock : s.clock < 18446744073709551616) :
    ∃ text rows, s.pub.ctx.logFile = some text ∧ readLog text = some rows ∧
      rows.map Prod.snd = s.pub.latencies ∧
      (s.pub.pc.measured = true → ∃ c : Cuts rows.length,
        s.pub.tmp = replayed cfg history (rows.map Prod.snd) c s.pub.tmp ∧
        (∀ e ∈ rows.take c.timed, e.1 ≤ s.pub.tmp.elapsedUs) ∧
        ∀ e ∈ rows.drop c.timed, s.pub.tmp.elapsedUs ≤ e.1) ∧
      (s.pub.pc.phase = 2 → s.pub.results = appendResult s.pub.tmp results) := by
  have hinv := exec_invariant
    (I := fun s => PubInv args s.pub ∧ Genuine s ∧ Stamped s ∧ PubStats cfg s.pub ∧
      PubStreamed args s.clock s.pub ∧
      (s.clock < 18446744073709551616 → PubReplay cfg history results s.clock s.pub))
    (fun s l s' h hs => by
      obtain ⟨hi, hg, hst, hstats, hstr, hreplay⟩ := h
      have hs' := sysStep_cases hs
      exact ⟨sys_pubInv hi hs', genuine_step hg hs', stamped_step hi hg hst hs',
        sys_pub_invariant (fun _ _ _ h hp => pubStats_step h hp) hstats hs',
        streamed_step hi hg hst hstr hs', fun hlt =>
          pubReplay_step hlt hstats hstr (hreplay ((sys_clock_le hs').trans_lt hlt)) hs'⟩)
    hrun ⟨pubInv_init _ _ _ _ _, genuine_init _ _ _ _ _ _ _, stamped_init _ _ _ _ _ _ _,
      pubStats_init _ _ _ _ _, pubStreamed_init _ _ _ _ _ _, fun _ => pubReplay_init _ _ _ _ _ _ _⟩
  obtain ⟨-, -, -, -, hstr, hreplay⟩ := hinv
  have h := hreplay hclock
  have hfile : s.pub.ctx.logFile = some (logText s.pub.pairs) := by
    unfold PubCtx.logFile
    rw [hstr.log, if_pos hlog]
    rfl
  refine ⟨_, s.pub.pairs, hfile, readLog_logText _, pairs_latencies _, fun hm => ?_, fun hph => ?_⟩
  · obtain ⟨n, c, hfill, htimed⟩ := h.columns
    have hlen : n = s.pub.pairs.length := by
      rw [hfill.length, ← pairs_latencies, List.length_map]
    have hlast := htimed (by rw [PubPc.filled_of_measured hm]; decide)
    refine ⟨c.weaken hlen.le, ?_, hlast.early, hlast.late⟩
    rw [pairs_latencies]
    exact hfill.replayed_eq hm
  · exact h.stored.trans (if_pos hph)

/-- One ping and its pong, then the end of the loop, the statements of the result and the report. -/
def pingThenReport : List Label :=
  pingAfter 10 ++ List.replicate 3 (.pub true) ++ .tick 5000000000 :: List.replicate 9 (.pub true)

theorem log_replays_result_one : ∃ text, (streamEnd pingThenReport).pub.ctx.logFile = some text ∧
    readLog text = some [(100, 45)] ∧ (streamEnd pingThenReport).pub.tmp.avgLatencyUs = 45 ∧
    ∃ c : Cuts 1, (streamEnd pingThenReport).pub.tmp =
      replayed defaultConfig false [45] c (streamEnd pingThenReport).pub.tmp := by
  have hrun : exec (sysStep bestEffort sequenceType defaultConfig streamArgs subscriberDefaults) streamStart
      pingThenReport = some (streamEnd pingThenReport) := by
    decide +kernel
  obtain ⟨text, rows, htext, hrows, -, hmeasured, -⟩ := log_replays_result rfl hrun (by decide +kernel)
  obtain ⟨c, htmp, -, -⟩ := hmeasured (by decide +kernel)
  obtain rfl : rows = [(100, 45)] := by
    have hfile : (streamEnd pingThenReport).pub.ctx.logFile = some (logText [(100, 45)]) := by
      decide +kernel
    rw [hfile] at htext
    rw [← Option.some.inj htext, readLog_logText] at hrows
    exact (Option.some.inj hrows).symm
  exact ⟨text, htext, hrows, by decide +kernel, c, htmp⟩

end PerftestLite
