import PerftestLite.Latency.Provenance

/-!
# The log file and the printed lines

Every counted pong writes one pair to the log, in 64 bits, and prints one pair, in 32. The pairs are the
same as long as the pongs arrive within `2 ^ 32` microseconds of the start of the loop; the latency, half
of a time that began after it, then fits as well.

* `PubState.pairs`: the pair of each counted pong;
* `PubStreamed`, `pubStreamed_main`, `streamed_step`: the two outputs, step by step;
* `streams_agree`: what they have in common, and when they are equal.
-/

set_option autoImplicit false

namespace PerftestLite

open Word Machine Channel

/-- The time since the start of the loop and the latency, of each counted pong. -/
def PubState.pairs (p : PubState) : List (ℕ × ℕ) :=
  p.records.map fun r => (r.1 - p.ctx.testStartUs, pongLatency r.1 r.2.timestampUs)

/-- The conversion to `unsigned int` of both. -/
def narrow (e : ℕ × ℕ) : ℕ × ℕ := (u32 e.1, u32 e.2)

/-- The two outputs, and the times they are made of. -/
structure PubStreamed (args : InputArgs) (clock : ℕ) (p : PubState) : Prop where
  log : p.ctx.latencyLog = if args.latencyLogFile.isSome then some p.pairs else none
  stream : p.ctx.latencyStream = args.latencyStream
  lines : p.ctx.latLines = if args.latencyStream then p.pairs.map narrow else []
  started : p.ctx.testStartUs ≤ clock
  next : p.pc = .write → p.ctx.testStartUs ≤ p.sample.timestampUs
  written : ∀ w ∈ loopWrites p.writes, p.ctx.testStartUs ≤ w.1.timestampUs
  counted : ∀ r ∈ p.records, p.ctx.testStartUs ≤ r.2.timestampUs ∧ r.1 ≤ clock
  ordered : (p.records.map Prod.fst).Pairwise (· ≤ ·)

section

variable {net : Net} {T : TypeInterface} {cfg : Config} {args subArgs : InputArgs} {s s' : Sys}
  {l : Label} {p p' : PubState} {now clock clock' : ℕ}

/-- What leaves the outputs, the counted pongs and the sample of the loop alone. -/
theorem PubStreamed.still (h : PubStreamed args clock p) (hlog : p'.ctx.latencyLog = p.ctx.latencyLog)
    (hstream : p'.ctx.latencyStream = p.ctx.latencyStream) (hlines : p'.ctx.latLines = p.ctx.latLines)
    (hstart : p'.ctx.testStartUs = p.ctx.testStartUs) (hrec : p'.records = p.records)
    (hnext : p'.pc = .write → p.ctx.testStartUs ≤ p'.sample.timestampUs)
    (hwritten : ∀ w ∈ loopWrites p'.writes, p.ctx.testStartUs ≤ w.1.timestampUs) :
    PubStreamed args clock p' := by
  have hpairs : p'.pairs = p.pairs := by
    unfold PubState.pairs
    rw [hstart, hrec]
  refine ⟨by rw [hlog, hpairs, h.log], hstream.trans h.stream, by rw [hlines, hpairs, h.lines],
    hstart ▸ h.started, hstart ▸ hnext, hstart ▸ hwritten, ?_, ?_⟩
  · rw [hstart, hrec]
    exact h.counted
  · rw [hrec]
    exact h.ordered

/-- Time goes by. -/
theorem PubStreamed.later (h : PubStreamed args clock p) (hle : clock ≤ clock') :
    PubStreamed args clock' p :=
  ⟨h.log, h.stream, h.lines, h.started.trans hle, h.next, h.written,
    fun r hr => ⟨(h.counted r hr).1, (h.counted r hr).2.trans hle⟩, h.ordered⟩

/-- A counted pong makes one pair for each output. -/
theorem PubStreamed.record (h : PubStreamed args clock p) {x : PerftestSample} (hx : x.isData = true)
    (hts : p.ctx.testStartUs ≤ x.timestampUs) : PubStreamed args clock (p.pong cfg clock x) := by
  have hc : (p.pong cfg clock x).ctx = recordPong cfg clock x.timestampUs p.ctx :=
    pubOnPongSample_data cfg clock hx p.ctx
  have hstart : (p.pong cfg clock x).ctx.testStartUs = p.ctx.testStartUs := by
    rw [hc]
    rfl
  have hrec : (p.pong cfg clock x).records = p.records ++ [(clock, x)] := if_pos hx
  have hwrites : (p.pong cfg clock x).writes = p.writes := rfl
  have helapsed : (if clock > p.ctx.testStartUs then clock - p.ctx.testStartUs else 0) =
      clock - p.ctx.testStartUs := by
    split_ifs <;> omega
  have hpairs : (p.pong cfg clock x).pairs =
      p.pairs ++ [(clock - p.ctx.testStartUs, pongLatency clock x.timestampUs)] := by
    unfold PubState.pairs
    rw [hstart, hrec, List.map_append]
    rfl
  refine ⟨?_, ?_, ?_, hstart ▸ h.started, fun hpc => hstart ▸ h.next hpc, ?_, fun r hr => ?_, ?_⟩
  · rw [hc, hpairs]
    change p.ctx.latencyLog.map _ = _
    rw [h.log, helapsed]
    split_ifs
    · rfl
    · rfl
  · rw [hc]
    exact h.stream
  · rw [hc, hpairs]
    change (if p.ctx.latencyStream then p.ctx.latLines ++ _ else p.ctx.latLines) = _
    rw [h.stream, h.lines, helapsed]
    split_ifs
    · rw [List.map_append]
      rfl
    · rfl
  · rw [hwrites, hstart]
    exact h.written
  · rw [hrec] at hr
    rw [hstart]
    rcases List.mem_append.mp hr with hr | hr
    · exact h.counted r hr
    · rw [List.mem_singleton.mp hr]
      exact ⟨hts, le_rfl⟩
  · rw [hrec, List.map_append]
    refine List.pairwise_append.mpr ⟨h.ordered, List.pairwise_singleton _ _, fun a ha b hb => ?_⟩
    obtain ⟨r, hr, rfl⟩ := List.mem_map.mp ha
    rw [List.mem_singleton.mp hb]
    exact (h.counted r hr).2

/-- A statement: only the start of the loop moves the origin of the times, before anything is counted
and written in the loop. -/
theorem pubStreamed_main {ok : Bool} (hi : PubInv args p) (h : PubStreamed args now p)
    (hearly : p.pc.phase = 0 → p.records = []) (hs : PubMain T cfg args now ok p p') :
    PubStreamed args now p' := by
  cases hs with
  | warmup hpc | settle hpc | burstEnd _ hpc _ | again hpc _ | leave hpc _ | taken _ hpc _ _
  | expired _ hpc _ _ _ | sleep hpc | tick hpc _ | tickLine hpc _ _ | line _ _ hpc _ | lineEnd _ hpc _
  | finish _ _ hpc _ | finishEnd _ hpc _ | report hpc | finalEnd _ hpc _ | finalSleep _ hpc | shutdown hpc =>
    exact h.still rfl rfl rfl rfl rfl (fun hw => by cases hw) h.written
  | reset hpc =>
    have hnil := hearly (by rw [hpc]; rfl)
    exact h.still rfl rfl rfl rfl hnil.symm (fun hw => by cases hw) h.written
  | begin hpc =>
    have hnil := hearly (by rw [hpc]; rfl)
    have hloop := (hi.count.before (by rw [hpc]; rfl)).1
    have hlog := h.log
    have hlines := h.lines
    unfold PubState.pairs at hlog hlines
    rw [hnil] at hlog hlines
    refine ⟨?_, h.stream, ?_, le_rfl, fun hw => (by cases hw), ?_, ?_, h.ordered⟩
    · unfold PubState.pairs
      rw [hnil]
      exact hlog
    · unfold PubState.pairs
      rw [hnil]
      exact hlines
    · intro w hw
      change w ∈ loopWrites p.writes at hw
      rw [hloop] at hw
      cases hw
    · intro r hr
      change r ∈ p.records at hr
      rw [hnil] at hr
      cases hr
  | prepare hpc => exact h.still rfl rfl rfl rfl rfl (fun _ => h.started) h.written
  | burst i hpc _ =>
    have hother : ({ p.sample with timestampUs := now } : PerftestSample).isData = false :=
      PerftestSample.isData_eq (hi.order.burst i hpc)
    refine h.still rfl rfl rfl rfl rfl (fun hw => by cases hw) ?_
    exact (loopWrites_append_other hother).symm ▸ h.written
  | final k hpc _ _ =>
    have hother : p.sample.isData = false :=
      PerftestSample.isData_eq (hi.order.final (by rw [hpc]; rfl))
    refine h.still rfl rfl rfl rfl rfl (fun hw => by cases hw) ?_
    exact (loopWrites_append_other hother).symm ▸ h.written
  | writeWait hpc _ _ _ | writeOn hpc _ =>
    refine h.still rfl rfl rfl rfl rfl (fun hw => by cases hw) fun w hw => ?_
    rcases List.mem_append.mp (List.mem_filter.mp hw).1 with hw' | hw'
    · exact h.written w (List.mem_filter.mpr ⟨hw', (List.mem_filter.mp hw).2⟩)
    · rw [List.mem_singleton.mp hw']
      exact h.next hpc

/-- **The two outputs follow the counted pongs**, in every step of the system. -/
theorem streamed_step (hi : PubInv args s.pub) (hg : Genuine s) (hst : Stamped s)
    (h : PubStreamed args s.clock s.pub) (hs : SysStep net T cfg args subArgs s l s') :
    PubStreamed args s'.clock s'.pub := by
  cases hs with
  | tick d => exact h.later (Nat.le_add_right _ _)
  | pub ok p hp =>
    have hearly : s.pub.pc.phase = 0 → s.pub.records = [] := by
      intro hph
      rw [hst.records, hg.answered_eq_nil hi.count hph]
      rfl
    exact pubStreamed_main hi h hearly (pubMain_cases hp)
  | deliverPong i m rest hd hpc =>
    by_cases hdata : m.sample.isData = true
    · have hmem : (m.sample, true) ∈ loopWrites s.pub.writes :=
        List.mem_filter.mpr ⟨(hg.pong m (mem_of_deliver hd)).1.mem, hdata⟩
      exact h.record hdata (h.written _ hmem)
    · obtain ⟨b, hb⟩ := pubOnPongSample_other cfg s.clock hdata s.pub.ctx
      have hc : (s.pub.pong cfg s.clock m.sample).ctx = { s.pub.ctx with finishedRemote := b } := hb
      have hrec : (s.pub.pong cfg s.clock m.sample).records = s.pub.records := if_neg hdata
      exact h.still (by rw [hc]) (by rw [hc]) (by rw [hc]) (by rw [hc]) hrec h.next h.written
  | pubMatched change hpc =>
    refine h.still ?_ ?_ ?_ ?_ rfl h.next h.written <;>
      (unfold pubOnReaderMatched; split_ifs <;> rfl)
  | sub q hq | subMatched change hpc | deliverPing i echoed m rest hd he hpc | dropPing i rest hd
  | dropPong i rest hd =>
    exact h

theorem pubStreamed_init (T : TypeInterface) (args : InputArgs) (history : Bool) (matchedPubs : ℤ)
    (results : Option Results) (clock : ℕ) :
    PubStreamed args clock (pubInit T args history matchedPubs results) := by
  refine ⟨rfl, rfl, ?_, Nat.zero_le _, fun hw => (by cases hw), fun w hw => (by cases hw),
    fun r hr => (by cases hr), List.Pairwise.nil⟩
  change [] = if args.latencyStream then [] else []
  split_ifs <;> rfl

/-- A number fits 32 bits exactly when the conversion leaves it alone. -/
theorem u32_eq_self_iff {n : ℕ} : u32 n = n ↔ n < 4294967296 := Nat.mod_eq_iff_lt (by decide)

/-- The latency fits if the time since the start does: it is half of a part of it. -/
theorem narrow_eq_iff {now ts start : ℕ} (hts : start ≤ ts) :
    narrow (now - start, pongLatency now ts) = (now - start, pongLatency now ts) ↔
      now - start < 4294967296 := by
  unfold narrow
  rw [Prod.mk.injEq, u32_eq_self_iff, u32_eq_self_iff]
  refine ⟨And.left, fun h => ⟨h, ?_⟩⟩
  unfold pongLatency
  split_ifs <;> omega

/-- **The log file and the printed lines.** In every state of every run, with both outputs asked for:
the log has one pair for each latency recorded, in order of time; the lines are its pairs narrowed to 32
bits; and they are the same exactly when every pong counted arrived within `2 ^ 32` microseconds of the
start of the loop. -/
theorem streams_agree {history : Bool} {matchedPubs : ℤ} {results subResults : Option Results}
    {clock : ℕ} {ls : List Label} (hlog : args.latencyLogFile.isSome = true)
    (hstream : args.latencyStream = true)
    (hrun : exec (sysStep net T cfg args subArgs)
      (sysInit T args history matchedPubs results subResults clock) ls = some s) :
    ∃ log, s.pub.ctx.latencyLog = some log ∧ log.length = s.pub.ctx.latCount ∧
      log.map Prod.snd = s.pub.latencies ∧ (log.map Prod.fst).Pairwise (· ≤ ·) ∧
      s.pub.ctx.latLines = log.map narrow ∧
      (s.pub.ctx.latLines = log ↔
        ∀ r ∈ s.pub.records, r.1 - s.pub.ctx.testStartUs < 4294967296) := by
  obtain ⟨-, -, -, hstats, h⟩ := exec_invariant
    (I := fun s => PubInv args s.pub ∧ Genuine s ∧ Stamped s ∧ PubStats cfg s.pub ∧
      PubStreamed args s.clock s.pub)
    (fun s l s' h hs => by
      obtain ⟨hi, hg, hst, hstats, hstr⟩ := h
      have hs' := sysStep_cases hs
      exact ⟨sys_pubInv hi hs', genuine_step hg hs', stamped_step hi hg hst hs',
        sys_pub_invariant (fun _ _ _ h hp => pubStats_step h hp) hstats hs',
        streamed_step hi hg hst hstr hs'⟩)
    hrun ⟨pubInv_init _ _ _ _ _, genuine_init _ _ _ _ _ _ _, stamped_init _ _ _ _ _ _ _,
      pubStats_init _ _ _ _ _, pubStreamed_init _ _ _ _ _ _⟩
  have hlines : s.pub.ctx.latLines = s.pub.pairs.map narrow := by
    rw [h.lines, if_pos hstream]
  have hsnd : s.pub.pairs.map Prod.snd = s.pub.latencies := by
    unfold PubState.pairs PubState.latencies
    rw [List.map_map]
    rfl
  have hcount : s.pub.pairs.length = s.pub.ctx.latCount := by
    rw [hstats.count, ← hsnd, List.length_map]
  refine ⟨s.pub.pairs, by rw [h.log, if_pos hlog], hcount, hsnd, ?_, hlines, ?_⟩
  · unfold PubState.pairs
    rw [List.map_map]
    refine List.pairwise_map.mpr ((List.pairwise_map.mp h.ordered).imp fun {a b} hab => ?_)
    exact Nat.sub_le_sub_right hab _
  · have hself : s.pub.pairs.map narrow = s.pub.pairs.map id ↔ ∀ e ∈ s.pub.pairs, narrow e = e :=
      List.map_inj_left
    rw [List.map_id] at hself
    rw [hlines, hself]
    unfold PubState.pairs
    rw [List.forall_mem_map]
    exact forall₂_congr fun r hr => narrow_eq_iff (h.counted r hr).1

end

/-! ## Short and long -/

/-- Both outputs, for one hour and a half. -/
def streamArgs : InputArgs :=
  { publisherDefaults with
    execSeconds := 5000
    latencyTest := true
    latencyLogFile := some "latency.csv"
    latencyStream := true }

/-- The system at its start. -/
def streamStart : Sys := sysInit sequenceType streamArgs false 1 none none 1000000

/-- One ping, `d` microseconds after the start of the loop, and its pong 90 microseconds later. -/
def pingAfter (d : ℕ) : List Label :=
  warmupLabels ++ [.tick d] ++ pingLabels ++ [.deliverPing 50 true, .tick 90, .deliverPong 0]

/-- The system after a run from `streamStart`. -/
def streamEnd (ls : List Label) : Sys :=
  (exec (sysStep bestEffort sequenceType defaultConfig streamArgs subscriberDefaults) streamStart ls).getD
    streamStart

theorem exec_pingAfter :
    exec (sysStep bestEffort sequenceType defaultConfig streamArgs subscriberDefaults) streamStart
      (pingAfter 10) = some (streamEnd (pingAfter 10)) := by
  decide +kernel

theorem streams_agree_soon :
    (streamEnd (pingAfter 10)).pub.ctx.latencyLog = some [(100, 45)] ∧
      (streamEnd (pingAfter 10)).pub.ctx.latLines = [(100, 45)] := by
  obtain ⟨log, hlog, -, -, -, -, hiff⟩ := streams_agree rfl rfl exec_pingAfter
  have heq : log = [(100, 45)] := Option.some.inj (hlog.symm.trans (by decide +kernel))
  rw [heq] at hlog hiff
  exact ⟨hlog, hiff.mpr (by decide +kernel)⟩

/-- A ping more than `2 ^ 32` microseconds into a test that the parser accepts: the log and the line
disagree. -/
theorem streams_disagree :
    parseArguments sequenceType (configDefaults .publisher)
        ["perftest", "-exec", "5000", "-latencyTest", "-latencyLog", "latency.csv", "-latencyStream"] =
      .ok streamArgs ∧
    exec (sysStep bestEffort sequenceType defaultConfig streamArgs subscriberDefaults) streamStart
      (pingAfter 4300000000) = some (streamEnd (pingAfter 4300000000)) ∧
    (streamEnd (pingAfter 4300000000)).pub.ctx.latencyLog = some [(4300000090, 45)] ∧
    (streamEnd (pingAfter 4300000000)).pub.ctx.latLines = [(5032794, 45)] := by
  decide +kernel

end PerftestLite
