import PerftestLite.Latency.Strict
import PerftestLite.Lib.Count

/-!
# Where the latencies come from

One sample is restamped and relabelled on every turn of the loop while echoes of earlier ones are in
flight. Still every latency counted is the round trip of a ping of its own, over every network that
does not duplicate.

* `PubStats`, `pubStats_step`: the statistics are those of the counted pongs;
* `Stamped`, `stamped_step`: no measured sample carries a stamp from the future;
* `latency_provenance`: the injection from the latencies to the pings.
-/

set_option autoImplicit false

namespace PerftestLite

open Word Machine Channel Count

/-- The latencies counted since the reset, in order. -/
def PubState.latencies (p : PubState) : List ℕ := p.records.map fun r => pongLatency r.1 r.2.timestampUs

/-- One entry of the history. -/
def saturated (latency : ℕ) : ℕ := if latency > 4294967295 then 4294967295 else latency

/-- The pings that went out. -/
def sentPings (ws : List (PerftestSample × Bool)) : List (PerftestSample × Bool) :=
  ws.filter fun w => w.2 && decide (w.1.kind = .dataPing)

/-- The statistics are those of the counted latencies. -/
structure PubStats (cfg : Config) (p : PubState) : Prop where
  count : p.ctx.latCount = p.latencies.length
  sum : p.ctx.latSumUs = u64 p.latencies.sum
  min : p.ctx.latMinUs = p.latencies.foldl min noLatency
  max : p.ctx.latMaxUs = p.latencies.foldl max 0
  history : ∀ h, p.ctx.latHistory = some h →
    h.Perm ((p.latencies.take cfg.latencyHistorySize).map saturated)
  reported : p.pc.reported = true → p.tmp.latencySamplesReceived ≤ p.latencies.length

/-- Every latency counted since the reset is the round trip of a ping of its own, halved and rounded
down; nothing else has entered the statistics. -/
structure Provenance (cfg : Config) (s : Sys) : Prop where
  stats : PubStats cfg s.pub
  pings : ∃ f : Fin s.pub.records.length → ℕ, Function.Injective f ∧ ∀ k,
    s.pub.writes[f k]? = some ((s.pub.records.get k).2, true) ∧
      (s.pub.records.get k).2.kind = .dataPing ∧
      (s.pub.records.get k).2.timestampUs ≤ (s.pub.records.get k).1 ∧
      pongLatency (s.pub.records.get k).1 (s.pub.records.get k).2.timestampUs =
        ((s.pub.records.get k).1 - (s.pub.records.get k).2.timestampUs) / 2
  bound : s.pub.ctx.latCount ≤ (sentPings s.pub.writes).length
  reported : s.pub.pc.measured = true →
    s.pub.tmp.latencySamplesReceived ≤ (sentPings s.pub.writes).length

section

variable {net : Net} {T : TypeInterface} {cfg : Config} {args subArgs : InputArgs} {s s' : Sys}
  {l : Label} {p p' : PubState} {now : ℕ}

/-! ## The statistics -/

/-- The history is the front of the latencies, saturated. -/
theorem recordHistory_take (cfg : Config) (lats : List ℕ) (latency : ℕ) :
    recordHistory cfg latency ((lats.take cfg.latencyHistorySize).map saturated) =
      ((lats ++ [latency]).take cfg.latencyHistorySize).map saturated := by
  unfold recordHistory
  rw [List.length_map, List.length_take]
  by_cases hroom : lats.length < cfg.latencyHistorySize
  · have hfit : (lats ++ [latency]).length ≤ cfg.latencyHistorySize := by
      rw [List.length_append]
      exact hroom
    rw [if_pos (by omega), List.take_of_length_le hroom.le, List.take_of_length_le hfit,
      List.map_append]
    rfl
  · rw [if_neg (by omega), List.take_append_of_le_length (not_lt.mp hroom)]

/-- Only the number of entries decides whether there is room. -/
theorem recordHistory_congr {h h' : List ℕ} (hp : h.Perm h') (latency : ℕ) :
    (recordHistory cfg latency h).Perm (recordHistory cfg latency h') := by
  unfold recordHistory
  rw [hp.length_eq]
  split_ifs
  · exact hp.append_right _
  · exact hp.append_right _
  · exact hp

theorem recordHistory_perm {h lats : List ℕ} {latency : ℕ}
    (hp : h.Perm ((lats.take cfg.latencyHistorySize).map saturated)) :
    (recordHistory cfg latency h).Perm
      (((lats ++ [latency]).take cfg.latencyHistorySize).map saturated) :=
  (recordHistory_congr hp latency).trans (.of_eq (recordHistory_take cfg lats latency))

theorem recordPong_min (cfg : Config) (now ts : ℕ) (c : PubCtx) :
    (recordPong cfg now ts c).latMinUs = min c.latMinUs (pongLatency now ts) := by
  change (if pongLatency now ts < c.latMinUs then pongLatency now ts else c.latMinUs) = _
  split_ifs <;> omega

theorem recordPong_max (cfg : Config) (now ts : ℕ) (c : PubCtx) :
    (recordPong cfg now ts c).latMaxUs = max c.latMaxUs (pongLatency now ts) := by
  change (if pongLatency now ts > c.latMaxUs then pongLatency now ts else c.latMaxUs) = _
  split_ifs <;> omega

theorem latencies_pong (cfg : Config) (now : ℕ) (x : PerftestSample) (p : PubState) :
    (p.pong cfg now x).latencies =
      if x.isData then p.latencies ++ [pongLatency now x.timestampUs] else p.latencies := by
  unfold PubState.latencies PubState.pong
  split_ifs <;> simp

/-- What leaves the statistics and the counted pongs alone. -/
theorem PubStats.still (h : PubStats cfg p) (hr : p'.records = p.records)
    (hc : p'.ctx.latCount = p.ctx.latCount) (hs : p'.ctx.latSumUs = p.ctx.latSumUs)
    (hn : p'.ctx.latMinUs = p.ctx.latMinUs) (hx : p'.ctx.latMaxUs = p.ctx.latMaxUs)
    (hh : p'.ctx.latHistory = p.ctx.latHistory)
    (hm : p'.pc.reported = true → p.pc.reported = true ∧
      p'.tmp.latencySamplesReceived = p.tmp.latencySamplesReceived) : PubStats cfg p' := by
  have hl : p'.latencies = p.latencies := by
    unfold PubState.latencies
    rw [hr]
  refine ⟨by rw [hc, hl, h.count], by rw [hs, hl, h.sum], by rw [hn, hl, h.min],
    by rw [hx, hl, h.max], by rw [hh, hl]; exact h.history, fun hm' => ?_⟩
  rw [(hm hm').2, hl]
  exact h.reported (hm hm').1

/-- The callback counts the latency it computes. -/
theorem pubStats_pong (h : PubStats cfg p) (x : PerftestSample) : PubStats cfg (p.pong cfg now x) := by
  have hl := latencies_pong cfg now x p
  cases hx : x.isData with
  | true =>
    rw [if_pos hx] at hl
    have hc : (p.pong cfg now x).ctx = recordPong cfg now x.timestampUs p.ctx :=
      pubOnPongSample_data cfg now hx p.ctx
    refine ⟨?_, ?_, ?_, ?_, fun hist hh => ?_, fun hm => ?_⟩
    · rw [hc, hl, List.length_append, List.length_singleton, ← h.count]
      rfl
    · rw [hc, hl, List.sum_append, List.sum_singleton]
      change u64 (p.ctx.latSumUs + _) = _
      rw [h.sum, u64, u64, u64, Nat.mod_add_mod]
    · rw [hc, hl, List.foldl_append, ← h.min, recordPong_min]
      rfl
    · rw [hc, hl, List.foldl_append, ← h.max, recordPong_max]
      rfl
    · rw [hc] at hh
      obtain ⟨hist₀, hh₀, rfl⟩ := Option.map_eq_some_iff.mp hh
      rw [hl]
      exact recordHistory_perm (h.history hist₀ hh₀)
    · rw [hl, List.length_append]
      exact (h.reported hm).trans (Nat.le_add_right _ _)
  | false =>
    obtain ⟨b, hb⟩ := pubOnPongSample_other cfg now (by rw [hx]; exact Bool.false_ne_true) p.ctx
    have hc : (p.pong cfg now x).ctx = { p.ctx with finishedRemote := b } := hb
    refine h.still ?_ (by rw [hc]) (by rw [hc]) (by rw [hc]) (by rw [hc]) (by rw [hc])
      fun hm => ⟨hm, rfl⟩
    simp [PubState.pong, hx]

/-- A statement of the result: one sorts the history, one takes the count over. -/
theorem PubStats.finish {f : FinishPc} (h : PubStats cfg p) (hr : p'.records = p.records)
    (hctx : p'.ctx = { p.ctx with
      latHistory := f.sorted p.ctx.latHistory, lastSeq := f.stored p.seq p.ctx.lastSeq })
    (htmp : p'.tmp = f.assign args now p)
    (hf : p'.pc.reported = true → f = .received ∨ p.pc.reported = true) : PubStats cfg p' := by
  have hl : p'.latencies = p.latencies := by
    unfold PubState.latencies
    rw [hr]
  refine ⟨by rw [hctx, hl, h.count], by rw [hctx, hl, h.sum], by rw [hctx, hl, h.min],
    by rw [hctx, hl, h.max], fun hist hh => ?_, fun hrep => ?_⟩
  · rw [hctx] at hh
    rw [hl]
    cases f with
    | sort =>
      obtain ⟨hist₀, hh₀, rfl⟩ := Option.map_eq_some_iff.mp hh
      exact (List.mergeSort_perm hist₀ _).trans (h.history hist₀ hh₀)
    | _ => exact h.history hist hh
  · rw [htmp, FinishPc.assign_received, hl]
    split_ifs with hrec
    · exact h.count.le
    · exact h.reported ((hf hrep).resolve_left hrec)

/-- The reset block empties the statistics, whatever they were. -/
theorem pubStats_reset (cfg : Config) (p : PubState) :
    PubStats cfg { p with pc := .begin, ctx := resetStats p.ctx, records := [] } := by
  refine ⟨rfl, rfl, rfl, rfl, fun hist hh => ?_, fun hm => by cases hm⟩
  obtain ⟨hist₀, -, rfl⟩ := Option.map_eq_some_iff.mp hh
  exact .of_eq (by simp [PubState.latencies])

/-- Every statement keeps the statistics. -/
theorem pubStats_main {ok : Bool} (h : PubStats cfg p) (hs : PubMain T cfg args now ok p p') :
    PubStats cfg p' := by
  cases hs with
  | reset hpc => exact pubStats_reset cfg p
  | finish f f' hpc hf =>
    exact h.finish rfl rfl rfl fun hrep => hpc ▸ FinishPc.reported_of_next hf hrep
  | finishEnd f hpc hf =>
    exact h.finish rfl rfl rfl fun _ => .inr (by rw [hpc, FinishPc.eq_maximum hf]; rfl)
  | report hpc | final _ hpc _ _ | finalEnd _ hpc _ | finalSleep _ hpc | shutdown hpc =>
    exact h.still rfl rfl rfl rfl rfl rfl fun _ => ⟨by rw [hpc]; rfl, rfl⟩
  | warmup hpc | burst _ hpc _ | burstEnd _ hpc _ | settle hpc | begin hpc | again hpc _ | leave hpc _
  | prepare hpc | writeWait hpc _ _ _ | writeOn hpc _ | taken _ hpc _ _ | expired _ hpc _ _ _ | sleep hpc
  | tick hpc _ | tickLine hpc _ _ | line _ _ hpc _ | lineEnd _ hpc _ =>
    exact h.still rfl rfl rfl rfl rfl rfl fun hm => by cases hm

/-- The match callback. -/
theorem PubStats.matched (h : PubStats cfg p) (change : ℤ) :
    PubStats cfg { p with ctx := pubOnReaderMatched change p.ctx } := by
  unfold pubOnReaderMatched
  split_ifs <;> exact h.still rfl rfl rfl rfl rfl rfl fun hm => ⟨hm, rfl⟩

/-- **The statistics are those of the counted pongs**, after every step of the publisher. -/
theorem pubStats_step {e : ℕ × PubAction} (h : PubStats cfg p)
    (hs : pubStep T cfg args p e = some p') : PubStats cfg p' := by
  obtain ⟨now, act⟩ := e
  cases act with
  | main ok => exact pubStats_main h (pubMain_cases hs)
  | pong x =>
    simp only [pubStep, Option.ite_none_left_eq_some, Option.some.injEq] at hs
    rw [← hs.2]
    exact pubStats_pong h x
  | matched change =>
    simp only [pubStep, Option.ite_none_left_eq_some, Option.some.injEq] at hs
    rw [← hs.2]
    exact h.matched change

/-! ## Stamps -/

/-- No measured sample carries a stamp from the future, and what was counted since the reset is all
that was answered. -/
structure Stamped (s : Sys) : Prop where
  next : s.pub.pc = .write → s.pub.sample.timestampUs ≤ s.clock
  written : ∀ w ∈ loopWrites s.pub.writes, w.1.timestampUs ≤ s.clock
  answered : ∀ a ∈ s.history.answered, a.2.sample.timestampUs ≤ a.1
  records : s.pub.records = s.history.answered.map fun a => (a.1, a.2.sample)

/-- Nothing is answered before the loop has begun. -/
theorem Genuine.answered_eq_nil (hg : Genuine s) (hc : PubCount args s.pub)
    (hph : s.pub.pc.phase = 0) : s.history.answered = [] := by
  refine List.eq_nil_iff_forall_not_mem.mpr fun a ha => ?_
  obtain ⟨hw, hk⟩ := hg.answered a ha
  have hmem : (a.2.sample, true) ∈ loopWrites s.pub.writes :=
    List.mem_filter.mpr ⟨hw.mem, PerftestSample.isData_eq hk⟩
  rw [(hc.before hph).1] at hmem
  cases hmem

/-- A statement stamps a sample with the clock or leaves it alone. -/
theorem Stamped.main (h : Stamped s) (hi : PubInv args s.pub) (hg : Genuine s) {ok : Bool}
    (hm : PubMain T cfg args s.clock ok s.pub p) :
    (p.pc = .write → p.sample.timestampUs ≤ s.clock) ∧
      (∀ w ∈ loopWrites p.writes, w.1.timestampUs ≤ s.clock) ∧
      p.records = s.history.answered.map fun a => (a.1, a.2.sample) := by
  have hlast : s.pub.pc = .write → ∀ w ∈ loopWrites (s.pub.wrote s.pub.sample ok),
      w.1.timestampUs ≤ s.clock := by
    intro hpc w hw
    rcases List.mem_append.mp ((List.mem_filter.mp hw).1) with hw' | hw'
    · exact h.written w (List.mem_filter.mpr ⟨hw', (List.mem_filter.mp hw).2⟩)
    · rw [List.mem_singleton.mp hw']
      exact h.next hpc
  cases hm with
  | reset hpc =>
    refine ⟨fun hw => (by cases hw), h.written, ?_⟩
    rw [hg.answered_eq_nil hi.count (by rw [hpc]; rfl)]
    rfl
  | prepare hpc => exact ⟨fun _ => le_rfl, h.written, h.records⟩
  | writeWait hpc hok _ _ =>
    refine ⟨fun hw => (by cases hw), ?_, h.records⟩
    rw [hok] at hlast
    exact hlast hpc
  | writeOn hpc _ => exact ⟨fun hw => (by cases hw), hlast hpc, h.records⟩
  | burst i hpc _ =>
    refine ⟨fun hw => (by cases hw), ?_, h.records⟩
    have hother : ({ s.pub.sample with timestampUs := s.clock } : PerftestSample).isData = false :=
      PerftestSample.isData_eq (hi.order.burst i hpc)
    exact (loopWrites_append_other hother).symm ▸ h.written
  | final k hpc _ _ =>
    refine ⟨fun hw => (by cases hw), ?_, h.records⟩
    have hother : s.pub.sample.isData = false :=
      PerftestSample.isData_eq (hi.order.final (by rw [hpc]; rfl))
    exact (loopWrites_append_other hother).symm ▸ h.written
  | warmup hpc | burstEnd _ hpc _ | settle hpc | begin hpc | again hpc _ | leave hpc _ | taken _ hpc _ _
  | expired _ hpc _ _ _ | sleep hpc | tick hpc _ | tickLine hpc _ _ | line _ _ hpc _ | lineEnd _ hpc _
  | finish _ _ hpc _ | finishEnd _ hpc _ | report hpc | finalEnd _ hpc _ | finalSleep _ hpc | shutdown hpc =>
    exact ⟨fun hw => (by cases hw), h.written, h.records⟩

theorem stamped_step (hi : PubInv args s.pub) (hg : Genuine s) (h : Stamped s)
    (hs : SysStep net T cfg args subArgs s l s') : Stamped s' := by
  cases hs with
  | tick d =>
    exact ⟨fun hw => (h.next hw).trans (Nat.le_add_right _ _),
      fun w hw => (h.written w hw).trans (Nat.le_add_right _ _), h.answered, h.records⟩
  | pub ok p hp =>
    obtain ⟨hnext, hwritten, hrec⟩ := h.main hi hg (pubMain_cases hp)
    have ha := answered_wait s.history s.pub ok
    exact ⟨hnext, hwritten, by rw [ha]; exact h.answered, by rw [ha]; exact hrec⟩
  | deliverPing i echoed m rest hd he hpc =>
    have ha := answered_ping s.history m s.sub.ctx (subOnSample T s.clock m.sample s.sub.ctx).1
    exact ⟨h.next, h.written, by rw [ha]; exact h.answered, by rw [ha]; exact h.records⟩
  | deliverPong i m rest hd hpc =>
    have ha := answered_pong s.history s.clock m
    cases hdata : m.sample.isData with
    | true =>
      rw [hdata, if_pos rfl] at ha
      have hmem : (m.sample, true) ∈ loopWrites s.pub.writes :=
        List.mem_filter.mpr ⟨(hg.pong m (mem_of_deliver hd)).1.mem, hdata⟩
      refine ⟨h.next, h.written, fun a hmem' => ?_, ?_⟩
      · change a ∈ (s.history.pong s.clock m).answered at hmem'
        rw [ha] at hmem'
        rcases List.mem_append.mp hmem' with hold | hnew
        · exact h.answered a hold
        · rw [List.mem_singleton.mp hnew]
          exact h.written _ hmem
      · change (if m.sample.isData then s.pub.records ++ [(s.clock, m.sample)] else _) = _
        rw [hdata, if_pos rfl, ha, List.map_append, h.records]
        rfl
    | false =>
      rw [hdata, if_neg Bool.false_ne_true] at ha
      refine ⟨h.next, h.written, by rw [ha]; exact h.answered, ?_⟩
      change (if m.sample.isData then _ else s.pub.records) = _
      rw [hdata, if_neg Bool.false_ne_true, ha]
      exact h.records
  | sub q hq | pubMatched change hpc | subMatched change hpc | dropPing i rest hd
  | dropPong i rest hd =>
    exact ⟨h.next, h.written, h.answered, h.records⟩

theorem stamped_init (T : TypeInterface) (args : InputArgs) (history : Bool) (matchedPubs : ℤ)
    (results subResults : Option Results) (clock : ℕ) :
    Stamped (sysInit T args history matchedPubs results subResults clock) :=
  ⟨fun hw => (by cases hw), by simp [sysInit, pubInit, loopWrites], by simp [sysInit, History.empty],
    rfl⟩

theorem pubStats_init (T : TypeInterface) (args : InputArgs) (history : Bool) (matchedPubs : ℤ)
    (results : Option Results) : PubStats cfg (pubInit T args history matchedPubs results) := by
  refine ⟨rfl, rfl, rfl, rfl, fun hist hh => ?_, fun hm => by cases hm⟩
  have hnil : hist = [] := by
    cases history <;> simp_all [pubInit, pubCtxInit]
  rw [hnil]
  exact .of_eq (by simp [PubState.latencies, pubInit])

/-! ## The injection -/

/-- **Provenance of the latencies.** For every test setting and every network that does not duplicate,
in every state of every run each latency counted since the reset belongs to a ping of its own that was
written successfully, and is half the time from its stamp to the delivery of its pong. -/
theorem latency_provenance {history : Bool} {matchedPubs : ℤ} {results subResults : Option Results}
    {clock : ℕ} {ls : List Label} (hd₁ : net.ping ≠ .duplicating) (hd₂ : net.pong ≠ .duplicating)
    (hrun : exec (sysStep net T cfg args subArgs)
      (sysInit T args history matchedPubs results subResults clock) ls = some s) :
    Provenance cfg s := by
  obtain ⟨-, hg, hone, hst, hstats⟩ := exec_invariant
    (I := fun s => PubInv args s.pub ∧ Genuine s ∧ Once s ∧ Stamped s ∧ PubStats cfg s.pub)
    (fun s l s' h hs => by
      obtain ⟨hi, hg, hone, hst, hstats⟩ := h
      have hs' := sysStep_cases hs
      exact ⟨sys_pubInv hi hs', genuine_step hg hs', once_step hd₁ hd₂ hg hone hs',
        stamped_step hi hg hst hs', sys_pub_invariant (fun _ _ _ h hp => pubStats_step h hp) hstats hs'⟩)
    hrun ⟨pubInv_init _ _ _ _ _, genuine_init _ _ _ _ _ _ _, once_init _ _ _ _ _ _ _,
      stamped_init _ _ _ _ _ _ _, pubStats_init _ _ _ _ _⟩
  have hlen : s.pub.records.length = s.history.answered.length := by
    rw [hst.records, List.length_map]
  have hnodup : (s.history.answered.map fun a => a.2.origin).Nodup :=
    List.nodup_iff_count_le_one.mpr fun i => by
      have := hone i
      unfold Sys.copies at this
      omega
  have hbound : s.pub.latencies.length ≤ (sentPings s.pub.writes).length := by
    have := length_le_countP (q := fun w : PerftestSample × Bool => w.2 && decide (w.1.kind = .dataPing))
      hnodup fun i hi => by
        obtain ⟨a, ha, rfl⟩ := List.mem_map.mp hi
        obtain ⟨hw, hk⟩ := hg.answered a ha
        exact ⟨_, hw, by simp [hk]⟩
    rw [List.length_map] at this
    rw [PubState.latencies, List.length_map, hlen, sentPings, ← List.countP_eq_length_filter]
    exact this
  refine ⟨hstats, ⟨fun k => (s.history.answered.get (k.cast hlen)).2.origin, fun k j hkj => ?_,
    fun k => ?_⟩, hstats.count.le.trans hbound, fun hm =>
      (hstats.reported (PubPc.reported_of_measured hm)).trans hbound⟩
  · have h1 : (k : ℕ) < (s.history.answered.map fun a => a.2.origin).length := by simp [← hlen]
    have h2 : (j : ℕ) < (s.history.answered.map fun a => a.2.origin).length := by simp [← hlen]
    have := List.nodup_iff_injective_get.mp hnodup
      (show List.get _ ⟨k, h1⟩ = List.get _ ⟨j, h2⟩ by simpa using hkj)
    exact Fin.ext (Fin.mk.inj this)
  · have hmem := List.get_mem s.history.answered (k.cast hlen)
    have hrec : s.pub.records.get k = ((s.history.answered.get (k.cast hlen)).1,
        (s.history.answered.get (k.cast hlen)).2.sample) := by
      simp [hst.records]
    obtain ⟨hw, hk⟩ := hg.answered _ hmem
    have hle := hst.answered _ hmem
    rw [hrec]
    refine ⟨hw, hk, hle, ?_⟩
    unfold pongLatency
    split_ifs with hlt
    · rfl
    · dsimp only at hlt ⊢
      omega

end

/-- One ping of a run over a network that may lose and reorder: its latency is the one counted. -/
theorem latency_provenance_answered :
    (latencyEnd answeredPing).pub.latencies = [45] ∧ Provenance defaultConfig (latencyEnd answeredPing) :=
  ⟨by decide +kernel, latency_provenance (by decide) (by decide) exec_answeredPing⟩

end PerftestLite
