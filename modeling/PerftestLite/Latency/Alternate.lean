import PerftestLite.Latency.Strict
import PerftestLite.Lib.Count

/-!
# Strict alternation, reliable

Over topics that deliver everything in order and once, with echoes that succeed and a wait that ends
by a token only, ping and pong alternate: while the publisher waits there is exactly one data sample
in flight or one token, and at any other time there is neither.

* `Counted`, `counted_main`: the counters of the publisher, up to the samples in flight;
* `Alternate`, `alternate_step`: the invariant;
* `strict_alternation`: what it means for the pings.
-/

set_option autoImplicit false

namespace PerftestLite

open Word Machine Channel Count

/-- The data samples in a channel. -/
def dataIn (ch : List Msg) : ℕ := ch.countP fun m => m.sample.isData

/-- The data samples in flight. -/
def Sys.inFlight (s : Sys) : ℕ := dataIn s.pings + dataIn s.pongs

/-- One for a token, none for none. -/
def Semaphore.tokens (s : Semaphore) : ℕ := if s.token then 1 else 0

/-- What a reliable middleware promises: everything arrives, in order and once, and echoes succeed. -/
def reliableNet : Net := ⟨.ordered, .ordered, false⟩

/-- The counters of the publisher while `k` data samples are in flight. -/
structure Counted (p : PubState) (k : ℕ) : Prop where
  before : p.pc.phase = 0 → p.ctx.latCount = 0
  count : p.pc.phase ≠ 0 → p.total = p.ctx.latCount + k
  reported : p.pc.reported = true → p.tmp.latencySamplesReceived = p.tmp.totalSamples

/-- Ping and pong alternate. -/
structure Alternate (s : Sys) : Prop where
  live : s.pub.ctx.latencySem.Live
  flow : s.inFlight + s.pub.ctx.latencySem.tokens = if s.pub.pc.waiting then 1 else 0
  kept : ∀ (i : ℕ) (x : PerftestSample), s.pub.writes[i]? = some (x, true) → x.isData = true →
    1 ≤ s.copies i
  counted : Counted s.pub s.inFlight

/-- Whenever a ping is about to be written there is no token, every ping before it has been answered
and counted, at most one ping is ever unanswered, and the loop ends with as many latencies as samples. -/
def StrictAlternation (s : Sys) : Prop :=
  (s.pub.pc = .write → s.pub.ctx.latencySem.token = false ∧ s.pub.ctx.latCount = s.pub.total ∧
    ∀ (i : ℕ) (x : PerftestSample), s.pub.writes[i]? = some (x, true) → x.isData = true →
      s.Answered i) ∧
  (∀ (i j : ℕ) (x y : PerftestSample), s.pub.writes[i]? = some (x, true) → x.isData = true →
    s.pub.writes[j]? = some (y, true) → y.isData = true → ¬ s.Answered i → ¬ s.Answered j → i = j) ∧
  (s.pub.pc.measured = true → s.pub.tmp.latencySamplesReceived = s.pub.tmp.totalSamples)

section

variable {T : TypeInterface} {cfg : Config} {args subArgs : InputArgs} {s s' : Sys} {l : Label}

theorem dataIn_append (ch ch' : List Msg) : dataIn (ch ++ ch') = dataIn ch + dataIn ch' :=
  List.countP_append

theorem dataIn_cons (m : Msg) (ch : List Msg) :
    dataIn (m :: ch) = dataIn ch + if m.sample.isData then 1 else 0 := by
  simp [dataIn, List.countP_cons]

/-- In latency-test mode the samples of the loop are pings. -/
theorem PubCount.kind_dataPing {p : PubState} (h : PubCount args p) (hl : args.latencyTest = true)
    {x : PerftestSample} {ok : Bool} (hx : (x, ok) ∈ p.writes) (hdata : x.isData = true) :
    x.kind = .dataPing := by
  have := h.kinds (x, ok) (List.mem_filter.mpr ⟨hx, hdata⟩)
  simpa [loopKind, isPing, hl] using this

/-- The statements of the result: as many latencies as samples. -/
theorem PubFinal.received_eq {now : ℕ} {p : PubState} {f : FinishPc} (h : PubFinal p) (hpc : p.pc = .finish f)
    (hcount : p.total = p.ctx.latCount)
    (hm : p.pc.reported = true → p.tmp.latencySamplesReceived = p.tmp.totalSamples)
    (hf : f = .received ∨ p.pc.reported = true) :
    (f.assign args now p).latencySamplesReceived = (f.assign args now p).totalSamples := by
  have hstored : p.pc.tallied = true := by
    rcases hf with rfl | hrep
    · rw [hpc]
      rfl
    · exact PubPc.tallied_of_reported hrep
  rw [(h.finish hpc (.inr hstored)).2, FinishPc.assign_received]
  split_ifs with hr
  · exact hcount.symm
  · rw [hm (hf.resolve_left hr), (h.lastSeq hstored).2]

/-- A statement keeps the counters: only the write of a ping adds a sample in flight. -/
theorem counted_main {now : ℕ} {ok : Bool} {p p' : PubState} {k : ℕ} (hl : args.latencyTest = true)
    (hfinal : PubFinal p) (h : Counted p k) (hk : p.pc.waiting = false → k = 0)
    (hs : pubMain T cfg args now ok p = some p') :
    Counted p' (k + if p.pc = .write ∧ ok = true then 1 else 0) := by
  obtain ⟨hb, hc, hm⟩ := h
  have hno : p.pc ≠ .write → (if p.pc = .write ∧ ok = true then 1 else 0) = 0 :=
    fun h => if_neg fun h' => h h'.1
  cases pubMain_cases hs with
  | warmup hpc | burst _ hpc _ | burstEnd _ hpc _ | settle hpc =>
    exact ⟨fun _ => hb (by rw [hpc]; rfl), fun h => absurd rfl h, fun h => (by cases h)⟩
  | reset hpc => exact ⟨fun _ => rfl, fun h => absurd rfl h, fun h => (by cases h)⟩
  | begin hpc =>
    refine ⟨fun h => (by cases h), fun _ => ?_, fun h => (by cases h)⟩
    have h0 := hb (by rw [hpc]; rfl)
    rw [hk (by rw [hpc]; rfl), hno (by simp [hpc])]
    exact h0.symm
  | writeWait hpc hok _ _ =>
    refine ⟨fun h => (by cases h), fun _ => ?_, fun h => (by cases h)⟩
    have := hc (by rw [hpc]; simp [PubPc.phase])
    rw [if_pos ⟨hpc, hok⟩]
    change p.total + 1 = p.ctx.latCount + (k + 1)
    omega
  | writeOn hpc hw =>
    have hok : ok = false := by simpa [isPing, hl] using hw
    refine ⟨fun h => (by cases h), fun _ => ?_, fun h => (by cases h)⟩
    have := hc (by rw [hpc]; simp [PubPc.phase])
    simp [hok, this]
  | again hpc _ | leave hpc _ | prepare hpc | sleep hpc | tick hpc _ | tickLine hpc _ _ | line _ _ hpc _
  | lineEnd _ hpc _ | taken _ hpc _ _ | expired _ hpc _ _ _ =>
    refine ⟨fun h => (by cases h), fun _ => ?_, fun h => (by cases h)⟩
    have := hc (by rw [hpc]; simp [PubPc.phase])
    rw [hno (by simp [hpc])]
    exact this
  | finish f f' hpc hf =>
    have hcount := hc (by rw [hpc]; simp [PubPc.phase])
    refine ⟨fun h => (by cases h), fun _ => ?_, fun hrep => ?_⟩
    · rw [hno (by simp [hpc])]
      exact hcount
    · rw [hk (by rw [hpc]; rfl)] at hcount
      exact hfinal.received_eq hpc hcount hm (hpc ▸ FinishPc.reported_of_next hf hrep)
  | finishEnd f hpc hf =>
    have hcount := hc (by rw [hpc]; simp [PubPc.phase])
    refine ⟨fun h => (by cases h), fun _ => ?_, fun _ => ?_⟩
    · rw [hno (by simp [hpc])]
      exact hcount
    · rw [hk (by rw [hpc]; rfl)] at hcount
      exact hfinal.received_eq hpc hcount hm (.inr (by rw [hpc, FinishPc.eq_maximum hf]; rfl))
  | report hpc | final _ hpc _ _ | finalEnd _ hpc _ | finalSleep _ hpc | shutdown hpc =>
    refine ⟨fun h => (by cases h), fun _ => ?_, fun _ => hm (by rw [hpc]; rfl)⟩
    have := hc (by rw [hpc]; simp [PubPc.phase])
    rw [hno (by simp [hpc])]
    exact this

/-- A statement of the publisher. -/
theorem Alternate.pub (h : Alternate s) (hi : PubInv args s.pub) (hl : args.latencyTest = true)
    (hr : args.reliable = true) {ok : Bool} {p : PubState}
    (hp : pubMain T cfg args s.clock ok s.pub = some p) :
    p.ctx.latencySem.Live ∧
      dataIn (messages s.pub.writes.length (p.writes.drop s.pub.writes.length)) =
        (if s.pub.pc = .write ∧ ok = true then 1 else 0) ∧
      s.inFlight + (if s.pub.pc = .write ∧ ok = true then 1 else 0) + p.ctx.latencySem.tokens =
        if p.pc.waiting then 1 else 0 := by
  obtain ⟨hlive, hflow, -, -⟩ := h
  rcases pubMain_wait hi.order hl hp with ⟨hpc, hw', hctx, hok, hw⟩ |
    ⟨hw, hpc', hws, hok, htok, hctx⟩ | ⟨-, -, -, -, -, -, hbest⟩ | hq
  · have hdata : s.pub.sample.isData = true := by
      rw [PerftestSample.isData_eq (hi.order.write hpc).1]
      exact loopKind_isData args _
    rw [hpc, show PubPc.write.waiting = false from rfl, if_neg Bool.false_ne_true] at hflow
    refine ⟨by rw [hctx]; exact hlive, ?_, ?_⟩
    · rw [hw, messages_drop, if_pos rfl, if_pos ⟨hpc, hok⟩]
      simp [dataIn, hdata]
    · rw [if_pos ⟨hpc, hok⟩, hw', if_pos rfl, hctx]
      omega
  · have hne : ¬ (s.pub.pc = .write ∧ ok = true) := fun h => by
      rw [h.1] at hw
      cases hw
    rw [hw, if_pos rfl, Semaphore.tokens, htok, if_pos rfl] at hflow
    refine ⟨by rw [hctx]; exact hlive.take.1, ?_, ?_⟩
    · rw [hws, messages_none, if_neg hne]
      rfl
    · have htok' : p.ctx.latencySem.tokens = 0 := by
        rw [hctx, Semaphore.tokens]
        exact if_neg (by rw [hlive.take.2]; exact Bool.false_ne_true)
      rw [if_neg hne, htok', hpc', show PubPc.sleep.waiting = false from rfl,
        if_neg Bool.false_ne_true]
      omega
  · rw [hr] at hbest
    cases hbest
  · have hne : ¬ (s.pub.pc = .write ∧ ok = true) := fun h => by
      rw [hq.failed h.1] at h
      cases h.2
    rw [hq.before, if_neg Bool.false_ne_true] at hflow
    refine ⟨by rw [hq.sem]; exact hlive, ?_, ?_⟩
    · rw [if_neg hne]
      refine List.countP_eq_zero.mpr fun m hm hdata => ?_
      rcases pubMain_writes hp with hw | ⟨x, hw, -⟩
      · rw [hw, messages_none] at hm
        cases hm
      · rw [hw] at hm
        have hwr := messages_written hm
        rw [← hw] at hwr
        have hold := (List.getElem?_eq_some_iff.mp (hq.writes _ _ hwr hdata)).1
        rw [messages_drop] at hm
        split_ifs at hm
        · rw [List.mem_singleton.mp hm] at hold
          exact absurd hold (lt_irrefl _)
        · cases hm
    · rw [if_neg hne, hq.sem, hq.after, if_neg Bool.false_ne_true]
      exact hflow

/-- Over reliable topics no copy of a ping is lost. -/
theorem copies_kept (hg : Genuine s) (hs : SysStep reliableNet T cfg args subArgs s l s') {i : ℕ}
    {x : PerftestSample} (hi : s.pub.writes[i]? = some (x, true)) (hx : x.kind = .dataPing) :
    s.copies i ≤ s'.copies i := by
  have hsample : ∀ m : Msg, m.Written s.pub.writes → m.origin = i → m.sample.kind = .dataPing := by
    intro m hm hmo
    unfold Msg.Written at hm
    rw [hmo, hi] at hm
    cases hm
    exact hx
  unfold Sys.copies
  cases hs with
  | tick d | sub q hq | pubMatched change hpc | subMatched change hpc => exact le_rfl
  | pub ok p hm =>
    dsimp only
    rw [answered_wait, List.map_append, List.count_append]
    omega
  | deliverPing j echoed m rest hd he hpc =>
    have h1 := count_of_deliver (d := .ordered) (by decide) hd i
    have h2 : (if m.origin = i then 1 else 0) ≤
        ((echoOf m (subOnSample T s.clock m.sample s.sub.ctx).2 echoed).map Msg.origin).count i := by
      by_cases hmo : m.origin = i
      · have hk := hsample m (hg.ping m (mem_of_deliver hd)) hmo
        rw [he rfl, subOnSample_echo, hk]
        simp [echoOf, hmo]
      · rw [if_neg hmo]
        exact Nat.zero_le _
    dsimp only
    rw [answered_ping, List.map_append, List.count_append]
    omega
  | dropPing j rest hd => exact absurd hd (by simp [reliableNet, drop_ordered])
  | deliverPong j m rest hd hpc =>
    have h1 := count_of_deliver (d := .ordered) (by decide) hd i
    have h2 : (s.history.answered.map fun a => a.2.origin).count i + (if m.origin = i then 1 else 0) ≤
        ((s.history.pong s.clock m).answered.map fun a => a.2.origin).count i := by
      rw [answered_pong]
      by_cases hmo : m.origin = i
      · have hk := hsample m (hg.pong m (mem_of_deliver hd)).1 hmo
        have hdata : m.sample.isData = true := PerftestSample.isData_eq hk
        rw [if_pos hdata, List.map_append, List.count_append]
        simp [hmo]
      · rw [if_neg hmo]
        split_ifs
        · rw [List.map_append, List.count_append]
          omega
        · exact le_rfl
    dsimp only
    omega
  | dropPong j rest hd => exact absurd hd (by simp [reliableNet, drop_ordered])

theorem alternate_step (hl : args.latencyTest = true) (hr : args.reliable = true)
    (hi : PubInv args s.pub) (hg : Genuine s) (h : Alternate s)
    (hs : SysStep reliableNet T cfg args subArgs s l s') : Alternate s' := by
  have hkept : ∀ (i : ℕ) (x : PerftestSample), s.pub.writes[i]? = some (x, true) → x.isData = true →
      1 ≤ s'.copies i := fun i x hw hx =>
    (h.kept i x hw hx).trans (copies_kept hg hs hw
      (hi.count.kind_dataPing hl (List.mem_of_getElem? hw) hx))
  cases hs with
  | tick d | sub q hq | subMatched change hpc => exact ⟨h.live, h.flow, hkept, h.counted⟩
  | pubMatched change hpc =>
    obtain ⟨hlive, hflow, -, hb, hc, hm⟩ := h
    exact ⟨by simpa using hlive, by simpa [Sys.inFlight] using hflow, hkept,
      ⟨by simpa using hb, by simpa [Sys.inFlight] using hc, hm⟩⟩
  | pub ok p hp =>
    obtain ⟨hlive, hnew, hflow⟩ := h.pub hi hl hr hp
    have hin : Sys.inFlight { s with
        pub := p
        pings := s.pings ++ messages s.pub.writes.length (p.writes.drop s.pub.writes.length)
        history := s.history.wait s.pub ok } =
          s.inFlight + if s.pub.pc = .write ∧ ok = true then 1 else 0 := by
      change dataIn (s.pings ++ _) + dataIn s.pongs = dataIn s.pings + dataIn s.pongs + _
      rw [dataIn_append, hnew]
      omega
    have hk : s.pub.pc.waiting = false → s.inFlight = 0 := fun hw => by
      have := h.flow
      rw [hw, if_neg Bool.false_ne_true] at this
      omega
    refine ⟨hlive, by rw [hin]; exact hflow, fun i x hw hx => ?_,
      by rw [hin]; exact counted_main hl hi.final h.counted hk hp⟩
    -- a ping just written is in flight, the others are where they were
    rcases pubMain_writes hp with hws | ⟨y, hws, -⟩
    · exact hkept i x (hws ▸ hw) hx
    · change p.writes[i]? = some (x, true) at hw
      rw [hws, List.getElem?_append] at hw
      split_ifs at hw with hlt
      · exact hkept i x hw hx
      · obtain ⟨hlt', heq⟩ := List.getElem?_eq_some_iff.mp hw
        rw [List.length_singleton] at hlt'
        rw [List.getElem_singleton] at heq
        cases heq
        have hlen : i = s.pub.writes.length := by omega
        have : 1 ≤ ((s.pings ++ messages s.pub.writes.length
            (p.writes.drop s.pub.writes.length)).map Msg.origin).count i := by
          rw [hws, messages_drop, if_pos rfl, List.map_append, List.count_append, hlen]
          simp
        unfold Sys.copies
        dsimp only
        omega
  | deliverPing j echoed m rest hd he hpc =>
    have hord := deliver_ordered (show deliver .ordered s.pings j = some (m, rest) from hd)
    have hecho : dataIn (echoOf m (subOnSample T s.clock m.sample s.sub.ctx).2 echoed) =
        if m.sample.isData then 1 else 0 := by
      rw [he rfl, subOnSample_echo]
      by_cases hdata : m.sample.isData = true
      · have hk := hi.count.kind_dataPing hl
          (hg.ping m (mem_of_deliver hd)).mem hdata
        simp [echoOf, hk, dataIn, hdata]
      · unfold echoOf
        split_ifs <;> simp [dataIn, hdata]
    have hin : dataIn rest + dataIn (s.pongs ++
        echoOf m (subOnSample T s.clock m.sample s.sub.ctx).2 echoed) = s.inFlight := by
      unfold Sys.inFlight
      rw [dataIn_append, hecho, hord, dataIn_cons]
      omega
    exact ⟨h.live, by rw [← h.flow, ← hin]; rfl, hkept, by
      have := h.counted
      rw [← hin] at this
      exact this⟩
  | deliverPong j m rest hd hpc =>
    have hord := deliver_ordered (show deliver .ordered s.pongs j = some (m, rest) from hd)
    obtain ⟨hlive, hflow, -, hb, hc, hm⟩ := h
    have hin : s.inFlight = dataIn s.pings + dataIn rest + if m.sample.isData then 1 else 0 := by
      unfold Sys.inFlight
      rw [hord, dataIn_cons]
      omega
    by_cases hdata : m.sample.isData = true
    · rw [if_pos hdata] at hin
      have hsem : (s.pub.pong cfg s.clock m.sample).ctx.latencySem = s.pub.ctx.latencySem.give := by
        change (pubOnPongSample cfg s.clock m.sample s.pub.ctx).latencySem = _
        rw [pubOnPongSample_sem, if_pos hdata]
      have hcount : (s.pub.pong cfg s.clock m.sample).ctx.latCount = s.pub.ctx.latCount + 1 := by
        change (pubOnPongSample cfg s.clock m.sample s.pub.ctx).latCount = _
        rw [pubOnPongSample_count, if_pos hdata]
      have hwait : s.pub.pc.waiting = true := by
        by_contra hw
        rw [if_neg hw] at hflow
        omega
      have hph : s.pub.pc.phase = 1 := by
        revert hwait
        cases s.pub.pc <;> simp [PubPc.waiting, PubPc.phase]
      have htok : s.pub.ctx.latencySem.give.tokens = 1 := by
        rw [Semaphore.tokens, hlive.give.2, if_pos rfl]
      rw [hwait, if_pos rfl] at hflow
      refine ⟨by rw [hsem]; exact hlive.give.1, ?_, hkept, ?_, ?_, hm⟩
      · change dataIn s.pings + dataIn rest +
          (s.pub.pong cfg s.clock m.sample).ctx.latencySem.tokens = if s.pub.pc.waiting then 1 else 0
        rw [hsem, htok, hwait, if_pos rfl]
        omega
      · intro h0
        exact absurd (show s.pub.pc.phase = 0 from h0) (by omega)
      · intro h0
        have := hc h0
        change s.pub.total = (s.pub.pong cfg s.clock m.sample).ctx.latCount +
          (dataIn s.pings + dataIn rest)
        rw [hcount]
        omega
    · rw [if_neg hdata, Nat.add_zero] at hin
      have hsem : (s.pub.pong cfg s.clock m.sample).ctx.latencySem = s.pub.ctx.latencySem := by
        change (pubOnPongSample cfg s.clock m.sample s.pub.ctx).latencySem = _
        rw [pubOnPongSample_sem, if_neg hdata]
      have hcount : (s.pub.pong cfg s.clock m.sample).ctx.latCount = s.pub.ctx.latCount := by
        change (pubOnPongSample cfg s.clock m.sample s.pub.ctx).latCount = _
        rw [pubOnPongSample_count, if_neg hdata]
      rw [hin] at hflow hc
      exact ⟨by rw [hsem]; exact hlive, by rw [hsem]; exact hflow, hkept,
        ⟨fun h0 => by rw [hcount]; exact hb h0, fun h0 => by rw [hcount]; exact hc h0, hm⟩⟩
  | dropPing j rest hd => exact absurd hd (by simp [reliableNet, drop_ordered])
  | dropPong j rest hd => exact absurd hd (by simp [reliableNet, drop_ordered])

theorem alternate_init (T : TypeInterface) (args : InputArgs) (history : Bool) (matchedPubs : ℤ)
    (results subResults : Option Results) (clock : ℕ) :
    Alternate (sysInit T args history matchedPubs results subResults clock) where
  live := ⟨false, rfl⟩
  flow := rfl
  kept := by simp [sysInit, pubInit]
  counted := ⟨fun _ => rfl, fun h => absurd rfl h, fun h => (by cases h)⟩

/-! ## What the invariant says about the pings -/

/-- A ping that was not answered is in flight. -/
theorem Alternate.in_flight (h : Alternate s) (hg : Genuine s) {i : ℕ} {x : PerftestSample}
    (hi : s.pub.writes[i]? = some (x, true)) (hx : x.isData = true) (hn : ¬ s.Answered i) :
    ∃ m ∈ s.pings ++ s.pongs, m.origin = i ∧ m.sample.isData = true := by
  have hzero : (s.history.answered.map fun a => a.2.origin).count i = 0 := by
    refine List.count_eq_zero.mpr fun hmem => hn ?_
    obtain ⟨a, ha, hao⟩ := List.mem_map.mp hmem
    exact ⟨a, ha, hao⟩
  have hpos : 0 < ((s.pings ++ s.pongs).map Msg.origin).count i := by
    have := h.kept i x hi hx
    unfold Sys.copies at this
    rw [List.map_append, List.count_append]
    omega
  obtain ⟨m, hm, rfl⟩ := List.mem_map.mp (List.count_pos_iff.mp hpos)
  have hw : m.Written s.pub.writes := by
    rcases List.mem_append.mp hm with hm | hm
    · exact hg.ping m hm
    · exact (hg.pong m hm).1
  have hsample : m.sample = x := by
    have := hw.symm.trans hi
    cases this
    rfl
  exact ⟨m, hm, rfl, hsample ▸ hx⟩

theorem Sys.inFlight_eq (s : Sys) : s.inFlight = dataIn (s.pings ++ s.pongs) :=
  (dataIn_append _ _).symm

/-- **Strict alternation.** In reliable latency-test mode, over reliable topics and for every pattern
of failing writes, ping and pong alternate in every state of every run. -/
theorem strict_alternation {history : Bool} {matchedPubs : ℤ} {results subResults : Option Results}
    {clock : ℕ} {ls : List Label} (hl : args.latencyTest = true) (hr : args.reliable = true)
    (hrun : exec (sysStep reliableNet T cfg args subArgs)
      (sysInit T args history matchedPubs results subResults clock) ls = some s) :
    StrictAlternation s := by
  obtain ⟨-, hg, h⟩ := exec_invariant (I := fun s => PubInv args s.pub ∧ Genuine s ∧ Alternate s)
    (fun s l s' h hs => by
      obtain ⟨hi, hg, ha⟩ := h
      have hs' := sysStep_cases hs
      exact ⟨sys_pubInv hi hs', genuine_step hg hs', alternate_step hl hr hi hg ha hs'⟩)
    hrun ⟨pubInv_init _ _ _ _ _, genuine_init _ _ _ _ _ _ _, alternate_init _ _ _ _ _ _ _⟩
  refine ⟨fun hpc => ?_, fun i j x y hi hx hj hy hni hnj => ?_, fun hm =>
    h.counted.reported (PubPc.reported_of_measured hm)⟩
  · have hflow := h.flow
    rw [hpc, show PubPc.write.waiting = false from rfl, if_neg Bool.false_ne_true] at hflow
    refine ⟨?_, ?_, fun i x hi hx => ?_⟩
    · by_contra htok
      rw [Semaphore.tokens, if_pos (by simpa using htok)] at hflow
      omega
    · have := h.counted.count (by rw [hpc]; simp [PubPc.phase])
      omega
    · by_contra hn
      obtain ⟨m, hm, -, hdata⟩ := h.in_flight hg hi hx hn
      have hpos : 0 < dataIn (s.pings ++ s.pongs) := List.countP_pos_iff.mpr ⟨m, hm, hdata⟩
      rw [← Sys.inFlight_eq] at hpos
      omega
  · obtain ⟨m, hm, rfl, hdm⟩ := h.in_flight hg hi hx hni
    obtain ⟨n, hn, rfl, hdn⟩ := h.in_flight hg hj hy hnj
    have hone : dataIn (s.pings ++ s.pongs) ≤ 1 := by
      have := h.flow
      rw [← Sys.inFlight_eq]
      split_ifs at this <;> omega
    rw [eq_of_countP_le_one hone hm hdm hn hdn]

end

/-! ## A run -/

/-- A publisher started with `-latencyTest -reliable`. -/
def reliableArgs : InputArgs := { latencyArgs with reliable := true }

/-- Both sides, the clock at one second. -/
def reliableStart : Sys := sysInit sequenceType reliableArgs false 1 none none 1000000

/-- A ping whose write fails, a ping that is answered behind the echoes of the warm-up burst, and the
sample of the next one. -/
def alternatingRun : List Label :=
  warmupLabels ++ [.pub true, .pub true, .pub false] ++ nextLabels ++ [.pub true] ++
    List.replicate (defaultConfig.initBurst + 1) (.deliverPing 0 true) ++
    List.replicate (defaultConfig.initBurst + 1) (.deliverPong 0) ++ [.pub true] ++ nextLabels

/-- The system after that run. -/
def alternatingEnd : Sys :=
  (exec (sysStep reliableNet sequenceType defaultConfig reliableArgs subscriberDefaults) reliableStart
    alternatingRun).getD reliableStart

theorem exec_alternatingRun :
    exec (sysStep reliableNet sequenceType defaultConfig reliableArgs subscriberDefaults) reliableStart
      alternatingRun = some alternatingEnd := by
  decide +kernel

theorem strict_alternation_run : alternatingEnd.pub.pc = .write ∧ StrictAlternation alternatingEnd :=
  ⟨by decide +kernel, strict_alternation rfl rfl exec_alternatingRun⟩

end PerftestLite
