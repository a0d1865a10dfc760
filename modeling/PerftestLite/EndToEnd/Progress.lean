import PerftestLite.Handshake.Final
import PerftestLite.Latency.Alternate
import PerftestLite.Lib.Progress

/-!
# No dead end

The publisher waits in one place, for a token. Where the wait is endless the pong that brings the token is
on its way, as long as the topics are reliable; where it is not, time ends it.

* `Lively`, `lively_step`: what is known of both engines in every state of a run;
* `PubPc.rank`, `lively_lowers`: some events always bring the publisher closer to its end;
* `PubState.mayFinalize`: as far as its last `FINALIZATION`;
* `publisher_can_finish`.
-/

set_option autoImplicit false

namespace PerftestLite

open Word Machine Channel

/-- The subscriber has seen its `finished`. -/
def SubPc.ending : SubPc → Bool
  | .capture | .shutdown | .done => true
  | _ => false

/-- What is known of both engines. -/
structure Lively (args : InputArgs) (s : Sys) : Prop where
  inv : PubInv args s.pub
  genuine : Genuine s
  alternate : args.latencyTest = true → args.reliable = true → Alternate s
  rounds : ∀ k, s.pub.pc = .final k → k ≤ 10
  pauses : ∀ k, s.pub.pc = .finalSleep k → k < 10
  waits : s.pub.pc.waiting = true → args.latencyTest = true
  started : s.pub.t0 ≤ s.clock
  announced : s.sub.ctx.finished = true → s.pub.pc.phase = 2
  answered : s.pub.ctx.finishedRemote = true → s.pub.pc.phase = 2
  ending : s.sub.pc.ending = true → s.sub.ctx.finished = true

variable {net : Net} {T : TypeInterface} {cfg : Config} {args subArgs : InputArgs} {s s' : Sys}
  {l : Label} {p p' : PubState} {now : ℕ} {ok : Bool}

/-! ## The invariant -/

/-- The counters of the main thread of the publisher. -/
theorem lively_main (hpauses : ∀ k, p.pc = .finalSleep k → k < 10) (hstarted : p.t0 ≤ now)
    (hs : PubMain T cfg args now ok p p') :
    (∀ k, p'.pc = .final k → k ≤ 10) ∧ (∀ k, p'.pc = .finalSleep k → k < 10) ∧
      (p'.pc.waiting = true → args.latencyTest = true) ∧ p'.t0 ≤ now ∧
      (p.pc.phase = 2 → p'.pc.phase = 2) := by
  have hno : ∀ {P : Prop} {pc : PubPc}, p.pc = pc → pc.phase ≠ 2 → p.pc.phase = 2 → P :=
    fun hpc hne h => absurd (hpc ▸ h) hne
  cases hs with
  | final k hpc hk _ =>
    exact ⟨fun j h => (by cases h), fun j h => (by cases h; exact hk), fun h => (by cases h), hstarted,
      fun _ => rfl⟩
  | finalSleep k hpc =>
    exact ⟨fun j h => (by cases h; exact hpauses k hpc), fun j h => (by cases h), fun h => (by cases h),
      hstarted, fun _ => rfl⟩
  | report hpc =>
    exact ⟨fun j h => (by cases h; exact Nat.zero_le 10), fun j h => (by cases h), fun h => (by cases h),
      hstarted, fun _ => rfl⟩
  | finalEnd k hpc _ | shutdown hpc =>
    exact ⟨fun j h => (by cases h), fun j h => (by cases h), fun h => (by cases h), hstarted, fun _ => rfl⟩
  | begin hpc =>
    exact ⟨fun j h => (by cases h), fun j h => (by cases h), fun h => (by cases h), le_rfl,
      hno hpc (by decide)⟩
  | writeWait hpc _ _ hl =>
    exact ⟨fun j h => (by cases h), fun j h => (by cases h), fun _ => hl, hstarted, hno hpc (by decide)⟩
  | warmup hpc | burst _ hpc _ | burstEnd _ hpc _ | settle hpc | reset hpc | again hpc _ | leave hpc _
  | prepare hpc | writeOn hpc _ | taken _ hpc _ _ | expired _ hpc _ _ _ | sleep hpc | tick hpc _
  | tickLine hpc _ _ | line _ _ hpc _ | lineEnd _ hpc _ | finish _ _ hpc _ | finishEnd _ hpc _ =>
    exact ⟨fun j h => (by cases h), fun j h => (by cases h), fun h => (by cases h), hstarted,
      hno hpc (by simp [PubPc.phase])⟩

/-- **One step of the system.** -/
theorem lively_step (hnet : args.latencyTest = true → args.reliable = true → net = reliableNet)
    (h : Lively args s) (hs : SysStep net T cfg args subArgs s l s') : Lively args s' := by
  have hinv := sys_pubInv h.inv hs
  have hgen := genuine_step h.genuine hs
  have halt : args.latencyTest = true → args.reliable = true → Alternate s' := by
    intro hl hr
    obtain rfl := hnet hl hr
    exact alternate_step hl hr h.inv h.genuine (h.alternate hl hr) hs
  obtain ⟨-, hgenuine, -, hrounds, hpauses, hwaits, hstarted, hannounced, hanswered, hending⟩ := h
  cases hs with
  | tick d =>
    exact ⟨hinv, hgen, halt, hrounds, hpauses, hwaits, hstarted.trans (Nat.le_add_right _ _), hannounced,
      hanswered, hending⟩
  | pub ok p hp =>
    obtain ⟨h1, h2, h3, h4, h5⟩ := lively_main hpauses hstarted (pubMain_cases hp)
    exact ⟨hinv, hgen, halt, h1, h2, h3, h4, fun hf => h5 (hannounced hf),
      fun hr => h5 (hanswered ((finishedRemote_main hp).symm.trans hr)), hending⟩
  | dropPing i rest hd | dropPong i rest hd =>
    exact ⟨hinv, hgen, halt, hrounds, hpauses, hwaits, hstarted, hannounced, hanswered, hending⟩
  | pubMatched change hpc =>
    have hsame : (pubOnReaderMatched change s.pub.ctx).finishedRemote = s.pub.ctx.finishedRemote := by
      unfold pubOnReaderMatched
      split_ifs <;> rfl
    exact ⟨hinv, hgen, halt, hrounds, hpauses, hwaits, hstarted, hannounced,
      fun hr => hanswered (hsame.symm.trans hr), hending⟩
  | deliverPong i m rest hd hpc =>
    refine ⟨hinv, hgen, halt, hrounds, hpauses, hwaits, hstarted, hannounced, fun hr => ?_, hending⟩
    rcases finishedRemote_pong s.clock m.sample s.pub.ctx hr with hold | hk
    · exact hanswered hold
    · exact hinv.order.phase_of_final (hgenuine.pong m (mem_of_deliver hd)).1.mem hk
  | subMatched change hpc =>
    have hsame := (sameCounters_matched change s.sub.ctx).finished
    exact ⟨hinv, hgen, halt, hrounds, hpauses, hwaits, hstarted, fun hf => hannounced (hsame.symm.trans hf),
      hanswered, fun he => hsame.trans (hending he)⟩
  | sub q hq =>
    refine ⟨hinv, hgen, halt, hrounds, hpauses, hwaits, hstarted, fun hf => ?_, hanswered, fun he => ?_⟩
    · apply hannounced
      cases subMain_cases hq with
      | reset hpc => cases hf
      | line l hpc => exact (sameCounters_line s.sub l).finished.symm.trans hf
      | capture hpc => exact (sameCounters_capture s.clock s.sub).finished.symm.trans hf
      | waiting | matched | finished | again | sleep | stat | statLine | shutdown => exact hf
    · cases subMain_cases hq with
      | finished hpc hf => exact hf
      | capture hpc =>
        exact (sameCounters_capture s.clock s.sub).finished.trans (hending (by rw [hpc]; rfl))
      | shutdown hpc => exact hending (by rw [hpc]; rfl)
      | waiting hpc _ =>
        rw [hpc] at he
        cases he
      | line l hpc =>
        rcases subLineStep_pc s.sub l with h | ⟨l', h⟩
        · rw [h] at he
          cases he
        · rw [h] at he
          cases he
      | matched | reset | again | sleep | stat | statLine => cases he
  | deliverPing i echoed m rest hd he hpc =>
    refine ⟨hinv, hgen, halt, hrounds, hpauses, hwaits, hstarted, fun hf => ?_, hanswered,
      fun he => subOnSample_finished_mono (hending he)⟩
    by_cases hk : m.sample.kind = .finalization
    · exact hinv.order.phase_of_final (hgenuine.ping m (mem_of_deliver hd)).mem hk
    · apply hannounced
      by_cases hdata : m.sample.isData = true
      · rw [subOnSample_data hdata] at hf
        exact hf
      · rw [subOnSample_initialization ((PerftestSample.kind_of_not_isData hdata).resolve_right hk)] at hf
        exact hf

theorem lively_init (T : TypeInterface) (args : InputArgs) (history : Bool) (matchedPubs : ℤ)
    (results subResults : Option Results) (clock : ℕ) :
    Lively args (sysInit T args history matchedPubs results subResults clock) :=
  ⟨pubInv_init _ _ _ _ _, genuine_init _ _ _ _ _ _ _, fun _ _ => alternate_init _ _ _ _ _ _ _,
    fun k h => (by cases h), fun k h => (by cases h), fun h => (by cases h), Nat.zero_le _,
    fun h => (by cases h), fun h => (by cases h), fun h => (by cases h)⟩

/-! ## Closer to the end -/

/-- How far a statement is from the end. -/
def PubPc.rank (cfg : Config) : PubPc → ℕ
  | .warmup => cfg.initBurst + 42
  | .burst i => cfg.initBurst - i + 41
  | .settle => 40
  | .reset => 39
  | .begin => 38
  | .prepare => 42
  | .write => 41
  | .wait _ => 40
  | .sleep => 39
  | .tick => 38
  | .line l => 37 - l.index
  | .loop => 33
  | .finish f => 32 - f.index
  | .report => 23
  | .final k => 2 * (10 - k) + 2
  | .finalSleep k => 2 * (10 - k) + 1
  | .shutdown => 1
  | .done => 0

theorem rank_line (cfg : Config) (l : LinePc) : (PubPc.loop).rank cfg < (PubPc.line l).rank cfg := by
  cases l <;> simp [PubPc.rank, LinePc.index]

theorem rank_finish (cfg : Config) (f : FinishPc) : (PubPc.report).rank cfg < (PubPc.finish f).rank cfg := by
  cases f <;> simp [PubPc.rank, FinishPc.index]

/-- A statement that waits for nothing. -/
def PubPc.free : PubPc → Bool
  | .wait _ | .loop | .done => false
  | _ => true

/-- It leads closer to the end. -/
theorem rank_main (T : TypeInterface) (cfg : Config) (args : InputArgs) (now : ℕ)
    (hpauses : ∀ k, p.pc = .finalSleep k → k < 10) (hfree : p.pc.free = true) :
    ∃ p', pubMain T cfg args now true p = some p' ∧ p'.pc.rank cfg < p.pc.rank cfg := by
  cases hpc : p.pc with
  | wait | loop | done =>
    rw [hpc] at hfree
    cases hfree
  | burst i =>
    by_cases hi : i < cfg.initBurst
    · refine ⟨_, by simp only [pubMain, hpc, if_pos hi]; rfl, ?_⟩
      change cfg.initBurst - (i + 1) + 41 < cfg.initBurst - i + 41
      omega
    · refine ⟨_, by simp only [pubMain, hpc, if_neg hi]; rfl, ?_⟩
      change 40 < cfg.initBurst - i + 41
      omega
  | write =>
    refine ⟨_, by simp only [pubMain, hpc]; rfl, ?_⟩
    dsimp only
    split_ifs
    · exact Nat.lt_succ_self 40
    · exact Nat.lt_of_sub_pos (by decide : 0 < 41 - 39)
  | tick =>
    by_cases hline : args.printEverySecond ∧ now ≥ p.tNextPrint
    · refine ⟨_, by simp only [pubMain, hpc, if_pos hline]; rfl, ?_⟩
      exact Nat.lt_succ_self 37
    · refine ⟨_, by simp only [pubMain, hpc, if_neg hline]; rfl, ?_⟩
      exact Nat.lt_of_sub_pos (by decide : 0 < 38 - 33)
  | line l =>
    refine ⟨_, by simp only [pubMain, hpc]; rfl, ?_⟩
    cases hl : l.next p.ctx with
    | none => exact rank_line cfg l
    | some l' =>
      have hlt := LinePc.index_lt_of_next hl
      change 37 - l'.index < 37 - l.index
      cases l' <;> simp only [LinePc.index] at hlt ⊢ <;> omega
  | finish f =>
    refine ⟨_, by simp only [pubMain, hpc]; rfl, ?_⟩
    cases hf : f.next p.ctx with
    | none => exact rank_finish cfg f
    | some f' =>
      have hlt := FinishPc.index_lt_of_next hf
      change 32 - f'.index < 32 - f.index
      cases f' <;> simp only [FinishPc.index] at hlt ⊢ <;> omega
  | final k =>
    by_cases hk : k < 10 ∧ p.ctx.finishedRemote = false
    · refine ⟨_, by simp only [pubMain, hpc, if_pos hk]; rfl, ?_⟩
      exact Nat.lt_succ_self _
    · refine ⟨_, by simp only [pubMain, hpc, if_neg hk]; rfl, ?_⟩
      change 1 < 2 * (10 - k) + 2
      omega
  | finalSleep k =>
    refine ⟨_, by simp only [pubMain, hpc]; rfl, ?_⟩
    have hk := hpauses k hpc
    change 2 * (10 - (k + 1)) + 2 < 2 * (10 - k) + 1
    omega
  | warmup =>
    refine ⟨_, by simp only [pubMain, hpc]; rfl, ?_⟩
    change cfg.initBurst - 0 + 41 < cfg.initBurst + 42
    omega
  | settle | reset | begin | prepare | sleep | report | shutdown =>
    refine ⟨_, by simp only [pubMain, hpc]; rfl, ?_⟩
    simp [PubPc.rank]

/-- One more `FINALIZATION` can be written. -/
def PubState.mayFinalize (p : PubState) : Bool :=
  !p.ctx.finishedRemote && match p.pc with
    | .final k => decide (k < 10)
    | .finalSleep k => decide (k + 1 < 10)
    | .shutdown | .done => false
    | _ => true

theorem mayFinalize_of_phase (hph : p.pc.phase ≠ 2) (hr : p.ctx.finishedRemote = false) :
    p.mayFinalize = true := by
  unfold PubState.mayFinalize
  rw [hr]
  cases hpc : p.pc with
  | final | finalSleep | shutdown | done =>
    rw [hpc] at hph
    exact absurd rfl hph
  | _ => rfl

theorem Lively.mayFinalize (h : Lively args s) (hph : s.pub.pc.phase ≠ 2) : s.pub.mayFinalize = true :=
  mayFinalize_of_phase hph (Bool.eq_false_iff.mpr fun hr => hph (h.answered hr))

/-- The first one is still to be written. -/
theorem mayFinalize_main (hph : p.pc.phase ≠ 2) (hr : p.ctx.finishedRemote = false)
    (hp : pubMain T cfg args now ok p = some p') : p'.mayFinalize = true := by
  have hr' : p'.ctx.finishedRemote = false := (finishedRemote_main hp).trans hr
  have hno : ∀ {P : Prop} {pc : PubPc}, p.pc = pc → pc.phase = 2 → P := fun hpc h2 => absurd (hpc ▸ h2) hph
  cases pubMain_cases hp with
  | report hpc => simpa [PubState.mayFinalize] using hr'
  | final k hpc _ _ | finalSleep k hpc | finalEnd k hpc _ | shutdown hpc => exact hno hpc rfl
  | _ => exact mayFinalize_of_phase (by simp [PubPc.phase]) hr'

/-- Time ends the loop. -/
theorem exists_late (args : InputArgs) {t0 clock : ℕ} (h : t0 ≤ clock) :
    ∃ d, ¬ u64Sub (clock + d) t0 < timeoutUs args := by
  refine ⟨18446744073709551616 * (clock - t0 + 1) - 1 - (clock - t0), ?_⟩
  have hlt : timeoutUs args < 18446744073709551616 := Nat.mod_lt _ (by decide)
  have hlast : u64Sub (clock + (18446744073709551616 * (clock - t0 + 1) - 1 - (clock - t0))) t0 =
      18446744073709551615 := by
    unfold u64Sub toU64
    omega
  rw [hlast]
  omega

/-- Messages arrive one after the other, as long as the subscriber is there. -/
theorem deliver_pings (hs : Lively args s) (hsub : s.sub.pc ≠ .done) :
    Reaches (sysStep reliableNet T cfg args subArgs) s fun t =>
      (Lively args t ∧ t.pub = s.pub) ∧ t.pings.length = 0 := by
  have hway : Reaches (sysStep reliableNet T cfg args subArgs) s fun t =>
      (Lively args t ∧ t.pub = s.pub ∧ t.sub.pc = s.sub.pc) ∧ t.pings.length = 0 := by
    refine reaches_repeat (.deliverPing 0 true) _ (fun t ht hne => ?_) ⟨hs, rfl, rfl⟩
    obtain ⟨hl, hpub, hpc⟩ := ht
    cases hpings : t.pings with
    | nil =>
      rw [hpings] at hne
      exact absurd rfl hne
    | cons m rest =>
      have hstep : sysStep reliableNet T cfg args subArgs t (.deliverPing 0 true) = some { t with
          sub := { t.sub with ctx := (subOnSample T t.clock m.sample t.sub.ctx).1 }
          pings := rest
          pongs := t.pongs ++ echoOf m (subOnSample T t.clock m.sample t.sub.ctx).2 true
          history := t.history.ping m t.sub.ctx (subOnSample T t.clock m.sample t.sub.ctx).1 } := by
        simp [sysStep, reliableNet, hpings, deliver, subStep, hpc, hsub]
      exact ⟨_, hstep, ⟨lively_step (fun _ _ => rfl) hl (sysStep_cases hstep), hpub, hpc⟩, rfl⟩
  exact hway.mono fun t ht => ⟨⟨ht.1.1, ht.1.2.1⟩, ht.2⟩

/-- And so do their echoes. -/
theorem deliver_pongs (hs : Lively args s) (hpub : s.pub.pc ≠ .done) :
    Reaches (sysStep reliableNet T cfg args subArgs) s fun t =>
      (Lively args t ∧ t.pub.pc = s.pub.pc ∧ t.pings = s.pings) ∧ t.pongs.length = 0 := by
  refine reaches_repeat (.deliverPong 0) _ (fun t ht hne => ?_) ⟨hs, rfl, rfl⟩
  obtain ⟨hl, hpc, hpings⟩ := ht
  cases hpongs : t.pongs with
  | nil =>
    rw [hpongs] at hne
    exact absurd rfl hne
  | cons m rest =>
    have hstep : sysStep reliableNet T cfg args subArgs t (.deliverPong 0) = some { t with
        pub := t.pub.pong cfg t.clock m.sample
        pongs := rest
        history := t.history.pong t.clock m } := by
      simp [sysStep, reliableNet, hpongs, deliver, pubStep, hpc, hpub]
    exact ⟨_, hstep, ⟨lively_step (fun _ _ => rfl) hl (sysStep_cases hstep), hpc, hpings⟩, rfl⟩

/-- A statement of the main thread of the publisher, inside the system. -/
theorem sysStep_pub (hp : pubMain T cfg args s.clock ok s.pub = some p) :
    sysStep net T cfg args subArgs s (.pub ok) = some { s with
      pub := p
      pings := s.pings ++ messages s.pub.writes.length (p.writes.drop s.pub.writes.length)
      history := s.history.wait s.pub ok } :=
  Option.map_eq_some_iff.mpr ⟨p, hp, rfl⟩

/-- One that waits for nothing. -/
theorem step_free (hnet : args.latencyTest = true → args.reliable = true → net = reliableNet)
    (hs : Lively args s) (hfree : s.pub.pc.free = true) :
    ∃ t, sysStep net T cfg args subArgs s (.pub true) = some t ∧ Lively args t ∧
      t.pub.pc.rank cfg < s.pub.pc.rank cfg ∧ (s.pub.pc.phase ≠ 2 → t.pub.mayFinalize = true) := by
  obtain ⟨p, hp, hlt⟩ := rank_main T cfg args s.clock hs.pauses hfree
  have hstep : sysStep net T cfg args subArgs s (.pub true) = _ := sysStep_pub hp
  refine ⟨_, hstep, lively_step hnet hs (sysStep_cases hstep), hlt, fun hph => ?_⟩
  exact mayFinalize_main hph (Bool.eq_false_iff.mpr fun hr => hph (hs.answered hr)) hp

/-- A token ends the wait. -/
theorem take_token (hnet : args.latencyTest = true → args.reliable = true → net = reliableNet)
    (hs : Lively args s) {since : ℕ} (hpc : s.pub.pc = .wait since)
    (htoken : s.pub.ctx.latencySem.token = true) :
    Reaches (sysStep net T cfg args subArgs) s fun t => Lively args t ∧ t.pub.pc = .sleep := by
  have hp : pubMain T cfg args s.clock true s.pub = some { s.pub with
      pc := .sleep, ctx := { s.pub.ctx with latencySem := s.pub.ctx.latencySem.take } } := by
    simp only [pubMain, hpc, htoken, if_true]
  have hstep : sysStep net T cfg args subArgs s (.pub true) = _ := sysStep_pub hp
  exact ⟨[.pub true], _, exec_cons.mpr ⟨_, hstep, rfl⟩, lively_step hnet hs (sysStep_cases hstep), rfl⟩

/-- **Every wait ends**: by its pong where it is endless, by time where it is not. -/
theorem wait_ends (hnet : args.latencyTest = true → args.reliable = true → net = reliableNet)
    (hs : Lively args s) {since : ℕ} (hpc : s.pub.pc = .wait since) :
    Reaches (sysStep net T cfg args subArgs) s fun t => Lively args t ∧ t.pub.pc = .sleep := by
  have hl : args.latencyTest = true := hs.waits (by rw [hpc]; rfl)
  cases htoken : s.pub.ctx.latencySem.token with
  | true => exact take_token hnet hs hpc htoken
  | false =>
    cases hr : args.reliable with
    | true =>
      obtain rfl := hnet hl hr
      -- the subscriber cannot be done, for no `FINALIZATION` has been sent
      have hsub : s.sub.pc ≠ .done := fun hdone => by
        have hph := hs.announced (hs.ending (by rw [hdone]; rfl))
        rw [hpc] at hph
        exact absurd hph (by simp [PubPc.phase])
      refine (deliver_pings hs hsub).trans fun t hway => ?_
      obtain ⟨⟨ht, hpub⟩, hpings⟩ := hway
      have hpct : t.pub.pc = .wait since := by rw [hpub, hpc]
      refine (deliver_pongs ht (by rw [hpct]; exact PubPc.noConfusion)).trans fun u hback => ?_
      obtain ⟨⟨hu, hpcu, hpingsu⟩, hpongs⟩ := hback
      have hpcu' : u.pub.pc = .wait since := hpcu.trans hpct
      have hflow := (hu.alternate hl hr).flow
      have hnone : u.inFlight = 0 := by
        unfold Sys.inFlight dataIn
        rw [hpingsu, List.length_eq_zero_iff.mp hpings, List.length_eq_zero_iff.mp hpongs]
        rfl
      refine take_token hnet hu hpcu' ?_
      by_contra hno
      rw [hnone, Semaphore.tokens, if_neg hno, hpcu'] at hflow
      cases hflow
    | false =>
      have hp : pubMain T cfg args (s.clock + (since + 200000)) false s.pub =
          some { s.pub with pc := .sleep } := by
        have hexpired : takeExpired args since (s.clock + (since + 200000)) = true := by
          simp only [takeExpired, takeTimeoutMs, hr, Bool.false_eq_true, if_false, Bool.and_eq_true,
            decide_eq_true_eq]
          constructor
          · decide
          · push_cast
            omega
        simp only [pubMain, hpc, Bool.false_eq_true, if_false, htoken, hexpired, and_self, if_true]
      have htick : sysStep net T cfg args subArgs s (.tick (since + 200000)) =
          some { s with clock := s.clock + (since + 200000) } := rfl
      have hstep : sysStep net T cfg args subArgs { s with clock := s.clock + (since + 200000) } _ = _ :=
        sysStep_pub hp
      exact ⟨[.tick (since + 200000), .pub false], _, exec_cons.mpr ⟨_, htick, exec_cons.mpr ⟨_, hstep, rfl⟩⟩,
        lively_step hnet (lively_step hnet hs (sysStep_cases htick)) (sysStep_cases hstep), rfl⟩

/-- **Some events always bring the publisher closer to its end**, and not past its first `FINALIZATION`. -/
theorem lively_lowers (hnet : args.latencyTest = true → args.reliable = true → net = reliableNet)
    (hs : Lively args s) (hpc : s.pub.pc ≠ .done) :
    Reaches (sysStep net T cfg args subArgs) s fun t =>
      Lively args t ∧ t.pub.pc.rank cfg < s.pub.pc.rank cfg ∧
        (s.pub.pc.phase ≠ 2 → t.pub.mayFinalize = true) := by
  by_cases hfree : s.pub.pc.free = true
  · obtain ⟨t, hstep, ht⟩ := step_free hnet hs hfree
    exact ⟨[.pub true], t, exec_cons.mpr ⟨t, hstep, rfl⟩, ht⟩
  · cases hpcs : s.pub.pc with
    | wait since =>
      refine (wait_ends hnet hs hpcs).mono fun t ht => ⟨ht.1, ?_, fun _ => ?_⟩
      · rw [ht.2]
        exact Nat.lt_succ_self 39
      · exact ht.1.mayFinalize (by rw [ht.2]; simp [PubPc.phase])
    | loop =>
      obtain ⟨d, hd⟩ := exists_late args hs.started
      have hp : pubMain T cfg args (s.clock + d) true s.pub =
          some { s.pub with pc := .finish .sort, checks := s.pub.checks ++ [s.clock + d] } := by
        simp only [pubMain, hpcs, if_neg hd]
      have htick : sysStep net T cfg args subArgs s (.tick d) = some { s with clock := s.clock + d } := rfl
      have hstep : sysStep net T cfg args subArgs { s with clock := s.clock + d } _ = _ := sysStep_pub hp
      have hlater := lively_step hnet (lively_step hnet hs (sysStep_cases htick)) (sysStep_cases hstep)
      exact ⟨[.tick d, .pub true], _, exec_cons.mpr ⟨_, htick, exec_cons.mpr ⟨_, hstep, rfl⟩⟩, hlater,
        Nat.lt_succ_self 32, fun _ => hlater.mayFinalize (by simp [PubPc.phase])⟩
    | done => exact absurd hpcs hpc
    | warmup | burst | settle | reset | begin | prepare | write | sleep | tick | line | finish | report | final
    | finalSleep | shutdown =>
      rw [hpcs] at hfree
      exact absurd rfl hfree

theorem lively_run (hnet : args.latencyTest = true → args.reliable = true → net = reliableNet)
    {history : Bool} {matchedPubs : ℤ} {results subResults : Option Results} {clock : ℕ} {ls : List Label}
    (hrun : exec (sysStep net T cfg args subArgs)
      (sysInit T args history matchedPubs results subResults clock) ls = some s) : Lively args s :=
  exec_invariant (I := Lively args) (fun _ _ _ h hs => lively_step hnet h (sysStep_cases hs)) hrun
    (lively_init _ _ _ _ _ _ _)

/-- The publisher ends, whatever the subscriber does. -/
theorem publisher_ends (hnet : args.latencyTest = true → args.reliable = true → net = reliableNet)
    (hs : Lively args s) :
    Reaches (sysStep net T cfg args subArgs) s fun t => Lively args t ∧ t.pub.pc = .done :=
  reaches_of_rank (fun s => s.pub.pc.rank cfg)
    (fun _ hs hpc => (lively_lowers hnet hs hpc).mono fun _ ht => ⟨ht.1, ht.2.1⟩) hs

/-- **The publisher is never stuck.** From every state of every run some events lead it to the end of
`shutdown`: over any network, with any arguments, but for the endless wait of a reliable latency test, which
takes reliable topics. -/
theorem publisher_can_finish {history : Bool} {matchedPubs : ℤ} {results subResults : Option Results}
    {clock : ℕ} {ls : List Label}
    (hnet : args.latencyTest = true → args.reliable = true → net = reliableNet)
    (hrun : exec (sysStep net T cfg args subArgs)
      (sysInit T args history matchedPubs results subResults clock) ls = some s) :
    ∃ ms t, exec (sysStep net T cfg args subArgs) s ms = some t ∧ t.pub.pc = .done := by
  obtain ⟨ms, t, ht, -, hpc⟩ := publisher_ends hnet (lively_run hnet hrun)
  exact ⟨ms, t, ht, hpc⟩

theorem publisher_can_finish_alternating :
    ∃ ms t, exec (sysStep reliableNet sequenceType defaultConfig reliableArgs subscriberDefaults)
      alternatingEnd ms = some t ∧ t.pub.pc = .done :=
  publisher_can_finish (fun _ _ => rfl) exec_alternatingRun

end PerftestLite
