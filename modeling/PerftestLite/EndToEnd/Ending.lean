import PerftestLite.EndToEnd.Agreement
import PerftestLite.EndToEnd.Progress

/-!
# The only dead end

Both sides end unless the subscriber has forgotten every `FINALIZATION` and no other is coming: the reset
block zeroes `finished`, and a publisher that has its answer writes no more.

* `Sys.Endable`: what can still end the subscriber;
* `endable_back`: no event brings it back once it is gone;
* `deliver_final`, `subscriber_late`, `subscriber_ends`, `endable_ends`: the way to the end;
* `both_can_finish_iff`.
-/

set_option autoImplicit false

namespace PerftestLite

open Word Machine Channel

/-- A `FINALIZATION` has been kept, is on its way or can still be written. -/
def Sys.Endable (s : Sys) : Prop :=
  (s.sub.ctx.finished = true ∧ s.sub.pc.late = true) ∨ (∃ m ∈ s.pings, m.sample.kind = .finalization) ∨
    s.pub.mayFinalize = true

instance (s : Sys) : Decidable s.Endable := by
  unfold Sys.Endable
  infer_instance

variable {net : Net} {T : TypeInterface} {cfg : Config} {args subArgs : InputArgs} {s s' : Sys}
  {l : Label} {p p' : PubState} {now : ℕ} {ok : Bool}

/-! ## No way back -/

/-- Past the measurement a publisher that writes no more `FINALIZATION` does not start again, and what it
writes is a `FINALIZATION`. -/
theorem mayFinalize_back (hp : pubMain T cfg args now ok p = some p') (hph : p.pc.phase = 2) :
    (p'.mayFinalize = true → p.mayFinalize = true) ∧
      ∀ m ∈ messages p.writes.length (p'.writes.drop p.writes.length), p.mayFinalize = true := by
  have hno : ∀ {P : Prop} {pc : PubPc}, p.pc = pc → pc.phase ≠ 2 → P := fun hpc hne => absurd (hpc ▸ hph) hne
  have hsame : p'.writes = p.writes →
      ∀ m ∈ messages p.writes.length (p'.writes.drop p.writes.length), p.mayFinalize = true := by
    intro hw m hm
    rw [hw, messages_none] at hm
    cases hm
  cases pubMain_cases hp with
  | final k hpc hk hf =>
    have h : p.mayFinalize = true := by simp [PubState.mayFinalize, hpc, hk, hf]
    exact ⟨fun _ => h, fun _ _ => h⟩
  | finalSleep k hpc => exact ⟨fun h => by simpa [PubState.mayFinalize, hpc] using h, hsame rfl⟩
  | finalEnd k hpc _ | shutdown hpc => exact ⟨fun h => by simp [PubState.mayFinalize] at h, hsame rfl⟩
  | warmup hpc | burst _ hpc _ | burstEnd _ hpc _ | settle hpc | reset hpc | begin hpc | again hpc _
  | leave hpc _ | prepare hpc | writeWait hpc _ _ _ | writeOn hpc _ | taken _ hpc _ _ | expired _ hpc _ _ _
  | sleep hpc | tick hpc _ | tickLine hpc _ _ | line _ _ hpc _ | lineEnd _ hpc _ | finish _ _ hpc _
  | finishEnd _ hpc _ | report hpc => exact hno hpc (by simp [PubPc.phase])

/-- An answer only takes a way out. -/
theorem mayFinalize_pong {x : PerftestSample} (h : (p.pong cfg now x).mayFinalize = true)
    (hr : p.ctx.finishedRemote = true → (p.pong cfg now x).ctx.finishedRemote = true) :
    p.mayFinalize = true := by
  unfold PubState.mayFinalize at h ⊢
  rw [Bool.and_eq_true, Bool.not_eq_true'] at h ⊢
  refine ⟨Bool.eq_false_iff.mpr fun hf => ?_, h.2⟩
  rw [hr hf] at h
  cases h.1

/-- **What is gone does not come back.** -/
theorem endable_back (hl : Lively args s) (hs : SysStep net T cfg args subArgs s l s')
    (h : s'.Endable) : s.Endable := by
  by_cases hph : s.pub.pc.phase = 2
  · cases hs with
    | tick d => exact h
    | pub ok p hp =>
      obtain ⟨hback, hwrites⟩ := mayFinalize_back hp hph
      rcases h with hsub | ⟨m, hm, hk⟩ | hmay
      · exact .inl hsub
      · rcases List.mem_append.mp hm with hold | hnew
        · exact .inr (.inl ⟨m, hold, hk⟩)
        · exact .inr (.inr (hwrites m hnew))
      · exact .inr (.inr (hback hmay))
    | pubMatched change hpc =>
      have hsame : ({ s.pub with ctx := pubOnReaderMatched change s.pub.ctx } : PubState).mayFinalize =
          s.pub.mayFinalize := by
        unfold PubState.mayFinalize pubOnReaderMatched
        split_ifs <;> rfl
      exact h.imp_right (Or.imp_right fun hmay => hsame.symm.trans hmay)
    | subMatched change hpc =>
      have hsame := (sameCounters_matched change s.sub.ctx).finished
      exact h.imp_left fun hsub => ⟨hsame.symm.trans hsub.1, hsub.2⟩
    | sub q hq =>
      refine h.imp_left fun hsub => ?_
      cases subMain_cases hq with
      | waiting => exact hsub
      | matched => cases hsub.2
      | reset => cases hsub.1
      | finished hpc hf => exact ⟨hf, by rw [hpc]; rfl⟩
      | again hpc hf => exact absurd (hf.symm.trans hsub.1) Bool.false_ne_true
      | sleep hpc | stat hpc _ | statLine hpc _ _ | shutdown hpc => exact ⟨hsub.1, by rw [hpc]; rfl⟩
      | line l hpc => exact ⟨(sameCounters_line s.sub l).finished.symm.trans hsub.1, by rw [hpc]; rfl⟩
      | capture hpc =>
        exact ⟨(sameCounters_capture s.clock s.sub).finished.symm.trans hsub.1, by rw [hpc]; rfl⟩
    | deliverPing i echoed m rest hd he hpc =>
      rcases h with ⟨hf, hlate⟩ | ⟨n, hn, hk⟩ | hmay
      · by_cases hk : m.sample.kind = .finalization
        · exact .inr (.inl ⟨m, mem_of_deliver hd, hk⟩)
        · refine .inl ⟨?_, hlate⟩
          change (subOnSample T s.clock m.sample s.sub.ctx).1.finished = true at hf
          by_cases hdata : m.sample.isData = true
          · rwa [subOnSample_data hdata] at hf
          · rwa [subOnSample_initialization ((PerftestSample.kind_of_not_isData hdata).resolve_right hk)]
              at hf
      · exact .inr (.inl ⟨n, subset_of_deliver hd hn, hk⟩)
      · exact .inr (.inr hmay)
    | dropPing i rest hd =>
      exact h.imp_right (Or.imp_left fun ⟨m, hm, hk⟩ => ⟨m, subset_of_drop hd hm, hk⟩)
    | deliverPong i m rest hd hpc =>
      refine h.imp_right (Or.imp_right fun hmay => mayFinalize_pong hmay fun hr => ?_)
      change (pubOnPongSample cfg s.clock m.sample s.pub.ctx).finishedRemote = true
      cases hk : m.sample.kind with
      | finalization => simp [pubOnPongSample, hk]
      | initialization | data | dataPing => simpa [pubOnPongSample, hk, recordPong] using hr
    | dropPong i rest hd => exact h
  · exact .inr (.inr (hl.mayFinalize hph))

/-! ## The way to the end -/

/-- A statement of the main thread of the subscriber, inside the system. -/
theorem sysStep_sub {q : SubState} (hnet : args.latencyTest = true → args.reliable = true → net = reliableNet)
    (hs : Lively args s) (hq : subMain subArgs s.clock s.sub = some q) :
    sysStep net T cfg args subArgs s .sub = some { s with sub := q } ∧ Lively args { s with sub := q } := by
  have hstep : sysStep net T cfg args subArgs s .sub = some { s with sub := q } :=
    Option.map_eq_some_iff.mpr ⟨q, hq, rfl⟩
  exact ⟨hstep, lively_step hnet hs (sysStep_cases hstep)⟩

/-- How far the subscriber is from its polling loop. -/
def SubState.ahead (q : SubState) : ℕ :=
  match q.pc with
  | .waitMatch => (1 - q.ctx.matchedPubs).toNat + 2
  | .reset => 1
  | _ => 0

/-- It gets there, and what is on its way to it stays. -/
theorem subscriber_late (hnet : args.latencyTest = true → args.reliable = true → net = reliableNet)
    (hs : Lively args s) :
    Reaches (sysStep net T cfg args subArgs) s fun t =>
      (Lively args t ∧ t.pings = s.pings) ∧ t.sub.pc.late = true := by
  refine reaches_of_rank (fun t => t.sub.ahead) (fun t ht hlate => ?_) ⟨hs, rfl⟩
  obtain ⟨hl, hpings⟩ := ht
  cases hpc : t.sub.pc with
  | waitMatch =>
    have hahead : t.sub.ahead = (1 - t.sub.ctx.matchedPubs).toNat + 2 := by
      unfold SubState.ahead
      rw [hpc]
    by_cases hm : t.sub.ctx.matchedPubs < 1
    · have hstep : sysStep net T cfg args subArgs t (.subMatched 1) =
          some { t with sub := { t.sub with ctx := subOnReaderMatched 1 t.sub.ctx } } := by
        simp [sysStep, subStep, hpc]
      refine ⟨[.subMatched 1], _, exec_cons.mpr ⟨_, hstep, rfl⟩,
        ⟨lively_step hnet hl (sysStep_cases hstep), hpings⟩, ?_⟩
      simp only [SubState.ahead, hpc, subOnReaderMatched]
      norm_num
      omega
    · have hq : subMain subArgs t.clock t.sub = some { t.sub with pc := .reset } := by
        simp [subMain, hpc, hm]
      obtain ⟨hstep, hl'⟩ := sysStep_sub hnet hl hq
      refine ⟨[.sub], _, exec_cons.mpr ⟨_, hstep, rfl⟩, ⟨hl', hpings⟩, ?_⟩
      change 1 < t.sub.ahead
      omega
  | reset =>
    have hahead : t.sub.ahead = 1 := by
      unfold SubState.ahead
      rw [hpc]
    have hq : subMain subArgs t.clock t.sub = some { t.sub with
        pc := .poll, ctx := subReset t.sub.ctx, tLastPrint := t.clock, lastCount := 0 } := by
      simp [subMain, hpc]
    obtain ⟨hstep, hl'⟩ := sysStep_sub hnet hl hq
    refine ⟨[.sub], _, exec_cons.mpr ⟨_, hstep, rfl⟩, ⟨hl', hpings⟩, ?_⟩
    change 0 < t.sub.ahead
    omega
  | poll | sleep | stat | line | capture | shutdown | done =>
    rw [hpc] at hlate
    exact absurd rfl hlate

/-- A ping handed to the subscriber, inside the system. -/
theorem sysStep_ping {i : ℕ} {m : Msg} {rest : List Msg} (hd : deliver net.ping s.pings i = some (m, rest))
    (hpc : s.sub.pc ≠ .done) :
    sysStep net T cfg args subArgs s (.deliverPing i true) = some { s with
      sub := { s.sub with ctx := (subOnSample T s.clock m.sample s.sub.ctx).1 }
      pings := rest
      pongs := s.pongs ++ echoOf m (subOnSample T s.clock m.sample s.sub.ctx).2 true
      history := s.history.ping m s.sub.ctx (subOnSample T s.clock m.sample s.sub.ctx).1 } := by
  simp [sysStep, hd, subStep, hpc]

/-- Every `FINALIZATION` finishes the subscriber. -/
theorem subOnSample_finishes {x : PerftestSample} (hk : x.kind = .finalization) (c : SubCtx) :
    (subOnSample T now x c).1.finished = true := by
  cases hf : c.finished with
  | true => exact subOnSample_finished_mono hf
  | false => rw [subOnSample_finalization hk hf]

/-- **A `FINALIZATION` on its way can arrive**, behind whatever is ahead of it. -/
theorem deliver_final (hnet : args.latencyTest = true → args.reliable = true → net = reliableNet)
    (hs : Lively args s) (hlate : s.sub.pc.late = true)
    (hfin : ∃ m ∈ s.pings, m.sample.kind = .finalization) :
    Reaches (sysStep net T cfg args subArgs) s fun t =>
      (Lively args t ∧ t.sub.pc.late = true) ∧ t.sub.ctx.finished = true := by
  by_cases hdone : s.sub.pc = .done
  · exact .here ⟨⟨hs, hlate⟩, hs.ending (by rw [hdone]; rfl)⟩
  · by_cases hord : net.ping = .ordered
    · -- one after the other, from the front
      have hway : Reaches (sysStep net T cfg args subArgs) s fun t =>
          (Lively args t ∧ t.sub.pc = s.sub.pc ∧
            (t.sub.ctx.finished = true ∨ ∃ m ∈ t.pings, m.sample.kind = .finalization)) ∧
          t.sub.ctx.finished = true := by
        refine reaches_of_rank (fun t => t.pings.length) (fun t ht hnf => ?_) ⟨hs, rfl, .inr hfin⟩
        obtain ⟨hl, hpc, hm⟩ := ht
        cases hpings : t.pings with
        | nil =>
          obtain ⟨m, hm, -⟩ := hm.resolve_left hnf
          rw [hpings] at hm
          cases hm
        | cons m rest =>
          have hd : deliver net.ping t.pings 0 = some (m, rest) := by
            rw [hord, hpings]
            rfl
          have hstep : sysStep net T cfg args subArgs t (.deliverPing 0 true) = _ :=
            sysStep_ping hd (by rwa [hpc])
          refine ⟨[.deliverPing 0 true], _, exec_cons.mpr ⟨_, hstep, rfl⟩,
            ⟨lively_step hnet hl (sysStep_cases hstep), hpc, ?_⟩, Nat.lt_succ_self _⟩
          obtain ⟨n, hn, hk⟩ := hm.resolve_left hnf
          rw [hpings] at hn
          rcases List.mem_cons.mp hn with rfl | hn
          · exact .inl (subOnSample_finishes hk _)
          · exact .inr ⟨n, hn, hk⟩
      exact hway.mono fun t ht => ⟨⟨ht.1.1, by rw [ht.1.2.1]; exact hlate⟩, ht.2⟩
    · -- at once
      obtain ⟨m, hm, hk⟩ := hfin
      obtain ⟨i, hi⟩ := List.mem_iff_getElem?.mp hm
      have hd : ∃ rest, deliver net.ping s.pings i = some (m, rest) := by
        cases hn : net.ping with
        | ordered => exact absurd hn hord
        | unordered => exact ⟨s.pings.eraseIdx i, by simp [deliver, hi]⟩
        | duplicating => exact ⟨s.pings, by simp [deliver, hi]⟩
      obtain ⟨rest, hd⟩ := hd
      have hstep : sysStep net T cfg args subArgs s (.deliverPing i true) = _ := sysStep_ping hd hdone
      exact ⟨[.deliverPing i true], _, exec_cons.mpr ⟨_, hstep, rfl⟩,
        ⟨lively_step hnet hs (sysStep_cases hstep), hlate⟩, subOnSample_finishes hk _⟩

/-- How far a subscriber that has finished is from its end. -/
def SubPc.rank : SubPc → ℕ
  | .sleep => 9
  | .stat => 8
  | .line (.delta _) => 7
  | .line (.last _ _) => 6
  | .line (.mbps _ _) => 5
  | .line (.print _ _ _) => 4
  | .poll => 3
  | .capture => 2
  | .shutdown => 1
  | _ => 0

theorem rank_subLineStep (q : SubState) (l : SubLinePc) : (subLineStep q l).pc.rank < (SubPc.line l).rank := by
  cases l <;> exact Nat.lt_succ_self _

/-- A subscriber that has kept a `FINALIZATION` ends. -/
theorem subscriber_ends (hnet : args.latencyTest = true → args.reliable = true → net = reliableNet)
    (hs : Lively args s) (hlate : s.sub.pc.late = true) (hf : s.sub.ctx.finished = true) :
    Reaches (sysStep net T cfg args subArgs) s fun t => Lively args t ∧ t.sub.pc = .done := by
  have hway : Reaches (sysStep net T cfg args subArgs) s fun t =>
      (Lively args t ∧ t.sub.pc.late = true ∧ t.sub.ctx.finished = true) ∧ t.sub.pc = .done := by
    refine reaches_of_rank (fun t => t.sub.pc.rank) (fun t ht hpc => ?_) ⟨hs, hlate, hf⟩
    obtain ⟨hl, hlate, hf⟩ := ht
    have hmain : ∃ q, subMain subArgs t.clock t.sub = some q ∧ q.pc.late = true ∧ q.ctx.finished = true ∧
        q.pc.rank < t.sub.pc.rank := by
      cases hpct : t.sub.pc with
      | waitMatch | reset =>
        rw [hpct] at hlate
        cases hlate
      | done => exact absurd hpct hpc
      | stat =>
        refine ⟨_, by simp only [subMain, hpct]; rfl, ?_, ?_, ?_⟩
        · dsimp only
          split_ifs <;> rfl
        · exact hf
        · dsimp only
          split_ifs
          · exact Nat.lt_succ_self 7
          · exact Nat.lt_of_sub_pos (by decide : 0 < 8 - 3)
      | line l =>
        exact ⟨subLineStep t.sub l, by simp only [subMain, hpct], subLineStep_late t.sub l,
          (sameCounters_line t.sub l).finished.trans hf, rank_subLineStep t.sub l⟩
      | capture =>
        exact ⟨{ subCapture t.clock t.sub with pc := .shutdown }, by simp only [subMain, hpct], rfl,
          (sameCounters_capture t.clock t.sub).finished.trans hf, Nat.lt_succ_self 1⟩
      | poll =>
        exact ⟨{ t.sub with pc := .capture }, by simp [subMain, hpct, hf], rfl, hf, Nat.lt_succ_self 2⟩
      | sleep => exact ⟨{ t.sub with pc := .stat }, by simp only [subMain, hpct], rfl, hf, Nat.lt_succ_self 8⟩
      | shutdown =>
        exact ⟨{ t.sub with pc := .done }, by simp only [subMain, hpct], rfl, hf, Nat.lt_succ_self 0⟩
    obtain ⟨q, hq, hq'⟩ := hmain
    obtain ⟨hstep, hl'⟩ := sysStep_sub hnet hl hq
    exact ⟨[.sub], _, exec_cons.mpr ⟨_, hstep, rfl⟩, ⟨hl', hq'.1, hq'.2.1⟩, hq'.2.2⟩
  exact hway.mono fun t ht => ⟨ht.1.1, ht.2⟩

/-- A publisher that may write a `FINALIZATION` does. -/
theorem publisher_finalizes (hnet : args.latencyTest = true → args.reliable = true → net = reliableNet)
    (hs : Lively args s) (hmay : s.pub.mayFinalize = true) :
    Reaches (sysStep net T cfg args subArgs) s fun t =>
      Lively args t ∧ ∃ m ∈ t.pings, m.sample.kind = .finalization := by
  have hway : Reaches (sysStep net T cfg args subArgs) s fun t =>
      (Lively args t ∧ ((∃ m ∈ t.pings, m.sample.kind = .finalization) ∨ t.pub.mayFinalize = true)) ∧
        ∃ m ∈ t.pings, m.sample.kind = .finalization := by
    refine reaches_of_rank (fun t => t.pub.pc.rank cfg) (fun t ht hno => ?_) ⟨hs, .inr hmay⟩
    obtain ⟨hl, hmay⟩ := ht
    replace hmay := hmay.resolve_left hno
    by_cases hph : t.pub.pc.phase = 2
    · have hsplit := hmay
      unfold PubState.mayFinalize at hsplit
      rw [Bool.and_eq_true, Bool.not_eq_true'] at hsplit
      obtain ⟨hr, hleft⟩ := hsplit
      cases hpc : t.pub.pc with
      | final k =>
        rw [hpc] at hleft
        have hk := of_decide_eq_true hleft
        have hp : pubMain T cfg args t.clock true t.pub =
            some { t.pub with pc := .finalSleep k, writes := t.pub.wrote t.pub.sample true } := by
          simp [pubMain, hpc, hk, hr]
        have hstep : sysStep net T cfg args subArgs t (.pub true) = _ := sysStep_pub hp
        refine ⟨[.pub true], _, exec_cons.mpr ⟨_, hstep, rfl⟩,
          ⟨lively_step hnet hl (sysStep_cases hstep), .inl ?_⟩, Nat.lt_succ_self _⟩
        refine ⟨⟨t.pub.sample, t.pub.writes.length⟩, List.mem_append_right _ ?_, hl.inv.order.final hph⟩
        change _ ∈ messages t.pub.writes.length ((t.pub.wrote t.pub.sample true).drop t.pub.writes.length)
        unfold PubState.wrote
        rw [messages_drop]
        exact List.mem_singleton.mpr rfl
      | finalSleep k =>
        rw [hpc] at hleft
        have hk := of_decide_eq_true hleft
        have hp : pubMain T cfg args t.clock true t.pub = some { t.pub with pc := .final (k + 1) } := by
          simp only [pubMain, hpc]
        have hstep : sysStep net T cfg args subArgs t (.pub true) = _ := sysStep_pub hp
        refine ⟨[.pub true], _, exec_cons.mpr ⟨_, hstep, rfl⟩,
          ⟨lively_step hnet hl (sysStep_cases hstep), .inr ?_⟩, ?_⟩
        · simpa [PubState.mayFinalize, hr] using hk
        · change 2 * (10 - (k + 1)) + 2 < 2 * (10 - k) + 1
          omega
      | shutdown | done =>
        rw [hpc] at hleft
        cases hleft
      | _ =>
        rw [hpc] at hph
        simp [PubPc.phase] at hph
    · have hpc : t.pub.pc ≠ .done := fun hd => hph (by rw [hd]; rfl)
      exact (lively_lowers hnet hl hpc).mono fun u hu => ⟨⟨hu.1, .inr (hu.2.2 hph)⟩, hu.2.1⟩
  exact hway.mono fun t ht => ⟨ht.1.1, ht.2⟩

/-- **What can still end the test ends it**, on the side of the subscriber. -/
theorem endable_ends (hnet : args.latencyTest = true → args.reliable = true → net = reliableNet)
    (hs : Lively args s) (h : s.Endable) :
    Reaches (sysStep net T cfg args subArgs) s fun t => Lively args t ∧ t.sub.pc = .done := by
  have harrives : ∀ t : Sys, Lively args t → (∃ m ∈ t.pings, m.sample.kind = .finalization) →
      Reaches (sysStep net T cfg args subArgs) t fun u => Lively args u ∧ u.sub.pc = .done := by
    intro t ht hm
    refine (subscriber_late hnet ht).trans fun u hway => ?_
    obtain ⟨⟨hu, hpings⟩, hlate⟩ := hway
    refine (deliver_final hnet hu hlate (hpings ▸ hm)).trans fun v hend => ?_
    obtain ⟨⟨hv, hlatev⟩, hf⟩ := hend
    exact subscriber_ends hnet hv hlatev hf
  rcases h with ⟨hf, hlate⟩ | hm | hmay
  · exact subscriber_ends hnet hs hlate hf
  · exact harrives s hs hm
  · exact (publisher_finalizes hnet hs hmay).trans fun t ht => harrives t ht.1 ht.2

/-- A subscriber that is done stays so. -/
theorem done_step (h : s.sub.pc = .done) (hs : SysStep net T cfg args subArgs s l s') :
    s'.sub.pc = .done := by
  rcases sys_sub hs with he | ⟨a, ha⟩
  · rw [he]
    exact h
  · cases a <;> simp [subStep, subMain, h] at ha

/-- **The only dead end.** A state of a run leads to the end of both sides if and only if a `FINALIZATION` has
been kept by the subscriber, is on its way or can still be written: over any network, but for the endless
wait of a reliable latency test, which takes reliable topics. -/
theorem both_can_finish_iff {history : Bool} {matchedPubs : ℤ} {results subResults : Option Results}
    {clock : ℕ} {ls : List Label}
    (hnet : args.latencyTest = true → args.reliable = true → net = reliableNet)
    (hrun : exec (sysStep net T cfg args subArgs)
      (sysInit T args history matchedPubs results subResults clock) ls = some s) :
    (∃ ms t, exec (sysStep net T cfg args subArgs) s ms = some t ∧ t.pub.pc = .done ∧ t.sub.pc = .done) ↔
      s.Endable := by
  have hs := lively_run hnet hrun
  constructor
  · rintro ⟨ms, t, ht, -, hsub⟩
    by_contra hno
    have hstuck := exec_invariant (I := fun s => Lively args s ∧ ¬ s.Endable)
      (fun _ _ _ h hs => ⟨lively_step hnet h.1 (sysStep_cases hs),
        fun h' => h.2 (endable_back h.1 (sysStep_cases hs) h')⟩) ht ⟨hs, hno⟩
    exact hstuck.2 (.inl ⟨hstuck.1.ending (by rw [hsub]; rfl), by rw [hsub]; rfl⟩)
  · intro h
    have hway : Reaches (sysStep net T cfg args subArgs) s fun t => t.pub.pc = .done ∧ t.sub.pc = .done := by
      refine (endable_ends hnet hs h).trans fun t hend => ?_
      obtain ⟨hl, hsub⟩ := hend
      obtain ⟨ms, u, hu, -, hpub⟩ :
        Reaches (sysStep net T cfg args subArgs) t fun u => Lively args u ∧ u.pub.pc = .done :=
        publisher_ends hnet hl
      have hstays := exec_invariant (I := fun s => s.sub.pc = .done)
        (fun _ _ _ h hs => done_step h (sysStep_cases hs)) hu hsub
      exact ⟨ms, u, hu, hpub, hstays⟩
    exact hway

/-- An empty test whose only `FINALIZATION` is processed and answered while the subscriber is still at its
match. -/
def forgottenRun : List Label :=
  .subMatched 1 :: List.replicate 5 (.pub true) ++ .tick 100000000 :: List.replicate 9 (.pub true) ++
    .deliverPing 0 true :: .deliverPong 0 :: List.replicate 3 (.pub true) ++ [.sub, .sub]

/-- The system after that run. -/
def forgottenEnd : Sys :=
  (exec (sysStep reliableNet sequenceType noBurst publisherDefaults subscriberDefaults) agreementStart
    forgottenRun).getD agreementStart

theorem both_can_finish_iff_runs :
    (∃ ms t, exec (sysStep reliableNet sequenceType defaultConfig reliableArgs subscriberDefaults)
      alternatingEnd ms = some t ∧ t.pub.pc = .done ∧ t.sub.pc = .done) ∧
    ¬ ∃ ms t, exec (sysStep reliableNet sequenceType noBurst publisherDefaults subscriberDefaults)
      forgottenEnd ms = some t ∧ t.pub.pc = .done ∧ t.sub.pc = .done := by
  have hrun : exec (sysStep reliableNet sequenceType noBurst publisherDefaults subscriberDefaults)
      agreementStart forgottenRun = some forgottenEnd := by
    decide +kernel
  refine ⟨(both_can_finish_iff (fun _ _ => rfl) exec_alternatingRun).mpr (by decide +kernel), fun h => ?_⟩
  exact absurd ((both_can_finish_iff (fun _ _ => rfl) hrun).mp h) (by decide +kernel)

end PerftestLite
