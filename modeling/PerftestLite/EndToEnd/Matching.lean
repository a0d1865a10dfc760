import PerftestLite.EndToEnd.Programs
import PerftestLite.Middleware.Endpoints

/-!
# Who completes a test

Each program waits for a match of its own reader and goes by that alone; whether its writer has a reader it
never asks. A test that completes has both all the same.

* `Peers`: both processes and the middleware between them; `Peers.Honest`: it reports the matches it makes;
* `PubEngine.Unmatched`, `SubEngine.Unmatched`: a process whose reader has no match;
* `shutdown_of_ok`: where a subscriber comes to return `PERFTEST_LITE_OK`;
* `Sys.Silent`: a publisher that has not written;
* `processes_follow_ok`: `PERFTEST_LITE_OK` comes behind the capture;
* `completed_matched`.
-/

set_option autoImplicit false

namespace PerftestLite

open Word Machine Channel

/-- Two processes with the limits and the type name each was built with, and the middleware that matches their
endpoints. -/
structure Peers where
  deployment : Deployment
  matching : Matching
  limits : EndpointLimits
  subLimits : EndpointLimits
  typeName : String
  subTypeName : String

/-- The pong reader of the publisher is matched. -/
def Peers.pongMatches (N : Peers) : Bool :=
  N.matching.pairs N.deployment.pubBuild N.limits (publisherConfig N.typeName N.deployment.args)
    N.deployment.subBuild N.subLimits (subscriberConfig N.subTypeName N.deployment.subArgs) pongTopicName

/-- The ping reader of the subscriber is matched. -/
def Peers.pingMatches (N : Peers) : Bool :=
  N.matching.pairs N.deployment.subBuild N.subLimits (subscriberConfig N.subTypeName N.deployment.subArgs)
    N.deployment.pubBuild N.limits (publisherConfig N.typeName N.deployment.args) pingTopicName

/-- A new match is reported only of a reader that is matched. -/
def Peers.Honest (N : Peers) : ProcessEvent → Prop
  | .pubMatched change => 0 < change → N.pongMatches = true
  | .subMatched change => 0 < change → N.pingMatches = true
  | _ => True

/-! ## A publisher without a match -/

/-- Not past the match poll, or on an exit. -/
def PubSetup.unmatched : PubSetup → Bool
  | .openLog | .run | .destroySample | .shutdown .finished | .closeLog => false
  | _ => true

/-- The publisher has not got past its match poll. -/
structure PubEngine.Unmatched (s : PubEngine) : Prop where
  loop : s.run.loop = none
  pc : s.run.side.pc.unmatched = true
  count : s.run.side.ctx.matchedPubs ≤ 0

section Publisher

variable {D : Deployment} {s s' : PubEngine} {now : ℕ} {ok : Bool} {side side' : PubSide}

/-- Without a match no statement leads past the poll. -/
theorem unmatched_statement {dpse : Bool} {cfg : Config} {args : InputArgs} (h : side.pc.unmatched = true)
    (hcount : side.ctx.matchedPubs ≤ 0) (hs : perftestLitePublisher dpse cfg args ok side = some side') :
    side'.pc.unmatched = true := by
  obtain ⟨pc, e, ctx, pingW, pongR⟩ := side
  cases pc with
  | openLog | run | destroySample | closeLog => cases h
  | returned => cases hs
  | createReader pc =>
    rcases pubCreateReader_cases hs with ⟨reader, rfl, rfl⟩ | ⟨pc', e', hq, rfl⟩ <;> rfl
  | init | semaphoreNew | createSample => cases ok <;> cases hs <;> rfl
  | createWriter | allocHistory | freeHistory =>
    cases hs
    rfl
  | checkEndpoints =>
    cases hs
    dsimp only
    split_ifs <;> rfl
  | waitMatch =>
    have hlt : ctx.matchedPubs < 1 := by
      dsimp only at hcount
      omega
    simp only [perftestLitePublisher, if_pos hlt] at hs
    cases hs
    rfl
  | shutdown exit =>
    cases hs
    cases exit <;> first | rfl | cases h
  | semaphoreDelete exit =>
    cases hs
    cases exit <;> rfl

theorem PubEngine.Unmatched.statement (h : s.Unmatched)
    (hs : pubEngineStep D.pubBuild D.type D.cfg D.args s (s.statement D now ok) = some s') : s'.Unmatched := by
  obtain ⟨hl, hpc, hcount⟩ := h
  rw [PubEngine.statement, hl] at hs
  have hrun : s.run.side.pc ≠ .run := fun hrun => by
    rw [hrun] at hpc
    cases hpc
  obtain ⟨hside, hl', -⟩ := pubEngine_statement hl hrun hs
  exact ⟨hl', unmatched_statement hpc hcount hside, (perftestLitePublisher_matchedPubs hside).trans_le hcount⟩

theorem PubEngine.Unmatched.init {calls : InitCall → Bool} (h : s.Unmatched)
    (hs : pubEngineStep D.pubBuild D.type D.cfg D.args s (.init calls) = some s') : s'.Unmatched := by
  obtain ⟨hl, hpc, hcount⟩ := h
  obtain ⟨-, ok, hside, hloop, -⟩ := pubEngine_init hs
  exact ⟨hloop.trans hl, unmatched_statement hpc hcount hside,
    (perftestLitePublisher_matchedPubs hside).trans_le hcount⟩

theorem PubEngine.Unmatched.matched {change : ℤ} (h : s.Unmatched) (hchange : change ≤ 0)
    (hs : pubEngineStep D.pubBuild D.type D.cfg D.args s (s.matched now change) = some s') : s'.Unmatched := by
  obtain ⟨hl, hpc, hcount⟩ := h
  rw [PubEngine.matched, hl] at hs
  obtain ⟨hstep, hl', -⟩ := pubEngine_callback hl (by simp) hs
  simp only [pubSetupStep, Option.ite_none_right_eq_some, Option.some.injEq] at hstep
  obtain ⟨-, hside⟩ := hstep
  refine ⟨hl', hside ▸ hpc, ?_⟩
  rw [← hside]
  dsimp only
  have hsign : change.sign ≤ 0 := Int.sign_nonpos_iff.mpr hchange
  rw [pubOnReaderMatched_matchedPubs]
  omega

theorem PubEngine.Unmatched.given {x : PerftestSample} (h : s.Unmatched)
    (hs : pubEngineStep D.pubBuild D.type D.cfg D.args s (s.given now x) = some s') : s'.Unmatched := by
  obtain ⟨hl, hpc, hcount⟩ := h
  rw [PubEngine.given, hl] at hs
  obtain ⟨hstep, hl', -⟩ := pubEngine_callback hl (by simp) hs
  simp only [pubSetupStep, Option.ite_none_right_eq_some, Option.some.injEq] at hstep
  obtain ⟨-, hside⟩ := hstep
  refine ⟨hl', hside ▸ hpc, ?_⟩
  rw [← hside]
  dsimp only
  split_ifs
  · exact (pubOnPongSample_matchedPubs now x s.run.side.ctx).trans_le hcount
  · exact hcount

end Publisher

/-! ## A subscriber without a match -/

/-- The subscriber has not got past its match poll, unless on an exit. -/
structure SubEngine.Unmatched (s : SubEngine) : Prop where
  idle : s.loop = none →
    s.run.side.ctx.matchedPubs ≤ 0 ∧ (s.run.side.before = true ∨ s.run.side.pc = .returned)
  polling : ∀ q, s.loop = some q → q.pc = .waitMatch ∧ q.ctx.matchedPubs ≤ 0

section Subscriber

variable {b : Build} {T : TypeInterface} {args : InputArgs} {s s' : SubEngine} {now : ℕ} {ok : Bool}
  {c : SubCtx}

/-- A change moves the counter by its sign. -/
theorem subOnReaderMatched_matchedPubs (change : ℤ) (c : SubCtx) :
    (subOnReaderMatched change c).matchedPubs = c.matchedPubs + change.sign := by
  unfold subOnReaderMatched
  by_cases hpos : change > 0
  · rw [if_pos hpos, Int.sign_eq_one_of_pos hpos]
  · by_cases hneg : change < 0
    · rw [if_neg hpos, if_pos hneg, Int.sign_eq_neg_one_of_neg hneg]
      rfl
    · obtain rfl : change = 0 := by omega
      exact (add_zero _).symm

theorem subOnSample_matchedPubs (x : PerftestSample) (c : SubCtx) :
    (subOnSample T now x c).1.matchedPubs = c.matchedPubs := by
  by_cases hx : x.isData = true
  · rw [subOnSample_data hx]
  · have hother : ∃ lost fin, (subOnSample T now x c).1 = { c with lostSamples := lost, finished := fin } :=
      subOnSample_other hx
    obtain ⟨lost, fin, hc⟩ := hother
    rw [hc]

/-- A poll without a match. -/
theorem subStep_unmatched {q q' : SubState} {a : SubAction} (h : q.pc = .waitMatch ∧ q.ctx.matchedPubs ≤ 0)
    (ha : ∀ change, a = .matched change → change ≤ 0) (hs : subStep T args q (now, a) = some q') :
    q'.pc = .waitMatch ∧ q'.ctx.matchedPubs ≤ 0 := by
  obtain ⟨hpc, hcount⟩ := h
  cases a with
  | main =>
    have hlt : q.ctx.matchedPubs < 1 := by omega
    simp only [subStep, subMain, hpc, if_pos hlt, Option.some.injEq] at hs
    rw [← hs]
    exact ⟨hpc, hcount⟩
  | sample x =>
    simp only [subStep, Option.ite_none_left_eq_some, Option.some.injEq] at hs
    rw [← hs.2]
    exact ⟨hpc, (subOnSample_matchedPubs x q.ctx).trans_le hcount⟩
  | matched change =>
    simp only [subStep, Option.ite_none_left_eq_some, Option.some.injEq] at hs
    have hsign : change.sign ≤ 0 := Int.sign_nonpos_iff.mpr (ha change rfl)
    rw [← hs.2]
    refine ⟨hpc, ?_⟩
    dsimp only
    rw [subOnReaderMatched_matchedPubs]
    omega

/-- A step of the measurement that has not begun. -/
theorem SubEngine.Unmatched.loop {q : SubState} {a : SubAction} (h : s.Unmatched) (hq : s.loop = some q)
    (ha : ∀ change, a = .matched change → change ≤ 0)
    (hs : subEngineStep b T args s (.loop (now, a)) = some s') : s'.Unmatched := by
  simp only [subEngineStep, hq, Option.bind_some, Option.map_eq_some_iff] at hs
  obtain ⟨q', hq', rfl⟩ := hs
  have hpoll := subStep_unmatched (h.polling q hq) ha hq'
  have hend : q'.pc ≠ .shutdown := by
    rw [hpoll.1]
    exact SubPc.noConfusion
  rw [if_neg hend]
  exact ⟨fun hn => absurd hn (by simp), fun p hp => Option.some.inj hp ▸ hpoll⟩

/-- A statement outside the measurement, which leads on or returns. -/
theorem SubEngine.Unmatched.outside (h : s.Unmatched) (hl : s.loop = none) (hl' : s'.loop = none)
    (hwait : s.run.side.pc ≠ .waitMatch)
    (hside : perftestLiteSubscriber b.dpse ok s.run.side = some s'.run.side) : s'.Unmatched := by
  obtain ⟨hcount, hbefore | hret⟩ := h.idle hl
  · obtain ⟨hnext, hctx⟩ := before_statement hbefore hwait hside
    exact ⟨fun _ => ⟨(congrArg SubCtx.matchedPubs hctx).trans_le hcount, hnext⟩,
      fun q hq => absurd (hl'.symm.trans hq) (by simp)⟩
  · simp [perftestLiteSubscriber, hret] at hside

/-- A callback outside the measurement that leaves the counter where it was, or lower. -/
theorem SubEngine.Unmatched.callback (h : s.Unmatched) (hl : s.loop = none) (hl' : s'.loop = none)
    (hs' : s'.run.side = { s.run.side with ctx := c }) (hc : c.matchedPubs ≤ s.run.side.ctx.matchedPubs) :
    s'.Unmatched := by
  obtain ⟨hcount, hbefore⟩ := h.idle hl
  refine ⟨fun _ => ?_, fun q hq => absurd (hl'.symm.trans hq) (by simp)⟩
  rw [hs']
  exact ⟨hc.trans hcount, hbefore⟩

theorem SubEngine.Unmatched.statement (h : s.Unmatched)
    (hs : subEngineStep b T args s (s.statement now ok) = some s') : s'.Unmatched := by
  cases hl : s.loop with
  | some q =>
    rw [SubEngine.statement, hl] at hs
    exact h.loop hl (by simp) hs
  | none =>
    rw [SubEngine.statement, hl] at hs
    by_cases hwait : s.run.side.pc = .waitMatch
    · -- the poll begins
      simp only [subEngineStep, hl, Option.isSome_none, Bool.false_eq_true, if_false, hwait, if_true,
        Option.some.injEq] at hs
      rw [← hs]
      exact ⟨fun hn => absurd hn (by simp), fun q hq => Option.some.inj hq ▸ ⟨rfl, (h.idle hl).1⟩⟩
    · obtain ⟨hside, hl', -⟩ := subEngine_statement hl hwait hs
      exact h.outside hl hl' hwait hside

theorem SubEngine.Unmatched.init {calls : InitCall → Bool} (h : s.Unmatched)
    (hs : subEngineStep b T args s (.run (.init calls)) = some s') : s'.Unmatched := by
  obtain ⟨hpc, ok, hside, hl, hl', -⟩ := subEngine_init hs
  have hwait : s.run.side.pc ≠ .waitMatch := by
    rw [hpc]
    exact SubSetup.noConfusion
  exact h.outside hl hl' hwait hside

theorem SubEngine.Unmatched.matched {change : ℤ} (h : s.Unmatched) (hchange : change ≤ 0)
    (hs : subEngineStep b T args s (s.matched now change) = some s') : s'.Unmatched := by
  cases hl : s.loop with
  | some q =>
    rw [SubEngine.matched, hl] at hs
    exact h.loop hl (fun c hc => by cases hc; exact hchange) hs
  | none =>
    rw [SubEngine.matched, hl] at hs
    obtain ⟨hstep, hl', -⟩ := subEngine_callback hl (by simp) hs
    simp only [subSetupStep, Option.ite_none_right_eq_some, Option.some.injEq] at hstep
    refine h.callback hl hl' hstep.2.symm ?_
    have hsign : change.sign ≤ 0 := Int.sign_nonpos_iff.mpr hchange
    rw [subOnReaderMatched_matchedPubs]
    omega

theorem SubEngine.Unmatched.given {x : PerftestSample} (h : s.Unmatched)
    (hs : subEngineStep b T args s (s.given now x) = some s') : s'.Unmatched := by
  cases hl : s.loop with
  | some q =>
    rw [SubEngine.given, hl] at hs
    exact h.loop hl (by simp) hs
  | none =>
    rw [SubEngine.given, hl] at hs
    obtain ⟨hstep, hl', -⟩ := subEngine_callback hl (by simp) hs
    simp only [subSetupStep, Option.ite_none_right_eq_some, Option.some.injEq] at hstep
    refine h.callback hl hl' hstep.2.symm ?_
    split_ifs
    · exact (subOnSample_matchedPubs x s.run.side.ctx).le
    · exact le_rfl

/-! ## What `PERFTEST_LITE_OK` means -/

/-- The code becomes `PERFTEST_LITE_OK` at the `shutdown` of a subscriber that has both endpoints. -/
theorem shutdown_of_ok {code : Option Retcode} {e : SubEngineEvent}
    (hs : subEngineStep b T args s e = some s') (hok : subReturns b args s code e = some .ok) :
    code = some .ok ∨
      s.loop = none ∧ s.run.side.pc = .shutdown ∧ (s.run.side.pongW && s.run.side.pingR) = true := by
  cases e with
  | loop e => exact .inl hok
  | run e =>
    cases e with
    | init calls =>
      simp only [subReturns] at hok
      split_ifs at hok
      · exact .inl hok
      · cases hok
    | setup e =>
      cases e with
      | data now x | matched change => exact .inl hok
      | main ok =>
        have hl : s.loop = none := by
          cases hq : s.loop with
          | none => rfl
          | some q => simp [subEngineStep, hq] at hs
        cases hpc : s.run.side.pc with
        | shutdown =>
          cases hends : s.run.side.pongW && s.run.side.pingR with
          | true => exact .inr ⟨hl, rfl, rfl⟩
          | false => simp [subReturns, hpc, hends] at hok
        | init | createWriter | createReader | checkEndpoints | waitMatch | reset | run | returned =>
          simp only [subReturns, hpc] at hok
          exact .inl hok

/-- A subscriber without a match does not return it. -/
theorem SubEngine.Unmatched.returns {code : Option Retcode} {e : SubEngineEvent} (h : s.Unmatched)
    (hcode : code ≠ some .ok) (hs : subEngineStep b T args s e = some s') :
    subReturns b args s code e ≠ some .ok := by
  intro hok
  rcases shutdown_of_ok hs hok with hold | ⟨hl, hpc, hends⟩
  · exact hcode hold
  · rcases (h.idle hl).2 with hbefore | hret
    · simp [SubSide.before, hpc, hends] at hbefore
    · rw [hpc] at hret
      cases hret

end Subscriber

/-! ## A publisher that has not written -/

/-- No ping is under way, and the subscriber waits for its `FINALIZATION`. -/
structure Sys.Silent (u : Sys) : Prop where
  pings : u.pings = []
  finished : u.sub.ctx.finished = false
  waits : u.sub.pc.captured = false ∧ u.sub.pc ≠ .capture

section

variable {net : Net} {T : TypeInterface} {cfg : Config} {args subArgs : InputArgs} {u u' : Sys} {l : Label}
  {q : SubState}

/-- Neither the pings nor the subscriber have changed. -/
theorem Sys.Silent.still (h : u.Silent) (hpings : u'.pings = u.pings) (hsub : u'.sub = u.sub) :
    u'.Silent := by
  obtain ⟨hp, hf, hw⟩ := h
  rw [← hpings] at hp
  rw [← hsub] at hf hw
  exact ⟨hp, hf, hw⟩

/-- A statement of a subscriber that has not finished. -/
theorem Sys.Silent.main (h : u.Silent) (hq : subMain subArgs u.clock u.sub = some q) :
    Sys.Silent { u with sub := q } := by
  obtain ⟨hpings, hfinished, hcaptured, hcapture⟩ := h
  cases subMain_cases hq with
  | waiting hpc _ => exact ⟨hpings, hfinished, hcaptured, hcapture⟩
  | matched hpc _ | again hpc _ | sleep hpc | stat hpc _ | statLine hpc _ _ =>
    exact ⟨hpings, hfinished, rfl, SubPc.noConfusion⟩
  | reset hpc => exact ⟨hpings, rfl, rfl, SubPc.noConfusion⟩
  | finished hpc hf => exact absurd (hfinished.symm.trans hf) (by simp)
  | line l hpc =>
    refine ⟨hpings, (sameCounters_line u.sub l).finished.trans hfinished, subLineStep_captured u.sub l, ?_⟩
    rcases subLineStep_pc u.sub l with hpoll | ⟨l', hl'⟩
    · exact fun hc => by cases hpoll.symm.trans hc
    · exact fun hc => by cases hl'.symm.trans hc
  | capture hpc => exact absurd hpc hcapture
  | shutdown hpc =>
    rw [hpc] at hcaptured
    cases hcaptured

/-- **As long as the publisher has not written**, the subscriber does not finish. -/
theorem silent_step (h : u.pub.writes = [] → u.Silent) (hs : SysStep net T cfg args subArgs u l u') :
    u'.pub.writes = [] → u'.Silent := by
  intro hw
  cases hs with
  | pub ok p hp =>
    have hnil : p.writes = [] := hw
    have hsplit := writes_main hp
    rw [hnil] at hsplit
    have hold := (List.append_eq_nil_iff.mp hsplit.symm).1
    refine (h hold).still ?_ rfl
    dsimp only
    rw [hnil, List.drop_nil]
    exact List.append_nil _
  | sub q hq => exact (h hw).main hq
  | subMatched change _ =>
    obtain ⟨hpings, hfinished, hwaits⟩ := h hw
    exact ⟨hpings, (sameCounters_matched change u.sub.ctx).finished.trans hfinished, hwaits⟩
  | deliverPing i echoed m rest hd _ _ =>
    have hm := mem_of_deliver hd
    rw [(h hw).pings] at hm
    cases hm
  | dropPing i rest hd =>
    obtain ⟨hpings, hfinished, hwaits⟩ := h hw
    exact ⟨List.subset_nil.mp (hpings ▸ subset_of_drop hd), hfinished, hwaits⟩
  | tick d | pubMatched change _ | deliverPong i m rest hd _ | dropPong i rest hd => exact (h hw).still rfl rfl

/-- What has been captured stays so. -/
theorem sysStep_captured (hs : sysStep net T cfg args subArgs u l = some u')
    (hc : u.sub.pc.captured = true) : u'.sub.pc.captured = true := by
  cases sysStep_cases hs with
  | sub q hq =>
    by_contra hno
    have hstep : subStep T subArgs u.sub (u.clock, .main) = some q := hq
    have hback := (results_step (Bool.eq_false_of_not_eq_true hno) hstep).1
    rw [hc] at hback
    cases hback
  | pub ok p _ | tick d | pubMatched change _ | subMatched change _ | deliverPing i echoed m rest _ _ _
  | dropPing i rest _ | deliverPong i m rest _ _ | dropPong i rest _ => exact hc

theorem Answer.captured {x : Option PerftestSample} (h : Answer net T cfg args subArgs u x u')
    (hc : u.sub.pc.captured = true) : u'.sub.pc.captured = true := by
  cases h with
  | stays => exact hc
  | step l _ hs _ => exact sysStep_captured hs hc
  | given i echoed m rest _ _ hs => exact sysStep_captured hs hc

end

/-! ## Both processes -/

section

variable {N : Peers} {D : Deployment} {s s' : Processes} {e : ProcessEvent} {u : Sys}

/-- **The publisher stays before its match poll** if its reader has no match. -/
theorem unmatched_pub (hno : N.pongMatches = false) (he : N.Honest e)
    (h : s.pub.1.Unmatched ∧ s.writes = []) (hs : processStep N.deployment s e = some s') :
    s'.pub.1.Unmatched ∧ s'.writes = [] := by
  obtain ⟨hun, hw⟩ := h
  cases e with
  | tick d =>
    cases hs
    exact ⟨hun, hw⟩
  | pubInit calls =>
    obtain ⟨p, hp, rfl⟩ := Option.map_eq_some_iff.mp hs
    exact ⟨hun.init (observed_eq_some.mp hp).1, hw⟩
  | pub ok =>
    obtain ⟨p, hp, rfl⟩ := Option.map_eq_some_iff.mp hs
    have hun' := hun.statement (observed_eq_some.mp hp).1
    refine ⟨hun', ?_⟩
    dsimp only
    rw [hw, newWrites_outside hun'.loop]
    rfl
  | pubMatched change =>
    obtain ⟨p, hp, rfl⟩ := Option.map_eq_some_iff.mp hs
    have hchange : change ≤ 0 := not_lt.mp fun hpos => by
      have hmatch : N.pongMatches = true := he hpos
      rw [hno] at hmatch
      cases hmatch
    exact ⟨hun.matched hchange (observed_eq_some.mp hp).1, hw⟩
  | subInit calls | sub ok | subMatched change | dropPing i | dropPong i =>
    obtain ⟨q, -, rfl⟩ := Option.map_eq_some_iff.mp hs
    exact ⟨hun, hw⟩
  | deliverPing i echoed =>
    obtain ⟨d, -, hs⟩ := Option.bind_eq_some_iff.mp hs
    simp only [Option.ite_none_left_eq_some, Option.ite_none_right_eq_some] at hs
    obtain ⟨q, -, rfl⟩ := Option.map_eq_some_iff.mp hs.2.2
    exact ⟨hun, hw⟩
  | deliverPong i =>
    obtain ⟨d, -, hs⟩ := Option.bind_eq_some_iff.mp hs
    simp only [Option.ite_none_right_eq_some] at hs
    obtain ⟨p, hp, rfl⟩ := Option.map_eq_some_iff.mp hs.2
    exact ⟨hun.given (observed_eq_some.mp hp).1, hw⟩

/-- **So does the subscriber**, and it does not return `PERFTEST_LITE_OK`. -/
theorem unmatched_sub (hno : N.pingMatches = false) (he : N.Honest e)
    (h : s.sub.1.Unmatched ∧ s.sub.2 ≠ some .ok) (hs : processStep N.deployment s e = some s') :
    s'.sub.1.Unmatched ∧ s'.sub.2 ≠ some .ok := by
  have hreturns : ∀ {e : SubEngineEvent} {q : SubEngine × Option Retcode},
      subProcess N.deployment s.sub e = some q → q.2 ≠ some .ok := fun hq => by
    obtain ⟨hstep, hcode⟩ := observed_eq_some.mp hq
    rw [← Option.some.inj hcode]
    exact h.1.returns h.2 hstep
  cases e with
  | tick d =>
    cases hs
    exact h
  | subInit calls =>
    obtain ⟨q, hq, rfl⟩ := Option.map_eq_some_iff.mp hs
    exact ⟨h.1.init (observed_eq_some.mp hq).1, hreturns hq⟩
  | sub ok =>
    obtain ⟨q, hq, rfl⟩ := Option.map_eq_some_iff.mp hs
    exact ⟨h.1.statement (observed_eq_some.mp hq).1, hreturns hq⟩
  | subMatched change =>
    obtain ⟨q, hq, rfl⟩ := Option.map_eq_some_iff.mp hs
    have hchange : change ≤ 0 := not_lt.mp fun hpos => by
      have hmatch : N.pingMatches = true := he hpos
      rw [hno] at hmatch
      cases hmatch
    exact ⟨h.1.matched hchange (observed_eq_some.mp hq).1, hreturns hq⟩
  | pubInit calls | pub ok | pubMatched change | dropPing i | dropPong i =>
    obtain ⟨p, -, rfl⟩ := Option.map_eq_some_iff.mp hs
    exact h
  | deliverPing i echoed =>
    obtain ⟨d, -, hs⟩ := Option.bind_eq_some_iff.mp hs
    simp only [Option.ite_none_left_eq_some, Option.ite_none_right_eq_some] at hs
    obtain ⟨q, hq, rfl⟩ := Option.map_eq_some_iff.mp hs.2.2
    exact ⟨h.1.given (observed_eq_some.mp hq).1, hreturns hq⟩
  | deliverPong i =>
    obtain ⟨d, -, hs⟩ := Option.bind_eq_some_iff.mp hs
    simp only [Option.ite_none_right_eq_some] at hs
    obtain ⟨p, -, rfl⟩ := Option.map_eq_some_iff.mp hs.2
    exact h

/-- The step at which the code becomes `PERFTEST_LITE_OK` comes behind the capture. -/
theorem captured_before_ok (h : ProcessAbstracts D s u) (hs : processStep D s e = some s')
    (hold : s.sub.2 = some .ok → u.sub.pc.captured = true) (hok : s'.sub.2 = some .ok) :
    u.sub.pc.captured = true := by
  rcases processStep_sub hs with hsame | ⟨e, hq⟩
  · exact hold (hsame ▸ hok)
  · obtain ⟨hstep, hcode⟩ := observed_eq_some.mp hq
    rw [hok] at hcode
    rcases shutdown_of_ok hstep (Option.some.inj hcode) with hcode | ⟨hl, hpc, hends⟩
    · exact hold hcode
    · cases h.sub with
      | before _ hbefore _ _ => simp [SubSide.before, hpc, hends] at hbefore
      | measuring hq _ _ _ => exact absurd (hl.symm.trans hq) (by simp)
      | ended _ _ _ hend _ _ =>
        rw [hend]
        rfl
      | gone _ hgone _ _ _ =>
        rw [hpc] at hgone
        cases hgone

/-- **A subscriber that returned `PERFTEST_LITE_OK` has captured**: the system follows the processes to where it
has. -/
theorem processes_follow_ok : Follows (processStep D) (sysStep D.net D.type D.cfg D.args D.subArgs)
    fun s u => (ProcessAbstracts D s u ∧ u.Quiet) ∧ (s.sub.2 = some .ok → u.sub.pc.captured = true) := by
  rintro s u e s' ⟨⟨h, hquiet⟩, hcaptured⟩ hs
  obtain ⟨u', hanswer, h'⟩ := processes_step h hquiet hs
  exact hanswer.reaches ⟨⟨h', hanswer.quiet hquiet⟩, fun hok =>
    hanswer.captured (captured_before_ok h hs hcaptured hok)⟩

end

/-- **A test that completes is between endpoints that match in both directions.** Over any network, with
reports of matches that are true: if the subscriber returns `PERFTEST_LITE_OK`, its ping reader and the pong
reader of the publisher are both matched. Where discovery is dynamic, both programs were started for the same
domain, type and reliability. -/
theorem completed_matched {N : Peers} {mw subMw : MicroMW} {results subResults : Option Results} {clock : ℕ}
    {es : List ProcessEvent} {s : Processes}
    (hrun : exec (processStep N.deployment) (processesInit mw subMw results subResults clock) es = some s)
    (hhonest : ∀ e ∈ es, N.Honest e) (hok : s.sub.2 = some .ok) :
    (N.pingMatches = true ∧ N.pongMatches = true) ∧
    (N.deployment.pubBuild.dpse = false → N.deployment.subBuild.dpse = false →
      N.deployment.args.domainId = N.deployment.subArgs.domainId ∧ N.typeName = N.subTypeName ∧
        N.deployment.args.reliable = N.deployment.subArgs.reliable) := by
  have halong : Along (processStep N.deployment) (fun _ e => N.Honest e)
      (processesInit mw subMw results subResults clock) es := along_of_forall hhonest _
  have hping : N.pingMatches = true := by
    by_contra hno
    have hun : s.sub.1.Unmatched ∧ s.sub.2 ≠ some .ok :=
      exec_invariant_along (I := fun s => s.sub.1.Unmatched ∧ s.sub.2 ≠ some .ok)
        (fun _ _ _ h he hs => unmatched_sub (Bool.eq_false_of_not_eq_true hno) he h hs) hrun halong
        ⟨⟨fun _ => ⟨le_rfl, .inl rfl⟩, fun q hq => absurd hq (by simp [processesInit])⟩,
          by simp [processesInit]⟩
    exact hun.2 hok
  have hpong : N.pongMatches = true := by
    by_contra hno
    have hun : s.pub.1.Unmatched ∧ s.writes = [] :=
      exec_invariant_along (I := fun s => s.pub.1.Unmatched ∧ s.writes = [])
        (fun _ _ _ h he hs => unmatched_pub (Bool.eq_false_of_not_eq_true hno) he h hs) hrun halong
        ⟨⟨rfl, rfl, le_rfl⟩, rfl⟩
    -- nothing is written, so the measurement of the subscriber captures nothing either
    obtain ⟨ls, u, hls, ⟨h, -⟩, hcaptured⟩ := processes_follow_ok.reaches
      ⟨⟨processes_init N.deployment mw subMw results subResults clock, fun _ => ⟨rfl, rfl⟩⟩,
        by simp [processesInit]⟩ hrun
    have hsilent : u.Silent := exec_invariant (I := fun u => u.pub.writes = [] → u.Silent)
      (fun _ _ _ h hs => silent_step h (sysStep_cases hs)) hls
      (fun _ => ⟨rfl, rfl, rfl, SubPc.noConfusion⟩) (h.writes.trans hun.2)
    have hwaits := hsilent.waits.1
    rw [hcaptured hok] at hwaits
    cases hwaits
  refine ⟨⟨hping, hpong⟩, fun hpub hsub => ?_⟩
  obtain ⟨hdomain, htype, hrel⟩ := Matching.alike hping hsub
  obtain ⟨-, -, hrel'⟩ := Matching.alike hpong hpub
  exact ⟨hdomain, htype, Bool.eq_iff_iff.mpr ⟨hrel', hrel⟩⟩

/-- Both sides with their defaults and dynamic discovery. -/
def dynamicPeers : Peers where
  deployment := { plainDeployment with
    pubBuild := { plainBuild with dpse := false }
    subBuild := { plainBuild with dpse := false } }
  matching := .plain
  limits := defaultLimits
  subLimits := defaultLimits
  typeName := "PerftestType"
  subTypeName := "PerftestType"

theorem completed_matched_dynamic : dynamicPeers.pingMatches = true ∧ dynamicPeers.pongMatches = true ∧
    publisherDefaults.reliable = subscriberDefaults.reliable := by
  -- nothing is asserted, so the setups are one statement shorter
  have hend : (exec (processStep dynamicPeers.deployment) plainStart (oneTest 13 11)).map
      (fun s => s.sub.2) = some (some .ok) := by
    decide +kernel
  obtain ⟨s, hs, heq⟩ := Option.map_eq_some_iff.mp hend
  have hhonest : ∀ e ∈ oneTest 13 11, dynamicPeers.Honest e := by
    intro e _
    cases e with
    | pubMatched change => exact fun _ => by decide
    | subMatched change => exact fun _ => by decide
    | _ => trivial
  have h := completed_matched hs hhonest heq
  exact ⟨h.1.1, h.1.2, (h.2 rfl rfl).2.2⟩

end PerftestLite
