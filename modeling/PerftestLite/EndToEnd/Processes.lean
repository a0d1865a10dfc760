import PerftestLite.EndToEnd.Readers
import PerftestLite.Lifecycle.Match
import PerftestLite.Lifecycle.Return

/-!
# Two processes

Both engines from the call to the return, every creation call with either outcome, and the two topics between
them. Samples reach the subscriber from the moment its reader is ready, long before its measurement begins, and
both until their `shutdown`. The system of the two measurements sees none of this.

* `Processes`, `processStep`: both processes, the topics and the clock;
* `PubAbstracts`, `SubAbstracts`: where the measurements stand while a process stands elsewhere;
* `PubAbstracts.statement`, `SubAbstracts.statement`, `processes_step`: every step is answered by the system;
* `processes_refine`.
-/

set_option autoImplicit false

namespace PerftestLite

open Word Machine Channel

/-! ## The processes -/

/-- The two programs, their arguments and what they run on. -/
structure Deployment where
  net : Net
  type : TypeInterface
  cfg : Config
  pubBuild : Build
  subBuild : Build
  args : InputArgs
  subArgs : InputArgs
  /-- The heap of the publisher has room for the history of latencies. -/
  heap : Bool

/-- A history is kept. -/
def Deployment.history (D : Deployment) : Bool := decide (D.cfg.latencyHistorySize > 0) && D.heap

/-- Both engines, each with the code it is going to return. The writes of the publisher are ghost state. -/
structure Processes where
  clock : ℕ
  pub : PubEngine × Option Retcode
  sub : SubEngine × Option Retcode
  pings : List PerftestSample
  pongs : List PerftestSample
  writes : List (PerftestSample × Bool)

/-- One step of the publisher. -/
def pubProcess (D : Deployment) :
    PubEngine × Option Retcode → PubRunEvent → Option (PubEngine × Option Retcode) :=
  observed (pubEngineStep D.pubBuild D.type D.cfg D.args) fun s code e =>
    some (pubReturns D.pubBuild D.args s code e)

/-- One step of the subscriber. -/
def subProcess (D : Deployment) :
    SubEngine × Option Retcode → SubEngineEvent → Option (SubEngine × Option Retcode) :=
  observed (subEngineStep D.subBuild D.type D.subArgs) fun s code e =>
    some (subReturns D.subBuild D.subArgs s code e)

/-- The next statement of the publisher, in the measurement or outside. -/
def PubEngine.statement (D : Deployment) (s : PubEngine) (now : ℕ) (ok : Bool) : PubRunEvent :=
  if s.run.loop.isSome then .loop (now, .main ok)
  else .setup (.main (if s.run.side.pc = .allocHistory then D.heap else ok))

def PubEngine.given (s : PubEngine) (now : ℕ) (x : PerftestSample) : PubRunEvent :=
  if s.run.loop.isSome then .loop (now, .pong x) else .setup (.data now (some x))

def PubEngine.matched (s : PubEngine) (now : ℕ) (change : ℤ) : PubRunEvent :=
  if s.run.loop.isSome then .loop (now, .matched change) else .setup (.matched change)

/-- The writes of the measurement. -/
def PubEngine.writes (s : PubEngine) : List (PerftestSample × Bool) := (s.run.loop.map PubState.writes).getD []

/-- The writes of a step. -/
def newWrites (s s' : PubEngine) : List (PerftestSample × Bool) := s'.writes.drop s.writes.length

def SubEngine.statement (s : SubEngine) (now : ℕ) (ok : Bool) : SubEngineEvent :=
  if s.loop.isSome then .loop (now, .main) else .run (.setup (.main ok))

def SubEngine.given (s : SubEngine) (now : ℕ) (x : PerftestSample) : SubEngineEvent :=
  if s.loop.isSome then .loop (now, .sample x) else .run (.setup (.data now (some x)))

def SubEngine.matched (s : SubEngine) (now : ℕ) (change : ℤ) : SubEngineEvent :=
  if s.loop.isSome then .loop (now, .matched change) else .run (.setup (.matched change))

/-- The echo of a sample. -/
def SubEngine.echo (T : TypeInterface) (s : SubEngine) (now : ℕ) (x : PerftestSample) : Option PerftestSample :=
  (subOnSample T now x ((s.loop.map SubState.ctx).getD s.run.side.ctx)).2

/-- Past the reset block. -/
def SubEngine.late (s : SubEngine) : Bool :=
  match s.loop with
  | some q => q.pc.late
  | none => decide (s.run.side.pc = .shutdown) && s.run.side.pongW && s.run.side.pingR

/-- The reader is ready, and there is a writer for the echo. Without, a sample is the end of defined
behaviour. -/
def SubEngine.takes (T : TypeInterface) (s : SubEngine) (now : ℕ) (x : PerftestSample) : Bool :=
  s.run.side.endpoint.ready && ((s.echo T now x).isNone || s.run.side.pongW)

inductive ProcessEvent
  | tick (d : ℕ)
  | pubInit (calls : InitCall → Bool)
  | pub (ok : Bool)
  | subInit (calls : InitCall → Bool)
  | sub (ok : Bool)
  | pubMatched (change : ℤ)
  | subMatched (change : ℤ)
  | deliverPing (i : ℕ) (echoed : Bool)
  | dropPing (i : ℕ)
  | deliverPong (i : ℕ)
  | dropPong (i : ℕ)

/-- One step of both processes. -/
def processStep (D : Deployment) (s : Processes) : ProcessEvent → Option Processes
  | .tick d => some { s with clock := s.clock + d }
  | .pubInit calls => (pubProcess D s.pub (.init calls)).map fun p => { s with pub := p }
  | .pub ok => (pubProcess D s.pub (s.pub.1.statement D s.clock ok)).map fun p =>
      { s with
        pub := p
        pings := s.pings ++ sent (newWrites s.pub.1 p.1)
        writes := s.writes ++ newWrites s.pub.1 p.1 }
  | .subInit calls => (subProcess D s.sub (.run (.init calls))).map fun q => { s with sub := q }
  | .sub ok => (subProcess D s.sub (s.sub.1.statement s.clock ok)).map fun q => { s with sub := q }
  | .pubMatched change => (pubProcess D s.pub (s.pub.1.matched s.clock change)).map fun p => { s with pub := p }
  | .subMatched change => (subProcess D s.sub (s.sub.1.matched s.clock change)).map fun q => { s with sub := q }
  | .deliverPing i echoed =>
    (deliver D.net.ping s.pings i).bind fun d =>
      if echoed = false ∧ D.net.echoMayFail = false then none
      else if s.sub.1.takes D.type s.clock d.1 then
        (subProcess D s.sub (s.sub.1.given s.clock d.1)).map fun q =>
          { s with
            sub := q
            pings := d.2
            pongs := s.pongs ++ if echoed then (s.sub.1.echo D.type s.clock d.1).toList else [] }
      else none
  | .dropPing i => (drop D.net.ping s.pings i).map fun ch => { s with pings := ch }
  | .deliverPong i =>
    (deliver D.net.pong s.pongs i).bind fun d =>
      if s.pub.1.run.side.endpoint.ready then
        (pubProcess D s.pub (s.pub.1.given s.clock d.1)).map fun p => { s with pub := p, pongs := d.2 }
      else none
  | .dropPong i => (drop D.net.pong s.pongs i).map fun ch => { s with pongs := ch }

/-- Both processes at the call of their engines. -/
def processesInit (mw subMw : MicroMW) (results subResults : Option Results) (clock : ℕ) : Processes where
  clock := clock
  pub := (⟨pubRunInit mw, results⟩, none)
  sub := (⟨subRunInit subMw, none, subResults⟩, none)
  pings := []
  pongs := []
  writes := []

/-! ## The publisher -/

/-- The measurement is still to come. -/
def PubSetup.early : PubSetup → Bool
  | .destroySample | .shutdown _ | .closeLog | .semaphoreDelete _ | .freeHistory | .returned => false
  | _ => true

/-- It has ended, and callbacks still come. -/
def PubSetup.ended : PubSetup → Bool
  | .destroySample | .shutdown .finished => true
  | _ => false

/-- Behind the `shutdown` that follows it. -/
def PubSetup.gone : PubSetup → Bool
  | .closeLog | .semaphoreDelete _ | .freeHistory | .returned => true
  | _ => false

/-- On an exit without a measurement. -/
def PubSetup.failed : PubSetup → Bool
  | .shutdown exit => decide (exit ≠ .finished)
  | .semaphoreDelete _ | .freeHistory | .returned => true
  | _ => false

/-- The history has been allocated, or not. -/
def PubSide.Kept (history : Bool) (s : PubSide) : Prop :=
  match s.pc with
  | .createSample | .waitMatch | .openLog | .run => s.ctx.latHistory = if history then some [] else none
  | _ => True

/-- Where the measurement stands: at its start while the process sets up, and at `shutdown` while the process
cleans up. -/
inductive PubAbstracts (D : Deployment) (s : PubEngine) (p : PubState) : Prop
  | early : s.run.loop = none → s.run.side.pc.early = true → s.run.side.Fresh D.args →
      s.run.side.Kept D.history →
      p = pubInit D.type D.args D.history s.run.side.ctx.matchedPubs s.results → PubAbstracts D s p
  | measuring : s.run.loop = some p → s.run.side.pc = .run → p.results = s.results → PubAbstracts D s p
  | ended : s.run.loop = none → s.run.side.pc.ended = true → p.pc = .shutdown → p.ctx = s.run.side.ctx →
      p.results = s.results → PubAbstracts D s p
  | gone : s.run.loop = none → s.run.side.pc.gone = true → s.run.side.endpoint.armed = false →
      p.pc = .done → p.results = s.results → PubAbstracts D s p
  | failed : s.run.loop = none → s.run.side.pc.failed = true → p.pc = .warmup → p.results = s.results →
      PubAbstracts D s p

section Publisher

variable {D : Deployment} {b : Build} {T : TypeInterface} {cfg : Config} {args : InputArgs} {s s' : PubEngine}
  {p p' : PubState} {now : ℕ} {ok : Bool} {side side' : PubSide}

/-- A statement before the measurement leads on, or to an exit. -/
theorem early_statement (h : side.pc.early = true) (hrun : side.pc ≠ .run)
    (hs : perftestLitePublisher b.dpse cfg args ok side = some side') :
    side'.pc.early = true ∨ side'.pc.failed = true := by
  obtain ⟨pc, e, ctx, pingW, pongR⟩ := side
  cases pc with
  | run => exact absurd rfl hrun
  | destroySample | shutdown | closeLog | semaphoreDelete | freeHistory | returned => cases h
  | createReader pc =>
    rcases pubCreateReader_cases hs with ⟨reader, rfl, rfl⟩ | ⟨pc', e', hq, rfl⟩
    · exact .inl rfl
    · exact .inl rfl
  | init | createSample =>
    cases ok <;> cases hs
    · exact .inr rfl
    · exact .inl rfl
  | createWriter | allocHistory =>
    cases hs
    exact .inl rfl
  | checkEndpoints =>
    cases hs
    dsimp only
    split_ifs
    · exact .inl rfl
    · exact .inr rfl
  | semaphoreNew =>
    cases ok <;> cases hs
    · exact .inr rfl
    · exact .inl rfl
  | waitMatch =>
    simp only [perftestLitePublisher] at hs
    split_ifs at hs <;> cases hs <;> exact .inl rfl
  | openLog =>
    simp only [perftestLitePublisher] at hs
    split_ifs at hs <;> cases hs
    · exact .inl rfl
    · exact .inr rfl
    · exact .inl rfl

/-- The history stays as it was allocated. -/
theorem PubSide.Kept.main {history : Bool} (h : side.Kept history)
    (hok : side.pc = .allocHistory → (decide (cfg.latencyHistorySize > 0) && ok) = history)
    (hs : perftestLitePublisher b.dpse cfg args ok side = some side') : side'.Kept history := by
  obtain ⟨pc, e, ctx, pingW, pongR⟩ := side
  cases pc with
  | createReader pc =>
    rcases pubCreateReader_cases hs with ⟨reader, rfl, rfl⟩ | ⟨pc', e', hq, rfl⟩ <;> trivial
  | allocHistory =>
    cases hs
    rw [← hok rfl]
    rfl
  | createSample =>
    cases ok <;> cases hs
    · trivial
    · exact h
  | waitMatch =>
    simp only [perftestLitePublisher] at hs
    split_ifs at hs <;> (cases hs; exact h)
  | openLog =>
    simp only [perftestLitePublisher] at hs
    split_ifs at hs <;> cases hs
    · exact h
    · trivial
    · exact h
  | checkEndpoints =>
    cases hs
    unfold PubSide.Kept
    dsimp only
    split_ifs <;> trivial
  | semaphoreNew | init => cases ok <;> cases hs <;> trivial
  | shutdown exit =>
    cases hs
    cases exit <;> trivial
  | semaphoreDelete exit =>
    cases hs
    cases exit <;> trivial
  | createWriter | run | destroySample | closeLog | freeHistory =>
    cases hs
    trivial
  | returned => cases hs

/-- An exit leads to the return. -/
theorem failed_statement (h : side.pc.failed = true)
    (hs : perftestLitePublisher b.dpse cfg args ok side = some side') : side'.pc.failed = true := by
  obtain ⟨pc, e, ctx, pingW, pongR⟩ := side
  cases pc with
  | shutdown exit | semaphoreDelete exit =>
    cases hs
    cases exit <;> first | rfl | cases h
  | freeHistory =>
    cases hs
    rfl
  | returned => cases hs
  | _ => cases h

/-- Behind a measurement come the sample and `shutdown`. -/
theorem ended_statement (h : side.pc.ended = true)
    (hs : perftestLitePublisher b.dpse cfg args ok side = some side') :
    side'.pc.ended = true ∧ side'.ctx = side.ctx ∨ side'.pc.gone = true ∧ side'.endpoint.armed = false := by
  obtain ⟨pc, e, ctx, pingW, pongR⟩ := side
  cases pc with
  | destroySample =>
    cases hs
    exact .inl ⟨rfl, rfl⟩
  | shutdown exit =>
    cases hs
    cases exit with
    | finished => exact .inr ⟨rfl, rfl⟩
    | _ => cases h
  | _ => cases h

/-- So does the end of a test, with no callback any more. -/
theorem gone_statement (h : side.pc.gone = true)
    (hs : perftestLitePublisher b.dpse cfg args ok side = some side') :
    side'.pc.gone = true ∧ side'.endpoint = side.endpoint := by
  obtain ⟨pc, e, ctx, pingW, pongR⟩ := side
  cases pc with
  | semaphoreDelete exit =>
    cases hs
    cases exit <;> exact ⟨rfl, rfl⟩
  | closeLog | freeHistory =>
    cases hs
    exact ⟨rfl, rfl⟩
  | returned => cases hs
  | _ => cases h

/-- A statement outside the measurement. -/
theorem pubEngine_statement (hl : s.run.loop = none) (hrun : s.run.side.pc ≠ .run)
    (hs : pubEngineStep b T cfg args s (.setup (.main ok)) = some s') :
    perftestLitePublisher b.dpse cfg args ok s.run.side = some s'.run.side ∧ s'.run.loop = none ∧
      s'.results = s.results := by
  obtain ⟨run, hstep, rfl⟩ := Option.map_eq_some_iff.mp hs
  simp only [pubRunStep, Option.ite_none_left_eq_some, if_neg hrun] at hstep
  obtain ⟨side, hside, rfl⟩ := Option.map_eq_some_iff.mp hstep.2
  exact ⟨hside, hl, by simp [hl]⟩

/-- `mw->init`. -/
theorem pubEngine_init {calls : InitCall → Bool}
    (hs : pubEngineStep b T cfg args s (.init calls) = some s') : s.run.side.pc = .init ∧
      ∃ ok, perftestLitePublisher b.dpse cfg args ok s.run.side = some s'.run.side ∧
        s'.run.loop = s.run.loop ∧ s'.results = (s.run.loop.map PubState.results).getD s.results := by
  obtain ⟨run, hstep, rfl⟩ := Option.map_eq_some_iff.mp hs
  simp only [pubRunStep, Option.ite_none_right_eq_some] at hstep
  obtain ⟨hpc, hstep⟩ := hstep
  obtain ⟨side, hside, rfl⟩ := Option.map_eq_some_iff.mp hstep
  exact ⟨hpc, _, hside, rfl, rfl⟩

/-- A callback outside the measurement. -/
theorem pubEngine_callback {e : SetupEvent} (hl : s.run.loop = none) (he : ∀ ok, e ≠ .main ok)
    (hs : pubEngineStep b T cfg args s (.setup e) = some s') :
    pubSetupStep b.dpse cfg args s.run.side e = some s'.run.side ∧ s'.run.loop = none ∧
      s'.results = s.results := by
  obtain ⟨run, hstep, rfl⟩ := Option.map_eq_some_iff.mp hs
  cases e with
  | main ok => exact absurd rfl (he ok)
  | data now x | matched change =>
    simp only [pubRunStep, Option.ite_none_left_eq_some] at hstep
    obtain ⟨side, hside, rfl⟩ := Option.map_eq_some_iff.mp hstep.2
    exact ⟨hside, hl, by simp [hl]⟩

/-- The last statement of the measurement neither writes nor stores. -/
theorem pubMain_ends (hs : PubMain T cfg args now ok p p') (hpc : p'.pc = .shutdown) :
    p'.writes = p.writes ∧ p'.results = p.results := by
  cases hs with
  | finalEnd => exact ⟨rfl, rfl⟩
  | _ => cases hpc

/-- A callback neither writes nor stores. -/
theorem pubStep_callback {a : PubAction} (ha : ∀ ok, a ≠ .main ok)
    (hs : pubStep T cfg args p (now, a) = some p') :
    p'.writes = p.writes ∧ p'.results = p.results ∧ p'.pc = p.pc := by
  cases a with
  | main ok => exact absurd rfl (ha ok)
  | pong x | matched change =>
    simp only [pubStep, Option.ite_none_left_eq_some, Option.some.injEq] at hs
    rw [← hs.2]
    exact ⟨rfl, rfl, rfl⟩

/-- **A step of the measurement.** -/
theorem PubAbstracts.loop {a : PubAction} (hp : s.run.loop = some p) (hpc : s.run.side.pc = .run)
    (hres : p.results = s.results)
    (hs : pubEngineStep D.pubBuild D.type D.cfg D.args s (.loop (now, a)) = some s') :
    ∃ p', pubStep D.type D.cfg D.args p (now, a) = some p' ∧
      newWrites s s' = p'.writes.drop p.writes.length ∧ PubAbstracts D s' p' := by
  obtain ⟨run, hstep, rfl⟩ := Option.map_eq_some_iff.mp hs
  simp only [pubRunStep, hp, Option.bind_some, Option.map_eq_some_iff] at hstep
  obtain ⟨p', hp', rfl⟩ := hstep
  have hwrites : s.writes = p.writes := by
    unfold PubEngine.writes
    rw [hp]
    rfl
  refine ⟨p', hp', ?_⟩
  by_cases hend : p'.pc = .shutdown
  · have hsame : p'.writes = p.writes ∧ p'.results = p.results := by
      cases a with
      | main ok => exact pubMain_ends (pubMain_cases hp') hend
      | pong x | matched change =>
        obtain ⟨hw, hr, -⟩ := pubStep_callback (by simp) hp'
        exact ⟨hw, hr⟩
    rw [if_pos hend, hsame.1, List.drop_length]
    exact ⟨List.drop_nil, .ended rfl rfl hend rfl (hsame.2.trans hres)⟩
  · rw [if_neg hend]
    refine ⟨?_, .measuring rfl hpc rfl⟩
    rw [newWrites, hwrites]
    rfl

/-- Outside the measurement nothing is written. -/
theorem newWrites_outside (hl : s'.run.loop = none) : newWrites s s' = [] := by
  unfold newWrites PubEngine.writes
  rw [hl]
  exact List.drop_nil

/-- A match before the measurement. -/
theorem pubInit_matched (T : TypeInterface) (args : InputArgs) (history : Bool) (c : PubCtx)
    (results : Option Results) (change : ℤ) :
    ({ pubInit T args history c.matchedPubs results with
        ctx := pubOnReaderMatched change (pubInit T args history c.matchedPubs results).ctx } : PubState) =
      pubInit T args history (pubOnReaderMatched change c).matchedPubs results := by
  unfold pubOnReaderMatched
  split_ifs <;> rfl

/-- **A statement of the publisher** is one of the measurement, or none. -/
theorem PubAbstracts.statement (h : PubAbstracts D s p)
    (hs : pubEngineStep D.pubBuild D.type D.cfg D.args s (s.statement D now ok) = some s') :
    (newWrites s s' = [] ∧ PubAbstracts D s' p) ∨
      ∃ p', pubStep D.type D.cfg D.args p (now, .main ok) = some p' ∧
        newWrites s s' = p'.writes.drop p.writes.length ∧ PubAbstracts D s' p' := by
  cases h with
  | measuring hp hpc hres =>
    rw [PubEngine.statement, hp] at hs
    exact .inr (PubAbstracts.loop hp hpc hres hs)
  | early hl hpc hfresh hkept hinit =>
    rw [PubEngine.statement, hl] at hs
    refine .inl ?_
    by_cases hrun : s.run.side.pc = .run
    · -- the measurement begins
      obtain ⟨run, hstep, rfl⟩ := Option.map_eq_some_iff.mp hs
      have hnot : ¬ (s.run.side.pc = .init ∨ s.run.loop.isSome = true) := by
        rw [hrun, hl]
        simp
      replace hstep := (if_neg hnot).symm.trans hstep
      rw [if_pos hrun, Option.some.injEq] at hstep
      subst hstep
      unfold PubSide.Fresh at hfresh
      unfold PubSide.Kept at hkept
      rw [hrun] at hfresh hkept
      obtain ⟨n, history, hctx⟩ := hfresh
      have hhistory : history = D.history := by
        have heq := (congrArg PubCtx.latHistory hctx).symm.trans hkept
        revert heq
        cases history <;> cases D.history <;> simp [pubCtxInit]
      refine ⟨List.drop_nil, .measuring ?_ hrun (by rw [hinit]; rfl)⟩
      rw [hinit, hctx, hhistory]
      rfl
    · obtain ⟨hside, hl', hres⟩ := pubEngine_statement hl hrun hs
      refine ⟨newWrites_outside hl', ?_⟩
      rcases early_statement hpc hrun hside with hearly | hfailed
      · refine .early hl' hearly (hfresh.main hside) (hkept.main (fun halloc => ?_) hside) ?_
        · rw [if_pos halloc]
          rfl
        · rw [perftestLitePublisher_matchedPubs hside, hres]
          exact hinit
      · refine .failed hl' hfailed ?_ ?_
        · rw [hinit]
          rfl
        · rw [hinit, hres]
          rfl
  | ended hl hpc hend hctx hres =>
    rw [PubEngine.statement, hl] at hs
    have hrun : s.run.side.pc ≠ .run := fun hrun => by
      rw [hrun] at hpc
      cases hpc
    obtain ⟨hside, hl', hres'⟩ := pubEngine_statement hl hrun hs
    rw [← hres'] at hres
    rcases ended_statement hpc hside with ⟨hended, hctx'⟩ | ⟨hgone, harmed⟩
    · exact .inl ⟨newWrites_outside hl', .ended hl' hended hend (hctx.trans hctx'.symm) hres⟩
    · refine .inr ⟨{ p with pc := .done }, by simp [pubStep, pubMain, hend], ?_,
        .gone hl' hgone harmed rfl hres⟩
      rw [newWrites_outside hl']
      exact List.drop_length.symm
  | gone hl hpc harmed hend hres =>
    rw [PubEngine.statement, hl] at hs
    have hrun : s.run.side.pc ≠ .run := fun hrun => by
      rw [hrun] at hpc
      cases hpc
    obtain ⟨hside, hl', hres'⟩ := pubEngine_statement hl hrun hs
    obtain ⟨hgone, hendpoint⟩ := gone_statement hpc hside
    exact .inl ⟨newWrites_outside hl', .gone hl' hgone (hendpoint ▸ harmed) hend (hres.trans hres'.symm)⟩
  | failed hl hpc hend hres =>
    rw [PubEngine.statement, hl] at hs
    have hrun : s.run.side.pc ≠ .run := fun hrun => by
      rw [hrun] at hpc
      cases hpc
    obtain ⟨hside, hl', hres'⟩ := pubEngine_statement hl hrun hs
    exact .inl ⟨newWrites_outside hl', .failed hl' (failed_statement hpc hside) hend (hres.trans hres'.symm)⟩

/-- `mw->init` comes before the measurement. -/
theorem PubAbstracts.init {calls : InitCall → Bool} (h : PubAbstracts D s p)
    (hs : pubEngineStep D.pubBuild D.type D.cfg D.args s (.init calls) = some s') : PubAbstracts D s' p := by
  obtain ⟨hpc, ok, hside, hloop, hres⟩ := pubEngine_init hs
  cases h with
  | early hl hearly hfresh hkept hinit =>
    rw [hl] at hloop hres
    have hrun : s.run.side.pc ≠ .run := by
      rw [hpc]
      exact PubSetup.noConfusion
    rcases early_statement hearly hrun hside with hnext | hfailed
    · refine .early hloop hnext (hfresh.main hside) (hkept.main (fun halloc => ?_) hside) ?_
      · rw [hpc] at halloc
        cases halloc
      · rw [perftestLitePublisher_matchedPubs hside, hres]
        exact hinit
    · refine .failed hloop hfailed ?_ ?_
      · rw [hinit]
        rfl
      · rw [hinit, hres]
        rfl
  | measuring _ hother _ => cases hpc.symm.trans hother
  | ended _ hother _ _ _ | gone _ hother _ _ _ | failed _ hother _ _ =>
    rw [hpc] at hother
    cases hother

/-- The callbacks of a measurement that has not returned. -/
theorem pubStep_matched (hpc : p.pc ≠ .done) (change : ℤ) : pubStep T cfg args p (now, .matched change) =
    some { p with ctx := pubOnReaderMatched change p.ctx } := if_neg hpc

theorem pubStep_pong (hpc : p.pc ≠ .done) (x : PerftestSample) :
    pubStep T cfg args p (now, .pong x) = some (p.pong cfg now x) := if_neg hpc

/-- **A match** is seen by the measurement, or comes on an exit without one. -/
theorem PubAbstracts.matched {change : ℤ} (h : PubAbstracts D s p)
    (hs : pubEngineStep D.pubBuild D.type D.cfg D.args s (s.matched now change) = some s') :
    PubAbstracts D s' p ∨
      ∃ p', pubStep D.type D.cfg D.args p (now, .matched change) = some p' ∧ PubAbstracts D s' p' := by
  cases h with
  | measuring hp hpc hres =>
    rw [PubEngine.matched, hp] at hs
    obtain ⟨p', hp', -, h'⟩ := PubAbstracts.loop hp hpc hres hs
    exact .inr ⟨p', hp', h'⟩
  | early hl hpc hfresh hkept hinit =>
    rw [PubEngine.matched, hl] at hs
    obtain ⟨hstep, hl', hres⟩ := pubEngine_callback hl (by simp) hs
    have hfresh' := pubFresh_step hfresh (show OnlyWarmup (.matched change) from trivial) hstep
    simp only [pubSetupStep, Option.ite_none_right_eq_some, Option.some.injEq] at hstep
    obtain ⟨-, hside⟩ := hstep
    have hmatched := pubInit_matched D.type D.args D.history s.run.side.ctx s.results change
    rw [← hinit] at hmatched
    refine .inr ⟨_, pubStep_matched (by rw [hinit]; exact PubPc.noConfusion) change,
      .early hl' (hside ▸ hpc) hfresh' (hside ▸ ?_) ?_⟩
    · have hsame : (pubOnReaderMatched change s.run.side.ctx).latHistory = s.run.side.ctx.latHistory := by
        unfold pubOnReaderMatched
        split_ifs <;> rfl
      unfold PubSide.Kept at hkept ⊢
      dsimp only
      rw [hsame]
      exact hkept
    · rw [hmatched, ← hside, hres]
  | ended hl hpc hend hctx hres =>
    rw [PubEngine.matched, hl] at hs
    obtain ⟨hstep, hl', hres'⟩ := pubEngine_callback hl (by simp) hs
    simp only [pubSetupStep, Option.ite_none_right_eq_some, Option.some.injEq] at hstep
    obtain ⟨-, hside⟩ := hstep
    refine .inr ⟨_, pubStep_matched (by rw [hend]; exact PubPc.noConfusion) change,
      .ended hl' (hside ▸ hpc) hend ?_ (hres.trans hres'.symm)⟩
    rw [← hside, hctx]
  | gone hl hpc harmed hend hres =>
    rw [PubEngine.matched, hl] at hs
    obtain ⟨hstep, -, -⟩ := pubEngine_callback hl (by simp) hs
    simp [pubSetupStep, harmed] at hstep
  | failed hl hpc hend hres =>
    rw [PubEngine.matched, hl] at hs
    obtain ⟨hstep, hl', hres'⟩ := pubEngine_callback hl (by simp) hs
    simp only [pubSetupStep, Option.ite_none_right_eq_some, Option.some.injEq] at hstep
    obtain ⟨-, hside⟩ := hstep
    exact .inl (.failed hl' (hside ▸ hpc) hend (hres.trans hres'.symm))

/-- **A pong** is seen by the measurement, once it has begun. -/
theorem PubAbstracts.given {x : PerftestSample} (h : PubAbstracts D s p) (hbegun : p.pc ≠ .warmup)
    (hready : s.run.side.endpoint.ready = true)
    (hs : pubEngineStep D.pubBuild D.type D.cfg D.args s (s.given now x) = some s') :
    ∃ p', pubStep D.type D.cfg D.args p (now, .pong x) = some p' ∧ PubAbstracts D s' p' := by
  cases h with
  | measuring hp hpc hres =>
    rw [PubEngine.given, hp] at hs
    obtain ⟨p', hp', -, h'⟩ := PubAbstracts.loop hp hpc hres hs
    exact ⟨p', hp', h'⟩
  | early hl hpc hfresh hkept hinit =>
    rw [hinit] at hbegun
    exact absurd rfl hbegun
  | ended hl hpc hend hctx hres =>
    rw [PubEngine.given, hl] at hs
    obtain ⟨hstep, hl', hres'⟩ := pubEngine_callback hl (by simp) hs
    simp only [pubSetupStep, Option.ite_none_right_eq_some, Option.some.injEq, hready, if_true] at hstep
    obtain ⟨-, hside⟩ := hstep
    refine ⟨_, pubStep_pong (by rw [hend]; exact PubPc.noConfusion) x,
      .ended hl' (hside ▸ hpc) hend ?_ (hres.trans hres'.symm)⟩
    rw [← hside]
    exact congrArg (pubOnPongSample D.cfg now x) hctx
  | gone hl hpc harmed hend hres =>
    rw [PubEngine.given, hl] at hs
    obtain ⟨hstep, -, -⟩ := pubEngine_callback hl (by simp) hs
    simp [pubSetupStep, harmed] at hstep
  | failed hl hpc hend hres => exact absurd hend hbegun

end Publisher

/-! ## The subscriber -/

/-- The measurement has not begun, or never will for want of an endpoint. -/
def SubSide.before (s : SubSide) : Bool :=
  match s.pc with
  | .reset | .run | .returned => false
  | .waitMatch => s.pongW && s.pingR
  | .shutdown => !(s.pongW && s.pingR)
  | _ => true

/-- Where the measurement stands: at its match poll, with what the callbacks have done so far, while the process
sets up, and at `shutdown` while it cleans up. -/
inductive SubAbstracts (s : SubEngine) (q : SubState) : Prop
  | before : s.loop = none → s.run.side.before = true → s.run.side.Built →
      q = { subInit s.results with ctx := s.run.side.ctx } → SubAbstracts s q
  | measuring : s.loop = some q → s.run.side.pc = .waitMatch → (s.run.side.pongW && s.run.side.pingR) = true →
      q.results = s.results → SubAbstracts s q
  | ended : s.loop = none → s.run.side.pc = .shutdown → (s.run.side.pongW && s.run.side.pingR) = true →
      q.pc = .shutdown → q.ctx = s.run.side.ctx → q.results = s.results → SubAbstracts s q
  | gone : s.loop = none → s.run.side.pc = .returned → s.run.side.endpoint.armed = false →
      q.pc = .done ∨ q.pc = .waitMatch → q.results = s.results → SubAbstracts s q

section Subscriber

variable {D : Deployment} {b : Build} {T : TypeInterface} {args : InputArgs} {s s' : SubEngine}
  {q q' : SubState} {now : ℕ} {ok : Bool} {side side' : SubSide}

/-- A statement before the measurement leads on, or returns. -/
theorem before_statement (h : side.before = true) (hwait : side.pc ≠ .waitMatch)
    (hs : perftestLiteSubscriber b.dpse ok side = some side') :
    (side'.before = true ∨ side'.pc = .returned) ∧ side'.ctx = side.ctx := by
  obtain ⟨pc, e, ctx, pongW, pingR⟩ := side
  cases pc with
  | waitMatch => exact absurd rfl hwait
  | reset | run | returned => cases h
  | createReader pc =>
    rcases subCreateReader_cases hs with ⟨reader, rfl, rfl⟩ | ⟨pc', e', hq, rfl⟩
    · exact ⟨.inl rfl, rfl⟩
    · exact ⟨.inl rfl, rfl⟩
  | init =>
    cases ok <;> cases hs
    · exact ⟨.inr rfl, rfl⟩
    · exact ⟨.inl rfl, rfl⟩
  | createWriter =>
    cases hs
    exact ⟨.inl rfl, rfl⟩
  | checkEndpoints =>
    cases hs
    cases pongW <;> cases pingR <;> exact ⟨.inl rfl, rfl⟩
  | shutdown =>
    cases hs
    exact ⟨.inr rfl, rfl⟩

/-- A statement outside the measurement. -/
theorem subEngine_statement (hl : s.loop = none) (hwait : s.run.side.pc ≠ .waitMatch)
    (hs : subEngineStep b T args s (.run (.setup (.main ok))) = some s') :
    perftestLiteSubscriber b.dpse ok s.run.side = some s'.run.side ∧ s'.loop = none ∧
      s'.results = s.results := by
  simp only [subEngineStep, hl, Option.isSome_none, Bool.false_eq_true, if_false, hwait,
    Option.map_eq_some_iff] at hs
  obtain ⟨run, hrun, rfl⟩ := hs
  simp only [subRunStep, Option.ite_none_left_eq_some] at hrun
  obtain ⟨-, hrun⟩ := hrun
  split_ifs at hrun
  · obtain ⟨side, hside, rfl⟩ := Option.map_eq_some_iff.mp hrun
    exact ⟨hside, rfl, rfl⟩
  · obtain ⟨side, hside, rfl⟩ := Option.map_eq_some_iff.mp hrun
    exact ⟨hside, rfl, rfl⟩

/-- `mw->init`. -/
theorem subEngine_init {calls : InitCall → Bool}
    (hs : subEngineStep b T args s (.run (.init calls)) = some s') :
    s.run.side.pc = .init ∧ ∃ ok, perftestLiteSubscriber b.dpse ok s.run.side = some s'.run.side ∧
      s.loop = none ∧ s'.loop = none ∧ s'.results = s.results := by
  simp only [subEngineStep, Option.ite_none_left_eq_some, Bool.not_eq_true, Option.isSome_eq_false_iff,
    Option.isNone_iff_eq_none] at hs
  obtain ⟨hl, hs⟩ := hs
  obtain ⟨run, hrun, rfl⟩ := Option.map_eq_some_iff.mp hs
  simp only [subRunStep, Option.ite_none_right_eq_some] at hrun
  obtain ⟨hpc, hrun⟩ := hrun
  obtain ⟨side, hside, rfl⟩ := Option.map_eq_some_iff.mp hrun
  exact ⟨hpc, _, hside, hl, hl, rfl⟩

/-- A callback outside the measurement. -/
theorem subEngine_callback {e : SetupEvent} (hl : s.loop = none) (he : ∀ ok, e ≠ .main ok)
    (hs : subEngineStep b T args s (.run (.setup e)) = some s') :
    subSetupStep b.dpse T s.run.side e = some s'.run.side ∧ s'.loop = none ∧ s'.results = s.results := by
  cases e with
  | main ok => exact absurd rfl (he ok)
  | data now x | matched change =>
    simp only [subEngineStep, hl, Option.isSome_none, Bool.false_eq_true, if_false,
      Option.map_eq_some_iff] at hs
    obtain ⟨run, hrun, rfl⟩ := hs
    obtain ⟨side, hside, rfl⟩ := Option.map_eq_some_iff.mp hrun
    exact ⟨hside, rfl, rfl⟩

/-- **A step of the measurement.** -/
theorem SubAbstracts.loop {a : SubAction} (hq : s.loop = some q) (hpc : s.run.side.pc = .waitMatch)
    (hends : (s.run.side.pongW && s.run.side.pingR) = true)
    (hs : subEngineStep b T args s (.loop (now, a)) = some s') :
    ∃ q', subStep T args q (now, a) = some q' ∧ SubAbstracts s' q' := by
  simp only [subEngineStep, hq, Option.bind_some, Option.map_eq_some_iff] at hs
  obtain ⟨q', hq', rfl⟩ := hs
  refine ⟨q', hq', ?_⟩
  by_cases hend : q'.pc = .shutdown
  · rw [if_pos hend]
    exact .ended rfl rfl hends hend rfl rfl
  · rw [if_neg hend]
    exact .measuring rfl hpc hends rfl

/-- The callbacks of a measurement that has not returned. -/
theorem subStep_matched (hpc : q.pc ≠ .done) (change : ℤ) : subStep T args q (now, .matched change) =
    some { q with ctx := subOnReaderMatched change q.ctx } := if_neg hpc

theorem subStep_sample (hpc : q.pc ≠ .done) (x : PerftestSample) : subStep T args q (now, .sample x) =
    some { q with ctx := (subOnSample T now x q.ctx).1 } := if_neg hpc

/-- **A statement of the subscriber** is one of the measurement, or none. -/
theorem SubAbstracts.statement (h : SubAbstracts s q)
    (hs : subEngineStep b T args s (s.statement now ok) = some s') :
    SubAbstracts s' q ∨ ∃ q', subStep T args q (now, .main) = some q' ∧ SubAbstracts s' q' := by
  cases h with
  | measuring hq hpc hends hres =>
    rw [SubEngine.statement, hq] at hs
    exact .inr (SubAbstracts.loop hq hpc hends hs)
  | before hl hbefore hbuilt hinit =>
    rw [SubEngine.statement, hl] at hs
    refine .inl ?_
    by_cases hwait : s.run.side.pc = .waitMatch
    · -- the measurement begins
      simp only [subEngineStep, hl, Option.isSome_none, Bool.false_eq_true, if_false, hwait, if_true,
        Option.some.injEq] at hs
      rw [SubSide.before, hwait] at hbefore
      rw [← hs]
      exact .measuring (congrArg some hinit.symm) hwait hbefore (by rw [hinit]; rfl)
    · obtain ⟨hside, hl', hres⟩ := subEngine_statement hl hwait hs
      obtain ⟨hnext, hctx⟩ := before_statement hbefore hwait hside
      have hbuilt' := hbuilt.main hside
      rw [← hctx, ← hres] at hinit
      rcases hnext with hbefore' | hret
      · exact .before hl' hbefore' hbuilt' hinit
      · refine .gone hl' hret ?_ (.inr ?_) ?_
        · unfold SubSide.Built at hbuilt'
          rw [hret] at hbuilt'
          exact hbuilt'
        · rw [hinit]
          rfl
        · rw [hinit]
          rfl
  | ended hl hpc hends hend hctx hres =>
    rw [SubEngine.statement, hl] at hs
    obtain ⟨hside, hl', hres'⟩ := subEngine_statement hl (by rw [hpc]; exact SubSetup.noConfusion) hs
    simp only [perftestLiteSubscriber, hpc, Option.some.injEq] at hside
    refine .inr ⟨{ q with pc := .done }, by simp [subStep, subMain, hend], ?_⟩
    exact .gone hl' (hside ▸ rfl) (hside ▸ rfl) (.inl rfl) (hres.trans hres'.symm)
  | gone hl hpc harmed hend hres =>
    rw [SubEngine.statement, hl] at hs
    obtain ⟨hside, -, -⟩ := subEngine_statement hl (by rw [hpc]; exact SubSetup.noConfusion) hs
    simp [perftestLiteSubscriber, hpc] at hside

/-- `mw->init` comes before the measurement. -/
theorem SubAbstracts.init {calls : InitCall → Bool} (h : SubAbstracts s q)
    (hs : subEngineStep b T args s (.run (.init calls)) = some s') : SubAbstracts s' q := by
  obtain ⟨hpc, ok, hside, hl, hl', hres⟩ := subEngine_init hs
  have hwait : s.run.side.pc ≠ .waitMatch := by
    rw [hpc]
    exact SubSetup.noConfusion
  cases h with
  | before _ hbefore hbuilt hinit =>
    obtain ⟨hnext, hctx⟩ := before_statement hbefore hwait hside
    have hbuilt' := hbuilt.main hside
    rw [← hctx, ← hres] at hinit
    rcases hnext with hbefore' | hret
    · exact .before hl' hbefore' hbuilt' hinit
    · refine .gone hl' hret ?_ (.inr ?_) ?_
      · unfold SubSide.Built at hbuilt'
        rw [hret] at hbuilt'
        exact hbuilt'
      · rw [hinit]
        rfl
      · rw [hinit]
        rfl
  | measuring _ hother _ _ | ended _ hother _ _ _ _ | gone _ hother _ _ _ => cases hpc.symm.trans hother

/-- **A match** is seen by the measurement, which may still be at its match poll. -/
theorem SubAbstracts.matched {change : ℤ} (h : SubAbstracts s q)
    (hs : subEngineStep b T args s (s.matched now change) = some s') :
    ∃ q', subStep T args q (now, .matched change) = some q' ∧ SubAbstracts s' q' := by
  cases h with
  | measuring hq hpc hends hres =>
    rw [SubEngine.matched, hq] at hs
    exact SubAbstracts.loop hq hpc hends hs
  | before hl hbefore hbuilt hinit =>
    rw [SubEngine.matched, hl] at hs
    obtain ⟨hstep, hl', hres⟩ := subEngine_callback hl (by simp) hs
    simp only [subSetupStep, Option.ite_none_right_eq_some, Option.some.injEq] at hstep
    obtain ⟨-, hside⟩ := hstep
    refine ⟨_, subStep_matched (by rw [hinit]; exact SubPc.noConfusion) change,
      .before hl' (hside ▸ hbefore) (hside ▸ hbuilt.callback _) ?_⟩
    rw [hinit, ← hside, hres]
  | ended hl hpc hends hend hctx hres =>
    rw [SubEngine.matched, hl] at hs
    obtain ⟨hstep, hl', hres'⟩ := subEngine_callback hl (by simp) hs
    simp only [subSetupStep, Option.ite_none_right_eq_some, Option.some.injEq] at hstep
    obtain ⟨-, hside⟩ := hstep
    refine ⟨_, subStep_matched (by rw [hend]; exact SubPc.noConfusion) change,
      .ended hl' (hside ▸ hpc) (hside ▸ hends) hend ?_ (hres.trans hres'.symm)⟩
    rw [← hside, hctx]
  | gone hl hpc harmed hend hres =>
    rw [SubEngine.matched, hl] at hs
    obtain ⟨hstep, -, -⟩ := subEngine_callback hl (by simp) hs
    simp [subSetupStep, harmed] at hstep

/-- **A sample** is seen by the measurement. -/
theorem SubAbstracts.given {x : PerftestSample} (h : SubAbstracts s q)
    (hready : s.run.side.endpoint.ready = true)
    (hs : subEngineStep b T args s (s.given now x) = some s') :
    ∃ q', subStep T args q (now, .sample x) = some q' ∧ SubAbstracts s' q' := by
  cases h with
  | measuring hq hpc hends hres =>
    rw [SubEngine.given, hq] at hs
    exact SubAbstracts.loop hq hpc hends hs
  | before hl hbefore hbuilt hinit =>
    rw [SubEngine.given, hl] at hs
    obtain ⟨hstep, hl', hres⟩ := subEngine_callback hl (by simp) hs
    simp only [subSetupStep, Option.ite_none_right_eq_some, Option.some.injEq, hready, if_true] at hstep
    obtain ⟨-, hside⟩ := hstep
    refine ⟨_, subStep_sample (by rw [hinit]; exact SubPc.noConfusion) x,
      .before hl' (hside ▸ hbefore) (hside ▸ hbuilt.callback _) ?_⟩
    rw [hinit, ← hside, hres]
    rfl
  | ended hl hpc hends hend hctx hres =>
    rw [SubEngine.given, hl] at hs
    obtain ⟨hstep, hl', hres'⟩ := subEngine_callback hl (by simp) hs
    simp only [subSetupStep, Option.ite_none_right_eq_some, Option.some.injEq, hready, if_true] at hstep
    obtain ⟨-, hside⟩ := hstep
    refine ⟨_, subStep_sample (by rw [hend]; exact SubPc.noConfusion) x,
      .ended hl' (hside ▸ hpc) (hside ▸ hends) hend ?_ (hres.trans hres'.symm)⟩
    rw [← hside, hctx]
    rfl
  | gone hl hpc harmed hend hres =>
    rw [SubEngine.given, hl] at hs
    obtain ⟨hstep, -, -⟩ := subEngine_callback hl (by simp) hs
    simp [subSetupStep, harmed] at hstep

/-- A sample is given to a measurement on this or that side of its reset block. -/
theorem SubAbstracts.late {x : PerftestSample} (h : SubAbstracts s q)
    (hs : subEngineStep b T args s (s.given now x) = some s') : s.late = q.pc.late := by
  unfold SubEngine.late
  cases h with
  | measuring hq hpc hends hres => rw [hq]
  | before hl hbefore hbuilt hinit =>
    rw [hl, hinit]
    unfold SubSide.before at hbefore
    change (decide (s.run.side.pc = .shutdown) && s.run.side.pongW && s.run.side.pingR) = false
    by_cases hpc : s.run.side.pc = .shutdown
    · rw [hpc] at hbefore ⊢
      have hends : (s.run.side.pongW && s.run.side.pingR) = false := (Bool.not_eq_true' _).mp hbefore
      rw [decide_eq_true rfl, Bool.true_and]
      exact hends
    · rw [decide_eq_false hpc]
      rfl
  | ended hl hpc hends hend hctx hres =>
    rw [hl, hpc, hend]
    simpa [SubPc.late] using hends
  | gone hl hpc harmed hend hres =>
    rw [SubEngine.given, hl] at hs
    obtain ⟨hstep, -, -⟩ := subEngine_callback hl (by simp) hs
    simp [subSetupStep, harmed] at hstep

/-- The echo is a matter of the sample alone. -/
theorem SubEngine.echo_eq (T : TypeInterface) (s : SubEngine) (now : ℕ) (x : PerftestSample) (c : SubCtx) :
    s.echo T now x = (subOnSample T now x c).2 := by
  unfold SubEngine.echo
  rw [subOnSample_echo, subOnSample_echo]

end Subscriber

/-! ## Both -/

/-- Nothing is under way before the measurement of the publisher begins. -/
def Sys.Quiet (u : Sys) : Prop := u.pub.pc = .warmup → u.pings = [] ∧ u.pongs = []

/-- The system of the two measurements, at the same time and with the same samples under way. -/
structure ProcessAbstracts (D : Deployment) (s : Processes) (u : Sys) : Prop where
  clock : u.clock = s.clock
  pub : PubAbstracts D s.pub.1 u.pub
  sub : SubAbstracts s.sub.1 u.sub
  pings : u.pings.map Msg.sample = s.pings
  pongs : u.pongs.map Msg.sample = s.pongs
  writes : u.pub.writes = s.writes

/-- The sample the subscriber is given. -/
def Processes.given (D : Deployment) (s : Processes) : ProcessEvent → Option PerftestSample
  | .deliverPing i _ => (deliver D.net.ping s.pings i).map Prod.fst
  | _ => none

section

variable {D : Deployment} {s s' : Processes} {u u' : Sys} {e : ProcessEvent} {l : Label}

theorem quiet_step (h : u.Quiet) (hs : sysStep D.net D.type D.cfg D.args D.subArgs u l = some u') :
    u'.Quiet := by
  have hnil : ∀ {ch ch' : List Msg}, ch' ⊆ ch → ch = [] → ch' = [] := fun hsub hch =>
    List.subset_nil.mp (hch ▸ hsub)
  intro hpc
  cases sysStep_cases hs with
  | tick d => exact h hpc
  | pub ok p hp => cases pubMain_cases hp <;> cases hpc
  | sub q hq => exact h hpc
  | pubMatched change _ => exact h hpc
  | subMatched change _ => exact h hpc
  | deliverPing i echoed m rest hd _ _ =>
    have hm := mem_of_deliver hd
    rw [(h hpc).1] at hm
    cases hm
  | dropPing i rest hd => exact ⟨hnil (subset_of_drop hd) (h hpc).1, (h hpc).2⟩
  | deliverPong i m rest hd _ =>
    have hm := mem_of_deliver hd
    rw [(h hpc).2] at hm
    cases hm
  | dropPong i rest hd => exact ⟨(h hpc).1, hnil (subset_of_drop hd) (h hpc).2⟩

theorem Answer.quiet {x : Option PerftestSample}
    (h : Answer D.net D.type D.cfg D.args D.subArgs u x u') (hq : u.Quiet) : u'.Quiet := by
  cases h with
  | stays => exact hq
  | step l _ hs _ => exact quiet_step hq hs
  | given i echoed m rest _ _ hs => exact quiet_step hq hs

/-- The writes of a step come behind the writes so far. -/
theorem writes_main {T : TypeInterface} {cfg : Config} {args : InputArgs} {p p' : PubState} {now : ℕ}
    {ok : Bool} (h : pubMain T cfg args now ok p = some p') :
    p'.writes = p.writes ++ p'.writes.drop p.writes.length := by
  rcases pubMain_writes h with hw | ⟨x, hw, -⟩
  · rw [hw, List.drop_length, List.append_nil]
  · rw [hw, List.drop_left]

/-- **Every step of the processes is answered.** -/
theorem processes_step (h : ProcessAbstracts D s u) (hquiet : u.Quiet) (hs : processStep D s e = some s') :
    ∃ u', Answer D.net D.type D.cfg D.args D.subArgs u (s.given D e) u' ∧ ProcessAbstracts D s' u' := by
  obtain ⟨clock, p, q, pings, pongs, history⟩ := u
  obtain ⟨rfl, hpub, hsub, hpings, hpongs, hwrites⟩ := h
  dsimp only at hpub hsub hpings hpongs hwrites
  cases e with
  | tick d =>
    cases hs
    exact ⟨_, .step (.tick d) _ rfl fun _ => rfl, rfl, hpub, hsub, hpings, hpongs, hwrites⟩
  | pubInit calls =>
    obtain ⟨s₁, hs₁, rfl⟩ := Option.map_eq_some_iff.mp hs
    exact ⟨_, .stays, rfl, hpub.init (observed_eq_some.mp hs₁).1, hsub, hpings, hpongs, hwrites⟩
  | pub ok =>
    obtain ⟨s₁, hs₁, rfl⟩ := Option.map_eq_some_iff.mp hs
    rcases hpub.statement (observed_eq_some.mp hs₁).1 with ⟨hnone, hpub'⟩ | ⟨p', hp', hnew, hpub'⟩
    · refine ⟨_, .stays, rfl, hpub', hsub, ?_, hpongs, ?_⟩
      · rw [hnone]
        exact hpings.trans (List.append_nil _).symm
      · rw [hnone]
        exact hwrites.trans (List.append_nil _).symm
    · refine ⟨_, .step (.pub ok) _ (Option.map_eq_some_iff.mpr ⟨p', hp', rfl⟩) fun _ => rfl, rfl, hpub', hsub,
        ?_, hpongs, ?_⟩
      · rw [hnew, ← hpings]
        exact List.map_append.trans (congrArg _ (map_sample_messages _ _))
      · rw [hnew, ← hwrites]
        exact writes_main hp'
  | subInit calls =>
    obtain ⟨s₁, hs₁, rfl⟩ := Option.map_eq_some_iff.mp hs
    exact ⟨_, .stays, rfl, hpub, hsub.init (observed_eq_some.mp hs₁).1, hpings, hpongs, hwrites⟩
  | sub ok =>
    obtain ⟨s₁, hs₁, rfl⟩ := Option.map_eq_some_iff.mp hs
    rcases hsub.statement (observed_eq_some.mp hs₁).1 with hsub' | ⟨q', hq', hsub'⟩
    · exact ⟨_, .stays, rfl, hpub, hsub', hpings, hpongs, hwrites⟩
    · exact ⟨_, .step .sub _ (Option.map_eq_some_iff.mpr ⟨q', hq', rfl⟩) fun _ => rfl, rfl, hpub, hsub',
        hpings, hpongs, hwrites⟩
  | pubMatched change =>
    obtain ⟨s₁, hs₁, rfl⟩ := Option.map_eq_some_iff.mp hs
    rcases hpub.matched (observed_eq_some.mp hs₁).1 with hpub' | ⟨p', hp', hpub'⟩
    · exact ⟨_, .stays, rfl, hpub', hsub, hpings, hpongs, hwrites⟩
    · refine ⟨_, .step (.pubMatched change) _ (Option.map_eq_some_iff.mpr ⟨p', hp', rfl⟩) fun _ => rfl, rfl,
        hpub', hsub, hpings, hpongs, ?_⟩
      exact (pubStep_callback (by simp) hp').1.trans hwrites
  | subMatched change =>
    obtain ⟨s₁, hs₁, rfl⟩ := Option.map_eq_some_iff.mp hs
    obtain ⟨q', hq', hsub'⟩ := hsub.matched (observed_eq_some.mp hs₁).1
    exact ⟨_, .step (.subMatched change) _ (Option.map_eq_some_iff.mpr ⟨q', hq', rfl⟩) fun _ => rfl, rfl, hpub,
      hsub', hpings, hpongs, hwrites⟩
  | deliverPing i echoed =>
    obtain ⟨⟨x, rest⟩, hd, hs⟩ := Option.bind_eq_some_iff.mp hs
    simp only [Option.ite_none_left_eq_some, Option.ite_none_right_eq_some, SubEngine.takes,
      Bool.and_eq_true] at hs
    obtain ⟨hecho, ⟨hready, -⟩, hs⟩ := hs
    obtain ⟨s₁, hs₁, rfl⟩ := Option.map_eq_some_iff.mp hs
    obtain ⟨q', hq', hsub'⟩ := hsub.given hready (observed_eq_some.mp hs₁).1
    have hgiven : s.given D (.deliverPing i echoed) = some x := by
      simp only [Processes.given, hd, Option.map_some]
    rw [← hpings] at hd
    obtain ⟨m, ms, hdel, rfl, rfl⟩ := exists_of_deliver_map hd
    rw [hgiven]
    refine ⟨⟨s.clock, p, q', ms, pongs ++ echoOf m (subOnSample D.type s.clock m.sample q.ctx).2 echoed,
      history.ping m q.ctx q'.ctx⟩, .given i echoed m ms _ hdel ?_, rfl, hpub, hsub', rfl, ?_, hwrites⟩
    · refine Option.bind_eq_some_iff.mpr ⟨(m, ms), hdel, ?_⟩
      exact (if_neg hecho).trans (Option.map_eq_some_iff.mpr ⟨q', hq', rfl⟩)
    · rw [List.map_append, hpongs, SubEngine.echo_eq D.type _ _ _ q.ctx]
      unfold echoOf
      cases echoed with
      | true => cases (subOnSample D.type s.clock m.sample q.ctx).2 <;> rfl
      | false => rfl
  | dropPing i =>
    obtain ⟨ch, hch, rfl⟩ := Option.map_eq_some_iff.mp hs
    rw [← hpings] at hch
    obtain ⟨rest, hrest, rfl⟩ := exists_of_drop_map hch
    exact ⟨_, .step (.dropPing i) _ (Option.map_eq_some_iff.mpr ⟨rest, hrest, rfl⟩) fun _ => rfl, rfl, hpub,
      hsub, rfl, hpongs, hwrites⟩
  | deliverPong i =>
    obtain ⟨⟨x, rest⟩, hd, hs⟩ := Option.bind_eq_some_iff.mp hs
    simp only [Option.ite_none_right_eq_some] at hs
    obtain ⟨hready, hs⟩ := hs
    obtain ⟨s₁, hs₁, rfl⟩ := Option.map_eq_some_iff.mp hs
    rw [← hpongs] at hd
    obtain ⟨m, ms, hdel, rfl, rfl⟩ := exists_of_deliver_map hd
    have hbegun : p.pc ≠ .warmup := fun hpc => by
      have hm := mem_of_deliver hdel
      have hnil : pongs = [] := (hquiet hpc).2
      rw [hnil] at hm
      cases hm
    obtain ⟨p', hp', hpub'⟩ := hpub.given hbegun hready (observed_eq_some.mp hs₁).1
    refine ⟨⟨s.clock, p', q, pings, ms, history.pong s.clock m⟩, .step (.deliverPong i) _ ?_ fun _ => rfl, rfl,
      hpub', hsub, hpings, rfl, (pubStep_callback (by simp) hp').1.trans hwrites⟩
    exact Option.bind_eq_some_iff.mpr ⟨(m, ms), hdel, Option.map_eq_some_iff.mpr ⟨p', hp', rfl⟩⟩
  | dropPong i =>
    obtain ⟨ch, hch, rfl⟩ := Option.map_eq_some_iff.mp hs
    rw [← hpongs] at hch
    obtain ⟨rest, hrest, rfl⟩ := exists_of_drop_map hch
    exact ⟨_, .step (.dropPong i) _ (Option.map_eq_some_iff.mpr ⟨rest, hrest, rfl⟩) fun _ => rfl, rfl, hpub,
      hsub, hpings, rfl, hwrites⟩

theorem processes_init (D : Deployment) (mw subMw : MicroMW) (results subResults : Option Results)
    (clock : ℕ) : ProcessAbstracts D (processesInit mw subMw results subResults clock)
      (sysInit D.type D.args D.history 0 results subResults clock) where
  clock := rfl
  pub := .early rfl rfl ⟨0, rfl⟩ trivial rfl
  sub := .before rfl rfl subBuilt_init rfl
  pings := rfl
  pongs := rfl
  writes := rfl

/-- The system follows the two processes. -/
theorem processes_follow : Follows (processStep D) (sysStep D.net D.type D.cfg D.args D.subArgs)
    fun s u => ProcessAbstracts D s u ∧ u.Quiet := by
  intro s u e s' h hs
  obtain ⟨u', hanswer, h'⟩ := processes_step h.1 h.2 hs
  exact hanswer.reaches ⟨h', hanswer.quiet h.2⟩

/-- **Both processes refine the system of their measurements.** However the two programs, their callbacks and
the topics take turns, whatever creation call fails, whenever one of them is started or returns: some run of
the system leads to the same time, the same samples under way, the same writes and, in each program, the same
measurement and results. -/
theorem processes_refine {mw subMw : MicroMW} {results subResults : Option Results} {clock : ℕ}
    {es : List ProcessEvent}
    (hrun : exec (processStep D) (processesInit mw subMw results subResults clock) es = some s) :
    ∃ ls u, exec (sysStep D.net D.type D.cfg D.args D.subArgs)
      (sysInit D.type D.args D.history 0 results subResults clock) ls = some u ∧ ProcessAbstracts D s u :=
  (processes_follow.reaches ⟨processes_init D mw subMw results subResults clock, fun _ => ⟨rfl, rfl⟩⟩ hrun).mono
    fun _ h => h.1

/-! ## The results -/

/-- The observer of both processes. -/
def inOrderGiven (D : Deployment) (s : Processes) (ds : List (ℕ × PerftestSample)) (e : ProcessEvent) :
    Option (List (ℕ × PerftestSample)) :=
  watchGiven s.sub.1.late s.clock ds (s.given D e)

end

/-! ## A run -/

/-- Both sides with their defaults. -/
def plainDeployment : Deployment :=
  ⟨reliableNet, sequenceType, noBurst, plainBuild, plainBuild, publisherDefaults, subscriberDefaults, true⟩

def plainStart : Processes :=
  processesInit freshProcess freshProcess (some (oneEntry .zero)) (some (oneEntry .zero)) 1000000

/-- Both set up, in so many statements, and match; three turns of the publisher, the second write fails; the
subscriber gets two data samples and the `FINALIZATION`, captures and returns, and so does the publisher once
the echo is back. -/
def oneTest (pubSetup subSetup : ℕ) : List ProcessEvent :=
  [[.pubInit fun _ => true, .subInit fun _ => true], List.replicate pubSetup (.pub true),
    List.replicate subSetup (.sub true), [.pubMatched 1, .subMatched 1], List.replicate 4 (.pub true),
    List.replicate 3 (.sub true), List.replicate 12 (.pub true), [.pub false], List.replicate 7 (.pub true),
    [.tick 100000000], List.replicate 9 (.pub true), List.replicate 3 (.deliverPing 0 true),
    List.replicate 3 (.sub true), [.deliverPong 0], List.replicate 7 (.pub true)].flatten

def plainTest : List ProcessEvent := oneTest 14 12

theorem exec_plainTest : ∃ s ds,
    exec (observed (processStep plainDeployment) (inOrderGiven plainDeployment)) (plainStart, []) plainTest =
      some (s, ds) ∧
    s.pub.1.run.side.pc = .returned ∧ s.sub.1.run.side.pc = .returned ∧ s.sub.2 = some .ok ∧
    (loopWrites s.writes).map Prod.snd = [true, false, true] := by
  have hend : (exec (observed (processStep plainDeployment) (inOrderGiven plainDeployment)) (plainStart, [])
      plainTest).map (fun q => (q.1.pub.1.run.side.pc, q.1.sub.1.run.side.pc, q.1.sub.2,
        (loopWrites q.1.writes).map Prod.snd)) =
          some (.returned, .returned, some .ok, [true, false, true]) := by
    decide +kernel
  obtain ⟨⟨s, ds⟩, hs, heq⟩ := Option.map_eq_some_iff.mp hend
  simp only [Prod.mk.injEq] at heq
  exact ⟨s, ds, hs, heq⟩

theorem processes_refine_plain : ∃ s, exec (processStep plainDeployment) plainStart plainTest = some s ∧
    s.sub.2 = some .ok ∧
    ∃ ls u, exec (sysStep reliableNet sequenceType noBurst publisherDefaults subscriberDefaults)
      (sysInit sequenceType publisherDefaults plainDeployment.history 0 (some (oneEntry .zero))
        (some (oneEntry .zero)) 1000000) ls = some u ∧ ProcessAbstracts plainDeployment s u := by
  obtain ⟨s, ds, hs, -, -, hok, -⟩ := exec_plainTest
  exact ⟨s, exec_observed_fst hs, hok, processes_refine (exec_observed_fst hs)⟩

end PerftestLite
