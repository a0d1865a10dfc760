import PerftestLite.Core.Publisher
import PerftestLite.Lib.Ledger
import PerftestLite.Lifecycle.Init
import PerftestLite.Lifecycle.Setup

/-!
# What the engines release

`perftest_lite_publisher` and `perftest_lite_subscriber` from `micro_init` to the return, with the
measurement in between and every call with either outcome, and a ledger of what they acquire and release.

* `pubRunStep`, `subRunStep`: the engines with the singleton they share and the ledger;
* `PubSide.owns`, `SubSide.owns`: what is held at each statement;
* `PubRun.Sound`, `SubRun.Sound`: the ledger at each statement;
* `exit_releases_iff`: the runs that release what they acquired.
-/

set_option autoImplicit false

namespace PerftestLite

open Machine Ledger

/-- What the engines acquire. -/
inductive Resource
  | participant
  | semaphore
  | history
  | sample
  | log
  deriving DecidableEq, Repr

/-! ## The participant -/

section Participant

variable (b : Build) (calls : InitCall → Bool)

/-- One of the calls fails that `micro_init` makes once it has the participant. -/
def lateFailure : Bool :=
  (b.dpse && !calls .assertRemoteParticipant) || !calls .registerType ||
    !calls .createPingTopic || !calls .createPongTopic || !calls .createPublisher ||
    !calls .createSubscriber

/-- What `micro_init` acquires. -/
def initMoves (transportId : Option String) (mw : MicroMW) : List (Move Resource) :=
  if (microInitParticipant b calls transportId mw).1 then [.acquire .participant] else []

/-- What `micro_shutdown` releases. -/
def shutdownMoves (mw : MicroMW) : List (Move Resource) :=
  if mw.participant then [.release .participant] else []

variable {b calls} {id : Option String} {mw : MicroMW}

theorem microInitEntities_eq : microInitEntities b calls mw = (!lateFailure b calls, mw) := by
  have hchecks : microInitEntities b calls mw = _ := Attempt.all_checks
    [fun _ => !b.dpse || calls .assertRemoteParticipant, fun _ => calls .registerType,
      fun _ => calls .createPingTopic && calls .createPongTopic,
      fun _ => calls .createPublisher && calls .createSubscriber] mw
  rw [hchecks]
  congr 1
  simp [lateFailure, Bool.and_assoc]

/-- `micro_init` succeeds if it gets the participant and no later call fails. -/
theorem microInit_eq : microInit b calls id mw =
    ((microInitParticipant b calls id mw).1 && !lateFailure b calls,
      (microInitParticipant b calls id mw).2) := by
  unfold microInit
  cases h : (microInitParticipant b calls id mw).1 with
  | false =>
    rw [Attempt.all_cons_false h]
    rfl
  | true =>
    rw [Attempt.all_cons_true h, Bool.true_and]
    cases hl : lateFailure b calls with
    | true => rw [Attempt.all_cons_false (by rw [microInitEntities_eq, hl]; rfl), microInitEntities_eq]; rfl
    | false => rw [Attempt.all_cons_true (by rw [microInitEntities_eq, hl]; rfl), microInitEntities_eq]; rfl

theorem microInitParticipant_ensures :
    (microInitParticipant b calls id).Ensures fun mw => mw.participant = true := by
  have hlast : (createParticipant calls).Ensures fun mw => mw.participant = true := fun _ h => h
  exact hlast.last.cons.cons.cons.cons.cons.cons.cons.cons.cons

end Participant

/-! ## The publisher -/

/-- The publisher with the singleton, the measurement while it runs, and the ledger. -/
structure PubRun where
  side : PubSide
  mw : MicroMW
  loop : Option PubState
  ledger : List (Move Resource)

def pubRunInit (mw : MicroMW) : PubRun := ⟨pubSideInit, mw, none, []⟩

/-- `mw->init` with the outcomes of its calls, a statement or callback of the setup and the teardown,
a statement or callback of the measurement. -/
inductive PubRunEvent
  | init (calls : InitCall → Bool)
  | setup (e : SetupEvent)
  | loop (e : ℕ × PubAction)

/-- `shutdown` comes next. -/
@[simp] def PubSetup.isShutdown : PubSetup → Bool
  | .shutdown _ => true
  | _ => false

/-- What a statement of `perftest_lite_publisher` other than `mw->init` acquires or releases. -/
def pubMoves (cfg : Config) (args : InputArgs) (mw : MicroMW) (s : PubSide) (ok : Bool) :
    List (Move Resource) :=
  match s.pc with
  | .semaphoreNew => if ok then [.acquire .semaphore] else []
  | .allocHistory => if decide (cfg.latencyHistorySize > 0) && ok then [.acquire .history] else []
  | .createSample => if ok then [.acquire .sample] else []
  | .openLog => if args.latencyLogFile.isSome && ok then [.acquire .log] else []
  | .destroySample => [.release .sample]
  | .shutdown _ => shutdownMoves mw
  | .closeLog => if s.ctx.latencyLog.isSome then [.release .log] else []
  | .semaphoreDelete _ => [.release .semaphore]
  | .freeHistory => if s.ctx.latHistory.isSome then [.release .history] else []
  | _ => []

/-- One step of the publisher. The measurement takes over at `run` and ends with the finalization
loop; the exits without it go from the failing call to `shutdown`. -/
def pubRunStep (b : Build) (T : TypeInterface) (cfg : Config) (args : InputArgs)
    (results : Option Results) (s : PubRun) : PubRunEvent → Option PubRun
  | .init calls =>
    if s.side.pc = .init then
      let r := microInit b calls args.transportId s.mw
      (perftestLitePublisher b.dpse cfg args r.1 s.side).map fun side => { s with
        side := side
        mw := r.2
        ledger := s.ledger ++ initMoves b calls args.transportId s.mw }
    else none
  | .setup (.main ok) =>
    if s.side.pc = .init ∨ s.loop.isSome then none
    else if s.side.pc = .run then
      some { s with loop := some { pubInit T args true 1 results with ctx := s.side.ctx } }
    else (perftestLitePublisher b.dpse cfg args ok s.side).map fun side => { s with
      side := side
      mw := if s.side.pc.isShutdown then microShutdown s.mw else s.mw
      ledger := s.ledger ++ pubMoves cfg args s.mw s.side ok }
  | .setup e =>
    if s.loop.isSome then none
    else (pubSetupStep b.dpse cfg args s.side e).map fun side => { s with side := side }
  | .loop e =>
    s.loop.bind fun p => (pubStep T cfg args p e).map fun p' =>
      if p'.pc = .shutdown then
        { s with loop := none, side := { s.side with pc := .destroySample, ctx := p'.ctx } }
      else { s with loop := some p' }

/-! ## The subscriber -/

/-- The subscriber with the singleton and the ledger. -/
structure SubRun where
  side : SubSide
  mw : MicroMW
  ledger : List (Move Resource)

def subRunInit (mw : MicroMW) : SubRun := ⟨subSideInit, mw, []⟩

/-- `mw->init` with the outcomes of its calls, or any other statement or callback. -/
inductive SubRunEvent
  | init (calls : InitCall → Bool)
  | setup (e : SetupEvent)

/-- One step of the subscriber. -/
def subRunStep (b : Build) (T : TypeInterface) (args : InputArgs) (s : SubRun) :
    SubRunEvent → Option SubRun
  | .init calls =>
    if s.side.pc = .init then
      let r := microInit b calls args.transportId s.mw
      (perftestLiteSubscriber b.dpse r.1 s.side).map fun side => { s with
        side := side
        mw := r.2
        ledger := s.ledger ++ initMoves b calls args.transportId s.mw }
    else none
  | .setup (.main ok) =>
    if s.side.pc = .init then none
    else if s.side.pc = .shutdown then
      (perftestLiteSubscriber b.dpse ok s.side).map fun side => { s with
        side := side
        mw := microShutdown s.mw
        ledger := s.ledger ++ shutdownMoves s.mw }
    else (perftestLiteSubscriber b.dpse ok s.side).map fun side => { s with side := side }
  | .setup e => (subSetupStep b.dpse T s.side e).map fun side => { s with side := side }

/-! ## What is to be shown of an exit -/

/-- Everything acquired was released as often, nothing was released that was not held, and the
semaphore was deleted after the participant. -/
structure Released (l : List (Move Resource)) : Prop where
  held : (replay l).isSome
  once : ∀ r, l.count (.release r) = l.count (.acquire r)
  order : Before (.release .participant) (.release .semaphore) l

/-- `micro_init` fails although it has created the participant, or `fopen` fails. -/
def PubRun.Leaks (b : Build) (args : InputArgs) (s : PubRun) : PubRunEvent → Prop
  | .init calls =>
    (microInitParticipant b calls args.transportId s.mw).1 = true ∧ lateFailure b calls = true
  | .setup (.main false) => s.side.pc = .openLog ∧ args.latencyLogFile.isSome
  | _ => False

/-- `micro_init` fails although it has created the participant. -/
def SubRun.Leaks (b : Build) (args : InputArgs) (s : SubRun) : SubRunEvent → Prop
  | .init calls =>
    (microInitParticipant b calls args.transportId s.mw).1 = true ∧ lateFailure b calls = true
  | _ => False

/-! ## What is held -/

/-- `mw->init` has returned zero, `shutdown` has not run. -/
@[simp] def PubSetup.hasParticipant : PubSetup → Bool
  | .init | .closeLog | .semaphoreDelete _ | .freeHistory | .returned => false
  | _ => true

/-- `semaphore_new` has succeeded, `semaphore_delete` has not run. -/
@[simp] def PubSetup.keepsSemaphore : PubSetup → Bool
  | .closeLog | .semaphoreDelete _ => true
  | pc => pc.hasSemaphore

/-- The history was allocated, if it could be, and not freed. -/
@[simp] def PubSetup.keepsHistory : PubSetup → Bool
  | .createSample | .waitMatch | .openLog | .run | .destroySample | .closeLog | .semaphoreDelete _
  | .freeHistory => true
  | .shutdown exit => exit.hasSemaphore
  | _ => false

/-- The sample was created and not destroyed; the exit for the log file never destroys it. -/
@[simp] def PubSetup.hasSample : PubSetup → Bool
  | .waitMatch | .openLog | .run | .destroySample | .shutdown .log | .semaphoreDelete .log => true
  | _ => false

/-- The log file was opened, if there is to be one, and not closed. -/
@[simp] def PubSetup.keepsLog : PubSetup → Bool
  | .run | .destroySample | .shutdown .finished | .closeLog => true
  | _ => false

/-- The exit for the log file. -/
@[simp] def PubSetup.logExit : PubSetup → Bool
  | .shutdown .log | .semaphoreDelete .log => true
  | _ => false

/-- `fopen` has not been reached. -/
@[simp] def PubSetup.beforeLog : PubSetup → Bool
  | .run | .destroySample | .shutdown _ | .closeLog | .semaphoreDelete _ | .freeHistory
  | .returned => false
  | _ => true

/-- `shutdown` has run and the semaphore is still there. -/
@[simp] def PubSetup.afterShutdown : PubSetup → Bool
  | .closeLog | .semaphoreDelete _ => true
  | _ => false

/-- What the publisher holds before its next statement. -/
def PubSide.owns (s : PubSide) : Resource → Bool
  | .participant => s.pc.hasParticipant
  | .semaphore => s.pc.keepsSemaphore
  | .history => s.pc.keepsHistory && s.ctx.latHistory.isSome
  | .sample => s.pc.hasSample
  | .log => s.pc.keepsLog && s.ctx.latencyLog.isSome

/-- What the subscriber holds before its next statement. -/
def SubSide.owns (s : SubSide) : Resource → Bool
  | .participant => decide (s.pc ≠ .init ∧ s.pc ≠ .returned)
  | _ => false

section Statements

variable {dpse ok : Bool} {cfg : Config} {args : InputArgs} {mw : MicroMW} {l : List (Move Resource)}

/-- With the participant there, `micro_shutdown` releases it. -/
theorem replay_shutdown {held held' : Resource → Bool} (hmw : mw.participant = true)
    (hl : replay l = some held) (hp : held .participant = true)
    (h' : ∀ r, held' r = if r = .participant then false else held r) :
    replay (l ++ shutdownMoves mw) = some held' := by
  unfold shutdownMoves
  rw [if_pos hmw]
  exact replay_release hl hp h'

/-- **One statement of the publisher** keeps the ledger and what is held in step, up to the return. -/
theorem pubStatement_running {s s' : PubSide} (hs : perftestLitePublisher dpse cfg args ok s = some s')
    (hinit : s.pc ≠ .init) (hl : replay l = some s.owns)
    (hmw : s.pc.hasParticipant = true → mw.participant = true)
    (hlog : s.pc.beforeLog = true → s.ctx.latencyLog = none) (hret : s'.pc ≠ .returned) :
    replay (l ++ pubMoves cfg args mw s ok) = some s'.owns := by
  obtain ⟨pc, e, ctx, pingW, pongR⟩ := s
  cases pc with
  | init => exact absurd rfl hinit
  | createWriter | run =>
    cases hs
    exact replay_idle hl fun r => by cases r <;> rfl
  | createReader pc =>
    rcases pubCreateReader_cases hs with ⟨reader, rfl, rfl⟩ | ⟨pc', e', -, rfl⟩
    · exact replay_idle hl fun r => by cases r <;> rfl
    · exact replay_idle hl fun r => by cases r <;> rfl
  | checkEndpoints =>
    cases hs
    refine replay_idle hl fun r => ?_
    cases pingW && pongR <;> cases r <;> rfl
  | semaphoreNew =>
    cases ok with
    | true =>
      cases hs
      exact replay_acquire hl rfl fun r => by cases r <;> rfl
    | false =>
      cases hs
      exact replay_idle hl fun r => by cases r <;> rfl
  | allocHistory =>
    cases hs
    unfold pubMoves
    dsimp only
    cases decide (cfg.latencyHistorySize > 0) && ok with
    | true => exact replay_acquire hl rfl fun r => by cases r <;> rfl
    | false => exact replay_idle hl fun r => by cases r <;> rfl
  | createSample =>
    cases hs
    cases ok with
    | true => exact replay_acquire hl rfl fun r => by cases r <;> rfl
    | false => exact replay_idle hl fun r => by cases r <;> rfl
  | waitMatch =>
    simp only [perftestLitePublisher] at hs
    split_ifs at hs <;> (cases hs; exact replay_idle hl fun r => by cases r <;> rfl)
  | openLog =>
    have hnone : ctx.latencyLog = none := hlog rfl
    simp only [perftestLitePublisher] at hs
    unfold pubMoves
    dsimp only
    cases hfile : args.latencyLogFile.isSome with
    | false =>
      rw [hfile] at hs
      cases hs
      refine replay_idle hl fun r => ?_
      cases r with
      | log => exact congrArg Option.isSome hnone
      | participant | semaphore | history | sample => rfl
    | true =>
      rw [hfile] at hs
      cases ok with
      | true =>
        cases hs
        exact replay_acquire hl rfl fun r => by cases r <;> rfl
      | false =>
        cases hs
        exact replay_idle hl fun r => by cases r <;> rfl
  | destroySample =>
    cases hs
    exact replay_release hl rfl fun r => by cases r <;> rfl
  | shutdown exit =>
    cases hs
    have hp : mw.participant = true := hmw rfl
    cases exit with
    | endpoints | semaphore => exact absurd rfl hret
    | sample | log | finished => exact replay_shutdown hp hl rfl fun r => by cases r <;> rfl
  | closeLog =>
    cases hs
    unfold pubMoves
    dsimp only
    cases hopen : ctx.latencyLog.isSome with
    | true => exact replay_release hl hopen fun r => by cases r <;> rfl
    | false =>
      refine replay_idle hl fun r => ?_
      cases r with
      | log => exact hopen.symm
      | participant | semaphore | history | sample => rfl
  | semaphoreDelete exit =>
    cases hs
    cases exit with
    | log => exact absurd rfl hret
    | endpoints | semaphore | sample | finished =>
      exact replay_release hl rfl fun r => by cases r <;> rfl
  | freeHistory =>
    cases hs
    exact absurd rfl hret
  | returned => cases hs

/-- **The last statement of the publisher** leaves nothing held, except on the exit for the log file. -/
theorem pubStatement_returned {s s' : PubSide} (hs : perftestLitePublisher dpse cfg args ok s = some s')
    (hinit : s.pc ≠ .init) (hl : replay l = some s.owns)
    (hmw : s.pc.hasParticipant = true → mw.participant = true) (hret : s'.pc = .returned) :
    ∃ held, replay (l ++ pubMoves cfg args mw s ok) = some held ∧
      (s.pc.logExit = false ↔ ∀ r, held r = false) := by
  obtain ⟨pc, e, ctx, pingW, pongR⟩ := s
  cases pc with
  | init => exact absurd rfl hinit
  | createWriter | run | allocHistory | destroySample | closeLog =>
    cases hs
    cases hret
  | createReader pc =>
    rcases pubCreateReader_cases hs with ⟨reader, rfl, rfl⟩ | ⟨pc', e', -, rfl⟩
    · cases hret
    · cases hret
  | checkEndpoints =>
    cases hs
    cases h : pingW && pongR <;> simp [h] at hret
  | semaphoreNew | createSample =>
    cases ok <;> (cases hs; cases hret)
  | waitMatch | openLog =>
    simp only [perftestLitePublisher] at hs
    split_ifs at hs <;> (cases hs; cases hret)
  | shutdown exit =>
    cases hs
    have hp : mw.participant = true := hmw rfl
    cases exit with
    | endpoints | semaphore =>
      refine ⟨fun _ => false, replay_shutdown hp hl rfl fun r => ?_, fun _ _ => rfl, fun _ => rfl⟩
      cases r <;> rfl
    | sample | log | finished => cases hret
  | semaphoreDelete exit =>
    cases hs
    cases exit with
    | log =>
      refine ⟨_, replay_release hl rfl fun _ => rfl, ?_⟩
      exact ⟨fun hexit => absurd hexit (by simp), fun h => h .sample⟩
    | endpoints | semaphore | sample | finished => cases hret
  | freeHistory =>
    cases hs
    refine ⟨fun _ => false, ?_, fun _ _ => rfl, fun _ => rfl⟩
    unfold pubMoves
    dsimp only
    cases hopen : ctx.latHistory.isSome with
    | true => exact replay_release hl hopen fun r => by cases r <;> rfl
    | false =>
      refine replay_idle hl fun r => ?_
      cases r with
      | history => exact hopen.symm
      | participant | semaphore | sample | log => rfl
  | returned => cases hs

end Statements

/-- Where one statement of the publisher other than `mw->init` leads. -/
structure PubFlow (args : InputArgs) (ok : Bool) (s s' : PubSide) : Prop where
  participant : s'.pc.hasParticipant = true → s.pc.hasParticipant = true ∧ s.pc.isShutdown = false
  log : s'.pc.beforeLog = true → s.pc.beforeLog = true ∧ s'.ctx.latencyLog = s.ctx.latencyLog
  shutdown : s'.pc.afterShutdown = true → s.pc.afterShutdown = true ∨ s.pc.isShutdown = true
  failed : s.pc = .openLog → ok = false → args.latencyLogFile.isSome = true → s'.pc = .shutdown .log
  exit : s'.pc.logExit = true →
    s.pc.logExit = true ∨ s.pc = .openLog ∧ args.latencyLogFile.isSome = true ∧ ok = false
  stays : s.pc.logExit = true → s'.pc = .returned ∨ s'.pc.logExit = true

theorem pubStatement_flow {dpse ok : Bool} {cfg : Config} {args : InputArgs} {s s' : PubSide}
    (hs : perftestLitePublisher dpse cfg args ok s = some s') (hinit : s.pc ≠ .init) :
    PubFlow args ok s s' := by
  obtain ⟨pc, e, ctx, pingW, pongR⟩ := s
  cases pc with
  | init => exact absurd rfl hinit
  | createWriter | run | allocHistory | destroySample | closeLog | freeHistory =>
    cases hs
    constructor <;> simp
  | createReader pc =>
    rcases pubCreateReader_cases hs with ⟨reader, rfl, rfl⟩ | ⟨pc', e', -, rfl⟩
    · constructor <;> simp
    · constructor <;> simp
  | checkEndpoints =>
    cases hs
    cases pingW && pongR <;> (constructor <;> simp)
  | semaphoreNew | createSample =>
    cases ok <;> (cases hs; constructor <;> simp)
  | waitMatch =>
    simp only [perftestLitePublisher] at hs
    split_ifs at hs <;> (cases hs; constructor <;> simp)
  | openLog =>
    simp only [perftestLitePublisher] at hs
    split_ifs at hs with hfile hok
    · cases hs
      constructor <;> simp [hok]
    · cases hs
      constructor <;> simp [hfile, hok]
    · cases hs
      constructor <;> simp [hfile]
  | shutdown exit =>
    cases hs
    cases exit <;> (constructor <;> simp)
  | semaphoreDelete exit =>
    cases hs
    cases exit <;> (constructor <;> simp)
  | returned => cases hs

/-! ## The measurement keeps the buffers -/

/-- The same pointers are null. -/
def PubCtx.SameBuffers (c c' : PubCtx) : Prop :=
  c'.latHistory.isSome = c.latHistory.isSome ∧ c'.latencyLog.isSome = c.latencyLog.isSome

section Buffers

variable {T : TypeInterface} {cfg : Config} {args : InputArgs}

theorem PubCtx.SameBuffers.trans {c c' c'' : PubCtx} (h : c.SameBuffers c') (h' : c'.SameBuffers c'') :
    c.SameBuffers c'' := ⟨h'.1.trans h.1, h'.2.trans h.2⟩

theorem pubOnPongSample_sameBuffers (now : ℕ) (x : PerftestSample) (c : PubCtx) :
    c.SameBuffers (pubOnPongSample cfg now x c) := by
  by_cases hx : x.isData = true
  · rw [pubOnPongSample_data cfg now hx]
    exact ⟨Option.isSome_map, Option.isSome_map⟩
  · obtain ⟨b, hb⟩ := pubOnPongSample_other cfg now hx c
    rw [hb]
    exact ⟨rfl, rfl⟩

theorem pubOnReaderMatched_sameBuffers (change : ℤ) (c : PubCtx) :
    c.SameBuffers (pubOnReaderMatched change c) := by
  unfold pubOnReaderMatched
  split_ifs <;> exact ⟨rfl, rfl⟩

/-- **No step of the measurement** allocates, frees, opens or closes anything. -/
theorem pubStep_sameBuffers {p p' : PubState} {e : ℕ × PubAction} (hs : pubStep T cfg args p e = some p') :
    p.ctx.SameBuffers p'.ctx := by
  obtain ⟨now, act⟩ := e
  cases act with
  | main ok =>
    cases pubMain_cases hs with
    | reset => exact ⟨Option.isSome_map, rfl⟩
    | finish f | finishEnd f => exact ⟨FinishPc.isSome_sorted _ f, rfl⟩
    | _ => exact ⟨rfl, rfl⟩
  | pong x =>
    simp only [pubStep, Option.ite_none_left_eq_some, Option.some.injEq] at hs
    rw [← hs.2]
    exact pubOnPongSample_sameBuffers now x p.ctx
  | matched change =>
    simp only [pubStep, Option.ite_none_left_eq_some, Option.some.injEq] at hs
    rw [← hs.2]
    exact pubOnReaderMatched_sameBuffers change p.ctx

/-- A callback of the setup neither. -/
theorem pubCallback_sameBuffers {dpse : Bool} {s s' : PubSide} {e : SetupEvent}
    (he : ∀ ok, e ≠ .main ok) (hs : pubSetupStep dpse cfg args s e = some s') :
    ∃ c, s.ctx.SameBuffers c ∧ s' = { s with ctx := c } := by
  cases e with
  | main ok => exact absurd rfl (he ok)
  | data now x =>
    simp only [pubSetupStep, Option.ite_none_right_eq_some, Option.some.injEq] at hs
    refine ⟨_, ?_, hs.2.symm⟩
    split_ifs
    · cases x with
      | none => exact ⟨rfl, rfl⟩
      | some y => exact pubOnPongSample_sameBuffers now y s.ctx
    · exact ⟨rfl, rfl⟩
  | matched change =>
    simp only [pubSetupStep, Option.ite_none_right_eq_some, Option.some.injEq] at hs
    exact ⟨_, pubOnReaderMatched_sameBuffers change s.ctx, hs.2.symm⟩

theorem PubSide.owns_sameBuffers {s : PubSide} {c : PubCtx} (h : s.ctx.SameBuffers c) :
    PubSide.owns { s with ctx := c } = s.owns := by
  funext r
  cases r with
  | history => exact congrArg (s.pc.keepsHistory && ·) h.1
  | log => exact congrArg (s.pc.keepsLog && ·) h.2
  | participant | semaphore | sample => rfl

end Buffers

/-! ## The ledger at each statement -/

/-- What the ledger of a publisher says, where `clean` says that nothing leaked so far. -/
structure PubRun.Sound (clean : Prop) (s : PubRun) : Prop where
  running : s.side.pc ≠ .returned →
    replay s.ledger = some s.side.owns ∧ (clean ↔ ¬ s.side.pc.logExit = true)
  returned : s.side.pc = .returned →
    ∃ held, replay s.ledger = some held ∧ (clean ↔ ∀ r, held r = false)
  participant : s.side.pc.hasParticipant = true → s.mw.participant = true
  log : s.side.pc.beforeLog = true → s.side.ctx.latencyLog = none
  order : Before (.release .participant) (.release .semaphore) s.ledger
  deleted : s.side.pc.afterShutdown = true → .release .participant ∈ s.ledger
  loop : ∀ p ∈ s.loop, s.side.pc = .run ∧ s.side.ctx.SameBuffers p.ctx

section Ledgers

variable {b : Build} {T : TypeInterface} {cfg : Config} {args : InputArgs} {results : Option Results}
variable {clean : Prop} {calls : InitCall → Bool} {ok : Bool} {id : Option String} {mw : MicroMW}
variable {l : List (Move Resource)}

/-- `mw->init` from a ledger with nothing held. -/
theorem replay_init (hl : replay l = some fun _ => false) :
    replay (l ++ initMoves b calls id mw) =
      some fun r => decide (r = .participant) && (microInitParticipant b calls id mw).1 := by
  unfold initMoves
  cases h : (microInitParticipant b calls id mw).1 with
  | true => exact replay_acquire hl rfl fun r => by cases r <;> rfl
  | false => exact replay_idle hl fun r => Bool.and_false _

theorem initMoves_order {a : Move Resource} (h : Before a (.release .semaphore) l) :
    Before a (.release .semaphore) (l ++ initMoves b calls id mw) := by
  unfold initMoves
  split_ifs
  · exact h.snoc (by simp)
  · rwa [List.append_nil]

/-- The semaphore goes after the participant. -/
theorem pubMoves_order {s : PubSide} (h : Before (.release .participant) (.release .semaphore) l)
    (hdel : s.pc.afterShutdown = true → .release .participant ∈ l) :
    Before (.release .participant) (.release .semaphore) (l ++ pubMoves cfg args mw s ok) := by
  have hnil : Before (.release .participant) (.release .semaphore) (l ++ []) := by
    rwa [List.append_nil]
  obtain ⟨pc, e, ctx, pingW, pongR⟩ := s
  cases pc with
  | semaphoreDelete exit => exact h.snoc fun _ => hdel rfl
  | destroySample => exact h.snoc (by simp)
  | semaphoreNew | allocHistory | createSample | openLog | shutdown | closeLog | freeHistory =>
    unfold pubMoves
    try unfold shutdownMoves
    dsimp only
    split_ifs
    · exact h.snoc (by simp)
    · exact hnil
  | init | createWriter | createReader | checkEndpoints | waitMatch | run | returned => exact hnil

theorem pubMoves_shutdown {s : PubSide} (h : s.pc.isShutdown = true)
    (hmw : s.pc.hasParticipant = true → mw.participant = true) :
    pubMoves cfg args mw s ok = [.release .participant] := by
  obtain ⟨pc, e, ctx, pingW, pongR⟩ := s
  cases pc with
  | shutdown exit => exact if_pos (hmw rfl)
  | _ => cases h

/-- `mw->init` that returns zero leaves the participant held. -/
theorem init_success (hl : replay l = some fun _ => false) (hok : (microInit b calls id mw).1 = true) :
    replay (l ++ initMoves b calls id mw) = some (fun r => decide (r = .participant)) ∧
      lateFailure b calls = false ∧ (microInit b calls id mw).2.participant = true := by
  have hledger : replay (l ++ initMoves b calls id mw) = some _ := replay_init hl
  rw [microInit_eq] at hok ⊢
  obtain ⟨hpart, hlate⟩ := Bool.and_eq_true_iff.mp hok
  simp only [hpart, Bool.and_true] at hledger
  exact ⟨hledger, by simpa using hlate, microInitParticipant_ensures mw hpart⟩

/-- `mw->init` that fails leaves nothing held, unless it fails late. -/
theorem init_failure (hl : replay l = some fun _ => false) (hok : (microInit b calls id mw).1 = false) :
    ∃ held, replay (l ++ initMoves b calls id mw) = some held ∧
      (¬ ((microInitParticipant b calls id mw).1 = true ∧ lateFailure b calls = true) ↔
        ∀ r, held r = false) := by
  refine ⟨_, replay_init hl, ?_⟩
  rw [microInit_eq] at hok
  cases hpart : (microInitParticipant b calls id mw).1 with
  | false => simp
  | true =>
    have hlate : lateFailure b calls = true := by simpa [hpart] using hok
    simp [hlate]

/-- `mw->init`. -/
theorem PubRun.Sound.init {s : PubRun} {side : PubSide} (h : s.Sound clean) (hpc : s.side.pc = .init)
    (hs : perftestLitePublisher b.dpse cfg args (microInit b calls args.transportId s.mw).1 s.side =
      some side) :
    PubRun.Sound (clean ∧ ¬ s.Leaks b args (.init calls)) { s with
      side := side
      mw := (microInit b calls args.transportId s.mw).2
      ledger := s.ledger ++ initMoves b calls args.transportId s.mw } := by
  obtain ⟨hl, hclean⟩ := h.running (by simp [hpc])
  have hnone : s.side.owns = fun _ => false := by
    funext r
    cases r <;> simp [PubSide.owns, hpc, PubSetup.hasSemaphore]
  rw [hnone] at hl
  have hloop : ∀ p ∈ s.loop, False := by
    intro p hp
    have hrun := (h.loop p hp).1
    rw [hpc] at hrun
    cases hrun
  have hstart : clean := hclean.mpr (by simp [hpc])
  simp only [perftestLitePublisher, hpc, Option.some.injEq] at hs
  subst hs
  cases hok : (microInit b calls args.transportId s.mw).1 with
  | true =>
    obtain ⟨hheld, hlate, hp⟩ := init_success hl hok
    constructor
    case running =>
      intro _
      refine ⟨hheld.trans ?_, ?_⟩
      · congr 1
        funext r
        cases r <;> rfl
      · simp [hstart, PubRun.Leaks, hlate]
    case returned => simp
    case participant => exact fun _ => hp
    case log => exact fun _ => h.log (by simp [hpc])
    case order => exact initMoves_order h.order
    case deleted => simp
    case loop => exact fun p hp => (hloop p hp).elim
  | false =>
    constructor
    case running => simp
    case returned =>
      intro _
      obtain ⟨held, hheld, hiff⟩ := init_failure hl hok
      exact ⟨held, hheld, (and_iff_right hstart).trans hiff⟩
    case participant => simp
    case log => simp
    case order => exact initMoves_order h.order
    case deleted => simp
    case loop => exact fun p hp => (hloop p hp).elim

theorem PubRun.leaks_main {s : PubRun} : s.Leaks b args (.setup (.main ok)) ↔
    s.side.pc = .openLog ∧ args.latencyLogFile.isSome = true ∧ ok = false := by
  cases ok <;> simp [PubRun.Leaks]

/-- Any other statement outside the measurement. -/
theorem PubRun.Sound.main {s : PubRun} {side : PubSide} (h : s.Sound clean) (hinit : s.side.pc ≠ .init)
    (hloop : ¬ s.loop.isSome = true) (hs : perftestLitePublisher b.dpse cfg args ok s.side = some side) :
    PubRun.Sound (clean ∧ ¬ s.Leaks b args (.setup (.main ok))) { s with
      side := side
      mw := if s.side.pc.isShutdown then microShutdown s.mw else s.mw
      ledger := s.ledger ++ pubMoves cfg args s.mw s.side ok } := by
  have hpc : s.side.pc ≠ .returned := by
    intro hret
    simp [perftestLitePublisher, hret] at hs
  obtain ⟨hl, hclean⟩ := h.running hpc
  have hflow := pubStatement_flow hs hinit
  rw [PubRun.leaks_main, hclean]
  constructor
  case running =>
    intro hret
    refine ⟨pubStatement_running hs hinit hl h.participant h.log hret, ?_⟩
    constructor
    · intro hc hexit
      exact (hflow.exit hexit).elim hc.1 hc.2
    · intro hexit
      refine ⟨fun hlog => (hflow.stays hlog).elim hret hexit, fun hleak => hexit ?_⟩
      exact congrArg PubSetup.logExit (hflow.failed hleak.1 hleak.2.2 hleak.2.1)
  case returned =>
    intro hret
    obtain ⟨held, hheld, hiff⟩ := pubStatement_returned hs hinit hl h.participant hret
    refine ⟨held, hheld, ?_⟩
    rw [← hiff, Bool.not_eq_true]
    refine and_iff_left fun hleak => ?_
    have hlog := hflow.failed hleak.1 hleak.2.2 hleak.2.1
    rw [hret] at hlog
    cases hlog
  case participant =>
    intro hp
    obtain ⟨hbefore, hshut⟩ := hflow.participant hp
    change (if s.side.pc.isShutdown then microShutdown s.mw else s.mw).participant = true
    rw [hshut]
    exact h.participant hbefore
  case log =>
    intro hp
    obtain ⟨hbefore, hsame⟩ := hflow.log hp
    exact hsame.trans (h.log hbefore)
  case order => exact pubMoves_order h.order h.deleted
  case deleted =>
    intro hp
    rcases hflow.shutdown hp with hafter | hshut
    · exact List.mem_append_left _ (h.deleted hafter)
    · rw [pubMoves_shutdown hshut h.participant]
      exact List.mem_append_right _ (List.mem_singleton.mpr rfl)
  case loop =>
    intro p hp
    exact absurd (Option.isSome_of_mem hp) hloop

/-- A step that changes the context only, and no pointer in it. -/
theorem PubRun.Sound.context {s : PubRun} {c : PubCtx} (h : s.Sound clean) (hc : s.side.ctx.SameBuffers c)
    (hloop : ¬ s.loop.isSome = true) : PubRun.Sound clean { s with side := { s.side with ctx := c } } where
  running hret := by
    rw [PubSide.owns_sameBuffers hc]
    exact h.running hret
  returned := h.returned
  participant := h.participant
  log hp := by
    have hnone := congrArg Option.isSome (h.log hp)
    exact Option.not_isSome_iff_eq_none.mp (by rw [hc.2, hnone]; exact Bool.false_ne_true)
  order := h.order
  deleted := h.deleted
  loop p hp := absurd (Option.isSome_of_mem hp) hloop

/-- A step of the measurement. -/
theorem PubRun.Sound.measure {s : PubRun} {p p' : PubState} {e : ℕ × PubAction} (h : s.Sound clean)
    (hp : p ∈ s.loop) (hs : pubStep T cfg args p e = some p') :
    PubRun.Sound clean (if p'.pc = .shutdown
      then { s with loop := none, side := { s.side with pc := .destroySample, ctx := p'.ctx } }
      else { s with loop := some p' }) := by
  obtain ⟨hrun, hbuf⟩ := h.loop p hp
  have hbuf' := hbuf.trans (pubStep_sameBuffers hs)
  split_ifs
  · obtain ⟨hl, hclean⟩ := h.running (by simp [hrun])
    constructor
    case running =>
      intro _
      refine ⟨hl.trans ?_, by simp [hclean, hrun]⟩
      congr 1
      funext r
      cases r with
      | history => simp [PubSide.owns, hrun, hbuf'.1]
      | log => simp [PubSide.owns, hrun, hbuf'.2]
      | participant | semaphore | sample => simp [PubSide.owns, hrun, PubSetup.hasSemaphore]
    case returned => simp
    case participant => exact fun _ => h.participant (by simp [hrun])
    case log => simp
    case order => exact h.order
    case deleted => simp
    case loop => simp
  · exact ⟨h.running, h.returned, h.participant, h.log, h.order, h.deleted,
      fun q hq => ⟨hrun, Option.mem_some_iff.mp hq ▸ hbuf'⟩⟩

/-- **One step of the publisher** keeps the ledger. -/
theorem pubSound_step {s s' : PubRun} {e : PubRunEvent} (h : s.Sound clean)
    (hs : pubRunStep b T cfg args results s e = some s') : s'.Sound (clean ∧ ¬ s.Leaks b args e) := by
  cases e with
  | init calls =>
    simp only [pubRunStep, Option.ite_none_right_eq_some, Option.map_eq_some_iff] at hs
    obtain ⟨hpc, side, hside, rfl⟩ := hs
    exact h.init hpc hside
  | loop e =>
    simp only [pubRunStep, Option.bind_eq_some_iff, Option.map_eq_some_iff] at hs
    obtain ⟨p, hp, p', hstep, rfl⟩ := hs
    rw [show (clean ∧ ¬ s.Leaks b args (.loop e)) = clean from propext (and_iff_left not_false)]
    exact h.measure hp hstep
  | setup e =>
    cases e with
    | main ok =>
      simp only [pubRunStep, Option.ite_none_left_eq_some] at hs
      obtain ⟨hnot, hs⟩ := hs
      obtain ⟨hinit, hloop⟩ := not_or.mp hnot
      by_cases hrun : s.side.pc = .run
      · rw [if_pos hrun] at hs
        cases hs
        have hleak : ¬ s.Leaks b args (.setup (.main ok)) := by simp [PubRun.leaks_main, hrun]
        rw [show (clean ∧ ¬ s.Leaks b args (.setup (.main ok))) = clean from propext (and_iff_left hleak)]
        exact ⟨h.running, h.returned, h.participant, h.log, h.order, h.deleted,
          fun p hp => ⟨hrun, by rw [← Option.mem_some_iff.mp hp]; exact ⟨rfl, rfl⟩⟩⟩
      · rw [if_neg hrun] at hs
        obtain ⟨side, hside, rfl⟩ := Option.map_eq_some_iff.mp hs
        exact h.main hinit hloop hside
    | data now x | matched change =>
      simp only [pubRunStep, Option.ite_none_left_eq_some, Option.map_eq_some_iff] at hs
      obtain ⟨hloop, side, hside, rfl⟩ := hs
      obtain ⟨c, hc, rfl⟩ := pubCallback_sameBuffers (by simp) hside
      have hsound := h.context hc hloop
      rwa [show clean = (clean ∧ ¬ False) from propext (and_iff_left not_false).symm] at hsound

/-- What the ledger of a subscriber says. -/
structure SubRun.Sound (clean : Prop) (s : SubRun) : Prop where
  running : s.side.pc ≠ .returned → replay s.ledger = some s.side.owns ∧ clean
  returned : s.side.pc = .returned →
    ∃ held, replay s.ledger = some held ∧ (clean ↔ ∀ r, held r = false)
  participant : s.side.owns .participant = true → s.mw.participant = true
  order : Before (.release .participant) (.release .semaphore) s.ledger

/-- `mw->init`. -/
theorem SubRun.Sound.init {s : SubRun} {side : SubSide} (h : s.Sound clean) (hpc : s.side.pc = .init)
    (hs : perftestLiteSubscriber b.dpse (microInit b calls args.transportId s.mw).1 s.side = some side) :
    SubRun.Sound (clean ∧ ¬ s.Leaks b args (.init calls)) { s with
      side := side
      mw := (microInit b calls args.transportId s.mw).2
      ledger := s.ledger ++ initMoves b calls args.transportId s.mw } := by
  obtain ⟨hl, hstart⟩ := h.running (by simp [hpc])
  have hnone : s.side.owns = fun _ => false := by
    funext r
    cases r <;> simp [SubSide.owns, hpc]
  rw [hnone] at hl
  simp only [perftestLiteSubscriber, hpc, Option.some.injEq] at hs
  subst hs
  cases hok : (microInit b calls args.transportId s.mw).1 with
  | true =>
    obtain ⟨hheld, hlate, hp⟩ := init_success hl hok
    constructor
    case running =>
      intro _
      refine ⟨hheld.trans ?_, by simp [hstart, SubRun.Leaks, hlate]⟩
      congr 1
      funext r
      cases r <;> rfl
    case returned => simp
    case participant => exact fun _ => hp
    case order => exact initMoves_order h.order
  | false =>
    constructor
    case running => simp
    case returned =>
      intro _
      obtain ⟨held, hheld, hiff⟩ := init_failure hl hok
      exact ⟨held, hheld, (and_iff_right hstart).trans hiff⟩
    case participant => simp [SubSide.owns]
    case order => exact initMoves_order h.order

/-- Statements between `mw->init` and `shutdown`, and callbacks, leave what is held alone. -/
theorem SubRun.Sound.still {s : SubRun} {side : SubSide} (h : s.Sound clean) (howns : side.owns = s.side.owns)
    (hpc : s.side.pc ≠ .returned → side.pc ≠ .returned)
    (hret : s.side.pc = .returned → side.pc = .returned) :
    SubRun.Sound clean { s with side := side } where
  running hr := by
    rw [howns]
    exact h.running fun hold => hr (hret hold)
  returned hr := h.returned (by_contra fun hold => hpc hold hr)
  participant := by
    rw [howns]
    exact h.participant
  order := h.order

/-- Where a statement other than `mw->init` and `shutdown` leads. -/
theorem subStatement_still {dpse : Bool} {s s' : SubSide} (hs : perftestLiteSubscriber dpse ok s = some s')
    (hinit : s.pc ≠ .init) (hshut : s.pc ≠ .shutdown) :
    s.pc ≠ .returned ∧ s'.pc ≠ .init ∧ s'.pc ≠ .returned := by
  obtain ⟨pc, e, ctx, pongW, pingR⟩ := s
  cases pc with
  | init => exact absurd rfl hinit
  | shutdown => exact absurd rfl hshut
  | createWriter | reset =>
    cases hs
    exact ⟨by simp, by simp, by simp⟩
  | createReader pc =>
    rcases subCreateReader_cases hs with ⟨reader, rfl, rfl⟩ | ⟨pc', e', -, rfl⟩
    · exact ⟨by simp, by simp, by simp⟩
    · exact ⟨by simp, by simp, by simp⟩
  | checkEndpoints =>
    cases hs
    cases pongW && pingR <;> exact ⟨by simp, by simp, by simp⟩
  | waitMatch | run =>
    simp only [perftestLiteSubscriber] at hs
    split_ifs at hs <;> (cases hs; exact ⟨by simp, by simp, by simp⟩)
  | returned => cases hs

/-- `shutdown`. -/
theorem SubRun.Sound.shutdown {s : SubRun} {side : SubSide} {dpse : Bool} (h : s.Sound clean)
    (hpc : s.side.pc = .shutdown) (hs : perftestLiteSubscriber dpse ok s.side = some side) :
    SubRun.Sound clean { s with
      side := side
      mw := microShutdown s.mw
      ledger := s.ledger ++ shutdownMoves s.mw } := by
  obtain ⟨hl, hclean⟩ := h.running (by simp [hpc])
  have hp : s.side.owns .participant = true := by simp [SubSide.owns, hpc]
  have hmw := h.participant hp
  simp only [perftestLiteSubscriber, hpc, Option.some.injEq] at hs
  subst hs
  constructor
  case running => simp
  case returned =>
    intro _
    refine ⟨fun _ => false, replay_shutdown hmw hl hp fun r => ?_, fun _ _ => rfl, fun _ => hclean⟩
    cases r <;> rfl
  case participant => simp [SubSide.owns]
  case order =>
    change Before _ _ (s.ledger ++ shutdownMoves s.mw)
    unfold shutdownMoves
    rw [if_pos hmw]
    exact h.order.snoc (by simp)

/-- A callback of the subscriber touches the context only. -/
theorem subRun_callback {s s' : SubRun} {e : SetupEvent} (he : ∀ ok, e ≠ .main ok)
    (hs : subRunStep b T args s (.setup e) = some s') :
    ∃ c, s' = { s with side := { s.side with ctx := c } } := by
  cases e with
  | main ok => exact absurd rfl (he ok)
  | data now x | matched change =>
    obtain ⟨side, hside, rfl⟩ := Option.map_eq_some_iff.mp hs
    obtain ⟨c, rfl⟩ := subCallback_context (by simp) hside
    exact ⟨c, rfl⟩

/-- **One step of the subscriber** keeps the ledger. -/
theorem subSound_step {s s' : SubRun} {e : SubRunEvent} (h : s.Sound clean)
    (hs : subRunStep b T args s e = some s') : s'.Sound (clean ∧ ¬ s.Leaks b args e) := by
  cases e with
  | init calls =>
    simp only [subRunStep, Option.ite_none_right_eq_some, Option.map_eq_some_iff] at hs
    obtain ⟨hpc, side, hside, rfl⟩ := hs
    exact h.init hpc hside
  | setup e =>
    rw [show (clean ∧ ¬ s.Leaks b args (.setup e)) = clean from propext (and_iff_left not_false)]
    cases e with
    | main ok =>
      simp only [subRunStep, Option.ite_none_left_eq_some] at hs
      obtain ⟨hinit, hs⟩ := hs
      by_cases hpc : s.side.pc = .shutdown
      · rw [if_pos hpc] at hs
        obtain ⟨side, hside, rfl⟩ := Option.map_eq_some_iff.mp hs
        exact h.shutdown hpc hside
      · rw [if_neg hpc] at hs
        obtain ⟨side, hside, rfl⟩ := Option.map_eq_some_iff.mp hs
        obtain ⟨hret, hinit', hret'⟩ := subStatement_still hside hinit hpc
        refine h.still ?_ (fun _ => hret') fun hold => absurd hold hret
        funext r
        cases r with
        | participant => simp [SubSide.owns, hinit, hret, hinit', hret']
        | semaphore | history | sample | log => rfl
    | data now x | matched change =>
      obtain ⟨c, rfl⟩ := subRun_callback (by simp) hs
      exact h.still (by funext r; cases r <;> rfl) (fun hr => hr) fun hr => hr

/-! ## Whole runs -/

theorem pubSound_init (mw : MicroMW) : (pubRunInit mw).Sound True where
  running _ := by
    refine ⟨congrArg some ?_, by simp [pubRunInit, pubSideInit]⟩
    funext r
    cases r <;> rfl
  returned := by simp [pubRunInit, pubSideInit]
  participant := by simp [pubRunInit, pubSideInit]
  log _ := rfl
  order := before_nil
  deleted := by simp [pubRunInit, pubSideInit]
  loop := by simp [pubRunInit]

theorem subSound_init (mw : MicroMW) : (subRunInit mw).Sound True where
  running _ := by
    refine ⟨congrArg some ?_, trivial⟩
    funext r
    cases r <;> rfl
  returned := by simp [subRunInit, subSideInit]
  participant := by simp [subRunInit, subSideInit, SubSide.owns]
  order := before_nil

/-- What has been released, once it is known what is held. -/
theorem released_iff_free {held : Resource → Bool} (hl : replay l = some held)
    (horder : Before (.release .participant) (.release .semaphore) l) :
    Released l ↔ ∀ r, held r = false := by
  rw [← released_iff hl]
  constructor
  · intro h
    exact h.once
  · intro h
    exact ⟨by rw [hl]; rfl, h, horder⟩

/-- **Every exit.** A run of the publisher or of the subscriber that has returned has released what it
acquired, each once and the participant before the semaphore, if and only if no `micro_init` failed
after it had created the participant and no `fopen` failed. -/
theorem exit_releases_iff (b : Build) (T : TypeInterface) (cfg : Config) (args : InputArgs)
    (results : Option Results) (mw : MicroMW) :
    (∀ (es : List PubRunEvent) (s : PubRun),
      exec (pubRunStep b T cfg args results) (pubRunInit mw) es = some s → s.side.pc = .returned →
        (Released s.ledger ↔
          Along (pubRunStep b T cfg args results) (fun s e => ¬ s.Leaks b args e) (pubRunInit mw) es)) ∧
    ∀ (es : List SubRunEvent) (s : SubRun),
      exec (subRunStep b T args) (subRunInit mw) es = some s → s.side.pc = .returned →
        (Released s.ledger ↔
          Along (subRunStep b T args) (fun s e => ¬ s.Leaks b args e) (subRunInit mw) es) := by
  constructor
  · intro es s hrun hret
    have hsound := exec_along (I := PubRun.Sound) (fun _ _ _ _ h hs => pubSound_step h hs) hrun
      (pubSound_init mw)
    obtain ⟨held, hl, hiff⟩ := hsound.returned hret
    rw [released_iff_free hl hsound.order, ← hiff]
    exact and_iff_right trivial
  · intro es s hrun hret
    have hsound := exec_along (I := SubRun.Sound) (fun _ _ _ _ h hs => subSound_step h hs) hrun
      (subSound_init mw)
    obtain ⟨held, hl, hiff⟩ := hsound.returned hret
    rw [released_iff_free hl hsound.order, ← hiff]
    exact and_iff_right trivial

end Ledgers

/-! ## Runs that do and do not release everything -/

instance (b : Build) (args : InputArgs) (s : PubRun) (e : PubRunEvent) : Decidable (s.Leaks b args e) := by
  unfold PubRun.Leaks
  split <;> infer_instance

/-- A latency test with a log file. -/
def logArgs : InputArgs :=
  { publisherDefaults with
    latencyTest := true
    latencyLogFile := some "latency.csv" }

/-- A build that keeps a latency history. -/
def historyConfig : Config := { defaultConfig with latencyHistorySize := 1000 }

/-- Every call succeeds, the peer is matched, `fopen` comes next. -/
def upToLog : List PubRunEvent :=
  .init allSucceed :: List.replicate 15 (.setup (.main true)) ++
    [.setup (.matched 1), .setup (.main true)]

/-- A measurement whose time is up at once, and a finalization that is answered at once. -/
def emptyMeasurement : List PubRunEvent :=
  List.replicate 55 (.loop (1000000, .main true)) ++ List.replicate 8 (.loop (1000000000, .main true)) ++
    [.loop (1000000000, .pong (sampleOfKind .finalization)), .loop (1000000000, .main true)]

/-- A run to its regular end. -/
def finishedRun : List PubRunEvent :=
  upToLog ++ List.replicate 2 (.setup (.main true)) ++ emptyMeasurement ++
    List.replicate 5 (.setup (.main true))

/-- The state of the publisher after a run in a fresh process. -/
def publisherAfter (es : List PubRunEvent) : Option PubRun :=
  exec (pubRunStep plainBuild sequenceType historyConfig logArgs none) (pubRunInit freshProcess) es

/-- The ledger of a publisher that has returned. -/
def finalLedger (es : List PubRunEvent) : Option (List (Move Resource)) :=
  (publisherAfter es).bind fun s => if s.side.pc = .returned then some s.ledger else none

/-- The log file is opened and closed, everything is released. -/
theorem exit_releases_iff_finished : ∃ s, publisherAfter finishedRun = some s ∧
    s.ledger = [.acquire .participant, .acquire .semaphore, .acquire .history, .acquire .sample,
      .acquire .log, .release .sample, .release .participant, .release .log, .release .semaphore,
      .release .history] ∧ Released s.ledger := by
  have hend : (publisherAfter finishedRun).map (fun s => (s.side.pc, s.ledger)) = some (.returned,
      [.acquire .participant, .acquire .semaphore, .acquire .history, .acquire .sample, .acquire .log,
        .release .sample, .release .participant, .release .log, .release .semaphore,
        .release .history]) := by
    decide +kernel
  obtain ⟨s, hs, heq⟩ := Option.map_eq_some_iff.mp hend
  obtain ⟨hret, hledger⟩ := Prod.mk.inj heq
  exact ⟨s, hs, hledger, ((exit_releases_iff plainBuild sequenceType historyConfig logArgs none
    freshProcess).1 finishedRun s hs hret).mpr (by decide +kernel)⟩

/-- Every call succeeds but the one that registers the type. -/
def typeRefused : InitCall → Bool := fun c => decide (c ≠ .registerType)

/-- With static discovery: `micro_init` fails late and leaves the participant; `fopen` fails and leaves
the sample and the history. -/
theorem exits_leak :
    finalLedger [.init typeRefused] = some [.acquire .participant] ∧
      ¬ Released [.acquire .participant] ∧
    finalLedger (upToLog ++ .setup (.main false) :: List.replicate 2 (.setup (.main true))) =
      some [.acquire .participant, .acquire .semaphore, .acquire .history, .acquire .sample,
        .release .participant, .release .semaphore] ∧
      ¬ Released [.acquire .participant, .acquire .semaphore, .acquire .history, .acquire .sample,
        .release .participant, .release .semaphore] := by
  refine ⟨by decide +kernel, fun h => ?_, by decide +kernel, fun h => ?_⟩
  · exact absurd (h.once .participant) (by decide)
  · exact absurd (h.once .sample) (by decide)

end PerftestLite
