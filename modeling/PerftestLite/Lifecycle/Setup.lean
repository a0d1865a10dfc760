import PerftestLite.Core.Args
import PerftestLite.Latency.Token
import PerftestLite.Lifecycle.Reader

/-!
# Setup and teardown

`perftest_lite_publisher` and `perftest_lite_subscriber` from `mw->init` to the return, every creation
call with either outcome, interleaved with the callbacks of the reader they create. The measurement
itself is one statement here.

* `pubSetupStep`, `subSetupStep`: the two engines;
* `PubSide.Built`, `SubSide.Built`: what exists at each statement;
* `callbacks_safe_iff`: the runs on which no callback finds anything missing;
* `callback_finds_nothing`: three runs on which one does.
-/

set_option autoImplicit false

namespace PerftestLite

open Word Machine

/-- What happens during setup and teardown. `data` is one entry of `on_data_available_cb` at a clock
reading, with the sample it passes on, if there is one. -/
inductive SetupEvent
  | main (ok : Bool)
  | data (now : ℕ) (x : Option PerftestSample)
  | matched (change : ℤ)
  deriving DecidableEq

/-! ## The publisher -/

/-- Why the publisher returns: no endpoints, no semaphore, no sample, no log file, or the end of the
test. Each has its own calls to clean up. -/
inductive PubExit
  | endpoints
  | semaphore
  | sample
  | log
  | finished
  deriving DecidableEq, Repr

/-- The exits behind a successful `semaphore_new`. -/
def PubExit.hasSemaphore : PubExit → Bool
  | .endpoints | .semaphore => false
  | .sample | .log | .finished => true

/-- The next statement of `perftest_lite_publisher`. -/
inductive PubSetup
  | init
  | createWriter
  | createReader (pc : ReaderPc)
  | checkEndpoints
  | semaphoreNew
  | allocHistory
  | createSample
  | waitMatch
  | openLog
  | run
  | destroySample
  | shutdown (exit : PubExit)
  | closeLog
  | semaphoreDelete (exit : PubExit)
  | freeHistory
  | returned
  deriving DecidableEq, Repr

structure PubSide where
  pc : PubSetup
  endpoint : Endpoint
  ctx : PubCtx
  pingW : Bool
  pongR : Bool
  deriving DecidableEq

/-- `memset`, and the minimum of no latency. -/
def PubCtx.zero : PubCtx := ⟨0, 0, false, .null, 0, 0, noLatency, 0, none, none, false, [], 0, 0⟩

def pubSideInit : PubSide := ⟨.init, .absent, .zero, false, false⟩

/-- One statement of the publisher; `ok` is the outcome of the call it makes. -/
def perftestLitePublisher (dpse : Bool) (cfg : Config) (args : InputArgs) (ok : Bool) (s : PubSide) :
    Option PubSide :=
  match s.pc with
  | .init => some { s with pc := if ok then .createWriter else .returned }
  | .createWriter => some { s with pc := .createReader .topic, pingW := ok }
  | .createReader (.ret reader) => some { s with pc := .checkEndpoints, pongR := reader }
  | .createReader pc => (microCreateReader dpse ok s.endpoint pc).map fun q =>
      { s with pc := .createReader q.1, endpoint := q.2 }
  | .checkEndpoints =>
    some { s with pc := if s.pingW && s.pongR then .semaphoreNew else .shutdown .endpoints }
  | .semaphoreNew =>
    if ok then some { s with pc := .allocHistory, ctx := { s.ctx with latencySem := .live false } }
    else some { s with pc := .shutdown .semaphore }
  | .allocHistory => some { s with
      pc := .createSample
      ctx := { s.ctx with
        latHistory := if decide (cfg.latencyHistorySize > 0) && ok then some [] else none } }
  | .createSample => some { s with pc := if ok then .waitMatch else .shutdown .sample }
  | .waitMatch =>
    if s.ctx.matchedPubs < 1 then some s
    else some { s with pc := .openLog, ctx := { s.ctx with latencyStream := args.latencyStream } }
  | .openLog =>
    if args.latencyLogFile.isSome then
      if ok then some { s with pc := .run, ctx := { s.ctx with latencyLog := some [] } }
      else some { s with pc := .shutdown .log }
    else some { s with pc := .run }
  | .run => some { s with pc := .destroySample }
  | .destroySample => some { s with pc := .shutdown .finished }
  | .shutdown exit => some { s with
      pc := match exit with
        | .endpoints | .semaphore => .returned
        | .sample | .log => .semaphoreDelete exit
        | .finished => .closeLog
      endpoint := { s.endpoint with armed := false } }
  | .closeLog => some { s with pc := .semaphoreDelete .finished }
  | .semaphoreDelete exit => some { s with
      -- the exit for the log file leaves the history alone
      pc := if exit = .log then .returned else .freeHistory
      ctx := { s.ctx with latencySem := .deleted } }
  | .freeHistory => some { s with pc := .returned }
  | .returned => none

/-- One step of the publisher. What a callback does with a reader that is not ready is undefined; the
model leaves the context alone. -/
def pubSetupStep (dpse : Bool) (cfg : Config) (args : InputArgs) (s : PubSide) :
    SetupEvent → Option PubSide
  | .main ok => perftestLitePublisher dpse cfg args ok s
  | .data now x =>
    if s.endpoint.armed then
      some { s with ctx :=
        if s.endpoint.ready then x.elim s.ctx fun y => pubOnPongSample cfg now y s.ctx else s.ctx }
    else none
  | .matched change =>
    if s.endpoint.armed then some { s with ctx := pubOnReaderMatched change s.ctx } else none

/-! ## The subscriber -/

/-- The next statement of `perftest_lite_subscriber`. -/
inductive SubSetup
  | init
  | createWriter
  | createReader (pc : ReaderPc)
  | checkEndpoints
  | waitMatch
  | reset
  | run
  | shutdown
  | returned
  deriving DecidableEq, Repr

structure SubSide where
  pc : SubSetup
  endpoint : Endpoint
  ctx : SubCtx
  /-- `ctx.pong_w` is not null. -/
  pongW : Bool
  pingR : Bool
  deriving DecidableEq

def subSideInit : SubSide := ⟨.init, .absent, .zero, false, false⟩

/-- One statement of the subscriber; `ok` is the outcome of the call it makes. -/
def perftestLiteSubscriber (dpse ok : Bool) (s : SubSide) : Option SubSide :=
  match s.pc with
  | .init => some { s with pc := if ok then .createWriter else .returned }
  | .createWriter => some { s with pc := .createReader .topic, pongW := ok }
  | .createReader (.ret reader) => some { s with pc := .checkEndpoints, pingR := reader }
  | .createReader pc => (microCreateReader dpse ok s.endpoint pc).map fun q =>
      { s with pc := .createReader q.1, endpoint := q.2 }
  | .checkEndpoints => some { s with pc := if s.pongW && s.pingR then .waitMatch else .shutdown }
  | .waitMatch => if s.ctx.matchedPubs < 1 then some s else some { s with pc := .reset }
  | .reset => some { s with pc := .run, ctx := subReset s.ctx }
  | .run => if s.ctx.finished then some { s with pc := .shutdown } else some s
  | .shutdown => some { s with pc := .returned, endpoint := { s.endpoint with armed := false } }
  | .returned => none

/-- One step of the subscriber. -/
def subSetupStep (dpse : Bool) (T : TypeInterface) (s : SubSide) : SetupEvent → Option SubSide
  | .main ok => perftestLiteSubscriber dpse ok s
  | .data now x =>
    if s.endpoint.armed then
      some { s with ctx :=
        if s.endpoint.ready then x.elim s.ctx fun y => (subOnSample T now y s.ctx).1 else s.ctx }
    else none
  | .matched change =>
    if s.endpoint.armed then some { s with ctx := subOnReaderMatched change s.ctx } else none

/-! ## What a callback needs, and when it comes -/

/-- A callback that reaches the engine finds `tdr` and `base.take` set; one that gives the semaphore
finds it created and not deleted. -/
def PubSide.Safe (s : PubSide) : SetupEvent → Prop
  | .data _ x => s.endpoint.armed = true → s.endpoint.reachesEngine = true →
      s.endpoint.ready = true ∧
        ∀ y ∈ x, y.isData = true → s.ctx.latencySem ≠ .null ∧ s.ctx.latencySem ≠ .deleted
  | _ => True

/-- A callback that reaches the engine finds `tdr` and `base.take` set; one that echoes finds a
writer. -/
def SubSide.Safe (T : TypeInterface) (s : SubSide) : SetupEvent → Prop
  | .data now x => s.endpoint.armed = true → s.endpoint.reachesEngine = true →
      s.endpoint.ready = true ∧
        ∀ y ∈ x, (subOnSample T now y s.ctx).2.isSome = true → s.pongW = true
  | _ => True

/-- The semaphore has been created and is still there. -/
def PubSetup.hasSemaphore : PubSetup → Bool
  | .allocHistory | .createSample | .waitMatch | .openLog | .run | .destroySample => true
  | .shutdown exit => exit.hasSemaphore
  | _ => false

/-- The callback comes after the last assignment of `micro_create_reader`, not after it has failed; a
pong of a data sample comes after `semaphore_new` has succeeded. -/
def PubSide.InTime (s : PubSide) : SetupEvent → Prop
  | .data _ x => s.endpoint.armed = true →
      (match s.pc with
        | .createReader pc => pc.filled
        | _ => s.pongR) = true ∧
      ∀ y ∈ x, y.isData = true → s.pc.hasSemaphore = true
  | _ => True

/-- The callback comes after the last assignment of `micro_create_reader`, not after it has failed;
without a pong writer it is a callback for plain `DATA`. -/
def SubSide.InTime (s : SubSide) : SetupEvent → Prop
  | .data _ x => s.endpoint.armed = true →
      (match s.pc with
        | .createReader pc => pc.filled
        | _ => s.pingR) = true ∧
      ∀ y ∈ x, s.pongW = true ∨ y.kind = .data
  | _ => True

/-! ## What exists at each statement -/

/-- The reader and the semaphore at each statement of the publisher. -/
def PubSide.Built (s : PubSide) : Prop :=
  match s.pc with
  | .init | .createWriter => s.endpoint = .absent ∧ s.ctx.latencySem = .null
  | .createReader pc => pc.Holds s.endpoint ∧ s.ctx.latencySem = .null
  | .checkEndpoints | .shutdown .endpoints | .shutdown .semaphore =>
    s.endpoint.Made s.pongR ∧ s.ctx.latencySem = .null
  | .semaphoreNew => s.endpoint.Made s.pongR ∧ s.pongR = true ∧ s.ctx.latencySem = .null
  | .allocHistory | .createSample | .waitMatch | .openLog | .run | .destroySample | .shutdown _ =>
    s.endpoint.Made s.pongR ∧ s.pongR = true ∧ s.ctx.latencySem.Live
  | .closeLog | .semaphoreDelete _ | .freeHistory | .returned => s.endpoint.armed = false

/-- The reader at each statement of the subscriber. -/
def SubSide.Built (s : SubSide) : Prop :=
  match s.pc with
  | .init | .createWriter => s.endpoint = .absent
  | .createReader pc => pc.Holds s.endpoint
  | .checkEndpoints | .shutdown => s.endpoint.Made s.pingR
  | .waitMatch | .reset | .run => s.endpoint.Made s.pingR ∧ s.pingR = true
  | .returned => s.endpoint.armed = false

section

variable {dpse : Bool} {cfg : Config} {args : InputArgs} {T : TypeInterface}

/-- The return of `micro_create_reader`, or a statement of it. -/
theorem pubCreateReader_cases {ok : Bool} {pc : ReaderPc} {e : Endpoint} {ctx : PubCtx}
    {pingW pongR : Bool} {s' : PubSide}
    (hs : perftestLitePublisher dpse cfg args ok ⟨.createReader pc, e, ctx, pingW, pongR⟩ = some s') :
    (∃ reader, pc = .ret reader ∧ s' = ⟨.checkEndpoints, e, ctx, pingW, reader⟩) ∨
      ∃ pc' e', microCreateReader dpse ok e pc = some (pc', e') ∧
        s' = ⟨.createReader pc', e', ctx, pingW, pongR⟩ := by
  cases pc with
  | ret reader =>
    cases hs
    exact .inl ⟨reader, rfl, rfl⟩
  | topic | allocate | listener | createDatareader | assertRemote | dr | tdr | take | impl =>
    simp only [perftestLitePublisher, Option.map_eq_some_iff] at hs
    obtain ⟨⟨pc', e'⟩, hq, rfl⟩ := hs
    exact .inr ⟨pc', e', hq, rfl⟩

/-- The same for the subscriber. -/
theorem subCreateReader_cases {ok : Bool} {pc : ReaderPc} {e : Endpoint} {ctx : SubCtx}
    {pongW pingR : Bool} {s' : SubSide}
    (hs : perftestLiteSubscriber dpse ok ⟨.createReader pc, e, ctx, pongW, pingR⟩ = some s') :
    (∃ reader, pc = .ret reader ∧ s' = ⟨.checkEndpoints, e, ctx, pongW, reader⟩) ∨
      ∃ pc' e', microCreateReader dpse ok e pc = some (pc', e') ∧
        s' = ⟨.createReader pc', e', ctx, pongW, pingR⟩ := by
  cases pc with
  | ret reader =>
    cases hs
    exact .inl ⟨reader, rfl, rfl⟩
  | topic | allocate | listener | createDatareader | assertRemote | dr | tdr | take | impl =>
    simp only [perftestLiteSubscriber, Option.map_eq_some_iff] at hs
    obtain ⟨⟨pc', e'⟩, hq, rfl⟩ := hs
    exact .inr ⟨pc', e', hq, rfl⟩

/-- A callback may give the semaphore, which neither creates nor deletes it. -/
theorem PubSide.Built.callback {s : PubSide} (h : s.Built) {c : PubCtx}
    (hc : c.latencySem = s.ctx.latencySem ∨ c.latencySem = s.ctx.latencySem.give) :
    PubSide.Built { s with ctx := c } := by
  have hnull : s.ctx.latencySem = .null → c.latencySem = .null := fun hn => by
    rcases hc with hc | hc <;> rw [hc, hn]
    rfl
  have hlive : s.ctx.latencySem.Live → c.latencySem.Live := fun hl => by
    rcases hc with hc | hc <;> rw [hc]
    · exact hl
    · exact hl.give.1
  obtain ⟨pc, e, ctx, pingW, pongR⟩ := s
  cases pc with
  | init | createWriter | createReader | checkEndpoints => exact ⟨h.1, hnull h.2⟩
  | semaphoreNew => exact ⟨h.1, h.2.1, hnull h.2.2⟩
  | allocHistory | createSample | waitMatch | openLog | run | destroySample =>
    exact ⟨h.1, h.2.1, hlive h.2.2⟩
  | shutdown exit =>
    cases exit with
    | endpoints | semaphore => exact ⟨h.1, hnull h.2⟩
    | sample | log | finished => exact ⟨h.1, h.2.1, hlive h.2.2⟩
  | closeLog | semaphoreDelete | freeHistory | returned => exact h

/-- **One statement of the publisher keeps what has been built.** -/
theorem PubSide.Built.main {s s' : PubSide} {ok : Bool} (h : s.Built)
    (hs : perftestLitePublisher dpse cfg args ok s = some s') : s'.Built := by
  obtain ⟨pc, e, ctx, pingW, pongR⟩ := s
  cases pc with
  | init =>
    cases hs
    cases ok with
    | true => exact h
    | false => exact congrArg Endpoint.armed h.1
  | createWriter =>
    cases hs
    exact h
  | createReader pc =>
    rcases pubCreateReader_cases hs with ⟨reader, rfl, rfl⟩ | ⟨pc', e', hq, rfl⟩
    · exact h
    · exact ⟨microCreateReader_holds h.1 hq, h.2⟩
  | checkEndpoints =>
    cases hs
    cases pingW with
    | false => exact h
    | true =>
      cases pongR with
      | true => exact ⟨h.1, rfl, h.2⟩
      | false => exact h
  | semaphoreNew =>
    cases ok with
    | true =>
      cases hs
      exact ⟨h.1, h.2.1, false, rfl⟩
    | false =>
      cases hs
      exact ⟨h.1, h.2.2⟩
  | allocHistory | run | destroySample | closeLog | freeHistory =>
    cases hs
    exact h
  | createSample =>
    cases hs
    cases ok <;> exact h
  | waitMatch =>
    simp only [perftestLitePublisher] at hs
    split_ifs at hs <;> (cases hs; exact h)
  | openLog =>
    simp only [perftestLitePublisher] at hs
    split_ifs at hs <;> (cases hs; exact h)
  | shutdown exit =>
    cases hs
    cases exit <;> exact rfl
  | semaphoreDelete exit =>
    cases hs
    cases exit <;> exact h
  | returned => cases hs

theorem pubBuilt_step {s s' : PubSide} {e : SetupEvent} (h : s.Built)
    (hs : pubSetupStep dpse cfg args s e = some s') : s'.Built := by
  cases e with
  | main ok => exact h.main hs
  | data now x =>
    simp only [pubSetupStep, Option.ite_none_right_eq_some, Option.some.injEq] at hs
    rw [← hs.2]
    refine h.callback ?_
    split_ifs
    · cases x with
      | none => exact .inl rfl
      | some y =>
        have hsem := pubOnPongSample_sem cfg now y s.ctx
        split_ifs at hsem
        · exact .inr hsem
        · exact .inl hsem
    · exact .inl rfl
  | matched change =>
    simp only [pubSetupStep, Option.ite_none_right_eq_some, Option.some.injEq] at hs
    rw [← hs.2]
    exact h.callback (.inl (pubOnReaderMatched_sem change s.ctx))

/-- A callback of the subscriber touches the context only. -/
theorem subCallback_context {s s' : SubSide} {e : SetupEvent} (he : ∀ ok, e ≠ .main ok)
    (hs : subSetupStep dpse T s e = some s') : ∃ c, s' = { s with ctx := c } := by
  cases e with
  | main ok => exact absurd rfl (he ok)
  | data now x | matched change =>
    simp only [subSetupStep, Option.ite_none_right_eq_some, Option.some.injEq] at hs
    exact ⟨_, hs.2.symm⟩

/-- A callback changes neither the reader nor the writer. -/
theorem SubSide.Built.callback {s : SubSide} (h : s.Built) (c : SubCtx) :
    SubSide.Built { s with ctx := c } := h

/-- **One statement of the subscriber keeps what has been built.** -/
theorem SubSide.Built.main {s s' : SubSide} {ok : Bool} (h : s.Built)
    (hs : perftestLiteSubscriber dpse ok s = some s') : s'.Built := by
  obtain ⟨pc, e, ctx, pongW, pingR⟩ := s
  cases pc with
  | init =>
    cases hs
    cases ok with
    | true => exact h
    | false => exact congrArg Endpoint.armed h
  | createWriter =>
    cases hs
    exact h
  | createReader pc =>
    rcases subCreateReader_cases hs with ⟨reader, rfl, rfl⟩ | ⟨pc', e', hq, rfl⟩
    · exact h
    · exact microCreateReader_holds (show pc.Holds e from h) hq
  | checkEndpoints =>
    cases hs
    cases pongW with
    | false => exact h
    | true =>
      cases pingR with
      | true => exact ⟨h, rfl⟩
      | false => exact h
  | waitMatch | run =>
    simp only [perftestLiteSubscriber] at hs
    split_ifs at hs <;> (cases hs; first | exact h | exact h.1)
  | reset =>
    cases hs
    exact h
  | shutdown =>
    cases hs
    rfl
  | returned => cases hs

theorem subBuilt_step {s s' : SubSide} {e : SetupEvent} (h : s.Built)
    (hs : subSetupStep dpse T s e = some s') : s'.Built := by
  cases e with
  | main ok => exact h.main hs
  | data now x | matched change =>
    obtain ⟨c, rfl⟩ := subCallback_context (by simp) hs
    exact h.callback c

theorem pubBuilt_init : pubSideInit.Built := ⟨rfl, rfl⟩

theorem subBuilt_init : subSideInit.Built := rfl

/-! ## Safe callbacks -/

/-- The semaphore is there exactly where `semaphore_new` has succeeded and `shutdown` has not run. -/
theorem PubSide.Built.semaphore {s : PubSide} (h : s.Built) (ha : s.endpoint.armed = true) :
    (s.ctx.latencySem ≠ .null ∧ s.ctx.latencySem ≠ .deleted) ↔ s.pc.hasSemaphore = true := by
  have hlive : s.ctx.latencySem.Live → s.ctx.latencySem ≠ .null ∧ s.ctx.latencySem ≠ .deleted := by
    rintro ⟨b, hb⟩
    rw [hb]
    exact ⟨by simp, by simp⟩
  obtain ⟨pc, e, ctx, pingW, pongR⟩ := s
  cases pc with
  | init | createWriter | createReader | checkEndpoints =>
    exact ⟨fun hn => absurd h.2 hn.1, fun hf => absurd hf Bool.false_ne_true⟩
  | semaphoreNew => exact ⟨fun hn => absurd h.2.2 hn.1, fun hf => absurd hf Bool.false_ne_true⟩
  | allocHistory | createSample | waitMatch | openLog | run | destroySample =>
    exact ⟨fun _ => rfl, fun _ => hlive h.2.2⟩
  | shutdown exit =>
    cases exit with
    | endpoints | semaphore => exact ⟨fun hn => absurd h.2 hn.1, fun hf => absurd hf Bool.false_ne_true⟩
    | sample | log | finished => exact ⟨fun _ => rfl, fun _ => hlive h.2.2⟩
  | closeLog | semaphoreDelete | freeHistory | returned =>
    exact absurd ((show e.armed = false from h).symm.trans ha) Bool.false_ne_true

/-- The reader is ready exactly from the last assignment on. -/
theorem PubSide.Built.ready {s : PubSide} (h : s.Built) (ha : s.endpoint.armed = true) :
    s.endpoint.reachesEngine = true ∧ (s.endpoint.ready = true ↔
      (match s.pc with
        | .createReader pc => pc.filled
        | _ => s.pongR) = true) := by
  obtain ⟨pc, e, ctx, pingW, pongR⟩ := s
  cases pc with
  | init | createWriter => exact absurd ((congrArg Endpoint.armed h.1).symm.trans ha) Bool.false_ne_true
  | createReader pc => exact ready_iff_filled h.1 ha
  | checkEndpoints | semaphoreNew | allocHistory | createSample | waitMatch | openLog | run
  | destroySample => exact Endpoint.Made.ready_iff h.1 ha
  | shutdown exit => cases exit <;> exact Endpoint.Made.ready_iff h.1 ha
  | closeLog | semaphoreDelete | freeHistory | returned =>
    exact absurd ((show e.armed = false from h).symm.trans ha) Bool.false_ne_true

theorem SubSide.Built.ready {s : SubSide} (h : s.Built) (ha : s.endpoint.armed = true) :
    s.endpoint.reachesEngine = true ∧ (s.endpoint.ready = true ↔
      (match s.pc with
        | .createReader pc => pc.filled
        | _ => s.pingR) = true) := by
  obtain ⟨pc, e, ctx, pongW, pingR⟩ := s
  cases pc with
  | init | createWriter => exact absurd ((congrArg Endpoint.armed h).symm.trans ha) Bool.false_ne_true
  | createReader pc => exact ready_iff_filled h ha
  | checkEndpoints | shutdown => exact Endpoint.Made.ready_iff h ha
  | waitMatch | reset | run => exact Endpoint.Made.ready_iff h.1 ha
  | returned => exact absurd ((show e.armed = false from h).symm.trans ha) Bool.false_ne_true

theorem pubSafe_iff_inTime {s : PubSide} (h : s.Built) (e : SetupEvent) : s.Safe e ↔ s.InTime e := by
  cases e with
  | main ok | matched change => exact Iff.rfl
  | data now x =>
    refine forall_congr' fun ha => ?_
    obtain ⟨hreach, hready⟩ := h.ready ha
    have hsem := h.semaphore ha
    simp only [hreach, forall_const, hready, hsem]

theorem subSafe_iff_inTime {s : SubSide} (h : s.Built) (e : SetupEvent) :
    s.Safe T e ↔ s.InTime e := by
  cases e with
  | main ok | matched change => exact Iff.rfl
  | data now x =>
    refine forall_congr' fun ha => ?_
    obtain ⟨hreach, hready⟩ := h.ready ha
    simp only [hreach, forall_const, hready]
    refine and_congr_right fun _ => forall₂_congr fun y _ => ?_
    rw [subOnSample_echo]
    cases hk : y.kind <;> simp

/-- **Callbacks on half-built state.** For every build of the middleware, every outcome of the creation
calls and every interleaving, no callback of the publisher and no callback of the subscriber finds
anything missing if and only if each comes in time. -/
theorem callbacks_safe_iff (dpse : Bool) (cfg : Config) (args : InputArgs) (T : TypeInterface)
    (es : List SetupEvent) :
    (Along (pubSetupStep dpse cfg args) PubSide.Safe pubSideInit es ↔
      Along (pubSetupStep dpse cfg args) PubSide.InTime pubSideInit es) ∧
    (Along (subSetupStep dpse T) (SubSide.Safe T) subSideInit es ↔
      Along (subSetupStep dpse T) SubSide.InTime subSideInit es) :=
  ⟨along_congr (I := PubSide.Built) (fun _ _ _ h hs => pubBuilt_step h hs)
      (fun _ e h => pubSafe_iff_inTime h e) pubBuilt_init es,
    along_congr (I := SubSide.Built) (fun _ _ _ h hs => subBuilt_step h hs)
      (fun _ e h => subSafe_iff_inTime h e) subBuilt_init es⟩

/-! ## From setup to measurement -/

/-- At most pongs of the warm-up burst. -/
def OnlyWarmup : SetupEvent → Prop
  | .data _ x => ∀ y ∈ x, y.kind = .initialization
  | _ => True

/-- The context at each statement of the publisher, while no other pong has come. -/
def PubSide.Fresh (args : InputArgs) (s : PubSide) : Prop :=
  match s.pc with
  | .init | .createWriter | .createReader _ | .checkEndpoints | .semaphoreNew =>
    ∃ n, s.ctx = { PubCtx.zero with matchedPubs := n }
  | .allocHistory => ∃ n, s.ctx = { PubCtx.zero with matchedPubs := n, latencySem := .live false }
  | .createSample | .waitMatch => ∃ n, ∃ history : Bool, s.ctx = { PubCtx.zero with
      matchedPubs := n, latencySem := .live false, latHistory := if history then some [] else none }
  | .openLog => ∃ n, ∃ history : Bool, s.ctx = { PubCtx.zero with
      matchedPubs := n, latencySem := .live false, latHistory := if history then some [] else none
      latencyStream := args.latencyStream }
  | .run => ∃ n history, s.ctx = pubCtxInit args history n
  | .destroySample | .shutdown _ | .closeLog | .semaphoreDelete _ | .freeHistory | .returned => True

/-- A callback that changes at most the number of matches. -/
theorem PubSide.Fresh.callback {s : PubSide} (h : s.Fresh args) {c : PubCtx} {n : ℤ}
    (hc : c = { s.ctx with matchedPubs := n }) : PubSide.Fresh args { s with ctx := c } := by
  subst hc
  obtain ⟨pc, e, ctx, pingW, pongR⟩ := s
  cases pc with
  | init | createWriter | createReader | checkEndpoints | semaphoreNew | allocHistory =>
    obtain ⟨m, rfl⟩ := h
    exact ⟨n, rfl⟩
  | createSample | waitMatch | openLog | run =>
    obtain ⟨m, history, rfl⟩ := h
    exact ⟨n, history, rfl⟩
  | destroySample | shutdown | closeLog | semaphoreDelete | freeHistory | returned => trivial

theorem PubSide.Fresh.main {s s' : PubSide} {ok : Bool} (h : s.Fresh args)
    (hs : perftestLitePublisher dpse cfg args ok s = some s') : s'.Fresh args := by
  obtain ⟨pc, e, ctx, pingW, pongR⟩ := s
  cases pc with
  | init =>
    cases hs
    cases ok with
    | true => exact h
    | false => trivial
  | createWriter =>
    cases hs
    exact h
  | createReader pc =>
    rcases pubCreateReader_cases hs with ⟨reader, rfl, rfl⟩ | ⟨pc', e', -, rfl⟩
    · exact h
    · exact h
  | checkEndpoints =>
    simp only [perftestLitePublisher, Option.some.injEq] at hs
    subst hs
    unfold PubSide.Fresh
    dsimp only
    split_ifs
    · exact h
    · trivial
  | semaphoreNew =>
    cases ok with
    | true =>
      cases hs
      obtain ⟨n, rfl⟩ := h
      exact ⟨n, rfl⟩
    | false =>
      cases hs
      trivial
  | allocHistory =>
    cases hs
    obtain ⟨n, rfl⟩ := h
    exact ⟨n, _, rfl⟩
  | createSample =>
    cases hs
    cases ok with
    | true => exact h
    | false => trivial
  | waitMatch =>
    simp only [perftestLitePublisher] at hs
    split_ifs at hs
    · cases hs
      exact h
    · cases hs
      obtain ⟨n, history, rfl⟩ := h
      exact ⟨n, history, rfl⟩
  | openLog =>
    simp only [perftestLitePublisher] at hs
    split_ifs at hs with hlog hok
    · cases hs
      obtain ⟨n, history, rfl⟩ := h
      exact ⟨n, history, by simp [pubCtxInit, PubCtx.zero, hlog]⟩
    · cases hs
      trivial
    · cases hs
      obtain ⟨n, history, rfl⟩ := h
      exact ⟨n, history, by simp [pubCtxInit, PubCtx.zero, hlog]⟩
  | run | destroySample | closeLog | freeHistory =>
    cases hs
    trivial
  | shutdown exit =>
    cases hs
    cases exit <;> trivial
  | semaphoreDelete exit =>
    cases hs
    cases exit <;> trivial
  | returned => cases hs

theorem pubFresh_step {s s' : PubSide} {e : SetupEvent} (h : s.Fresh args) (he : OnlyWarmup e)
    (hs : pubSetupStep dpse cfg args s e = some s') : s'.Fresh args := by
  cases e with
  | main ok => exact h.main hs
  | data now x =>
    simp only [pubSetupStep, Option.ite_none_right_eq_some, Option.some.injEq] at hs
    rw [← hs.2]
    refine h.callback (n := s.ctx.matchedPubs) ?_
    cases x with
    | none => exact ite_self _
    | some y => simp [pubOnPongSample, he y rfl]
  | matched change =>
    simp only [pubSetupStep, Option.ite_none_right_eq_some, Option.some.injEq] at hs
    rw [← hs.2]
    refine h.callback (n := (pubOnReaderMatched change s.ctx).matchedPubs) ?_
    unfold pubOnReaderMatched
    split_ifs <;> rfl

/-- **The measurement starts from `pubCtxInit`**, if no pong but those of a warm-up burst has come. -/
theorem setup_run {es : List SetupEvent} {s : PubSide}
    (hrun : exec (pubSetupStep dpse cfg args) pubSideInit es = some s) (hes : ∀ e ∈ es, OnlyWarmup e)
    (hpc : s.pc = .run) : ∃ n history, s.ctx = pubCtxInit args history n := by
  have h : s.Fresh args := exec_invariant_along (I := PubSide.Fresh args)
    (fun _ _ _ h he hs => pubFresh_step h he hs) hrun (along_of_forall hes _) ⟨0, rfl⟩
  unfold PubSide.Fresh at h
  rw [hpc] at h
  exact h

end

/-! ## Callbacks that come too early -/

instance (s : PubSide) (e : SetupEvent) : Decidable (s.Safe e) := by
  cases e <;> unfold PubSide.Safe <;> infer_instance

instance (T : TypeInterface) (s : SubSide) (e : SetupEvent) : Decidable (s.Safe T e) := by
  cases e <;> unfold SubSide.Safe <;> infer_instance

/-- Up to the return of `DDS_Subscriber_create_datareader`. -/
def armedReader : List SetupEvent := List.replicate 6 (.main true)

/-- Up to the call of `semaphore_new`. -/
def builtReader : List SetupEvent := List.replicate 12 (.main true)

/-- The pong writer is not created, the ping reader is. -/
def noWriter : List SetupEvent := [.main true, .main false] ++ List.replicate 8 (.main true)

/-- A sample of the given kind. -/
def sampleOfKind (kind : PerftestTypeKind) : PerftestSample := ⟨1, kind, 1000000, ⟨64000, 72⟩⟩

/-- With the defaults: a callback right after the reader was created, a pong before the semaphore was
created, a sample to be echoed without a writer. -/
theorem callback_finds_nothing :
    ¬ Along (pubSetupStep false defaultConfig publisherDefaults) PubSide.Safe pubSideInit
        (armedReader ++ [.data 1000100 none]) ∧
      ¬ Along (pubSetupStep false defaultConfig publisherDefaults) PubSide.Safe pubSideInit
        (builtReader ++ [.data 1000100 (some (sampleOfKind .dataPing))]) ∧
      ¬ Along (subSetupStep false sequenceType) (SubSide.Safe sequenceType) subSideInit
        (noWriter ++ [.data 1000100 (some (sampleOfKind .initialization))]) := by
  decide +kernel

end PerftestLite
