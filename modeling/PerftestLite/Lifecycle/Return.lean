import PerftestLite.Lib.Observer
import PerftestLite.Result.Storage

/-!
# What a run returns

The return code of an engine, decided where it turns back: at a failed `mw->init`, and at the `shutdown` of
each exit. A run that returns `PERFTEST_LITE_OK` has stored one result; any other leaves the caller's
results as they were.

* `Retcode`, `pubReturns`, `subReturns`, `mainReturns`;
* `Stored`, `Outcome`, `PubEngine.Tells`, `SubEngine.Tells`: what is known at each statement;
* `main_ok_iff_stored`.
-/

set_option autoImplicit false

namespace PerftestLite

open Machine

/-- `PerftestLiteRetcode`. -/
inductive Retcode
  | ok
  | badArgs
  | os
  | middleware
  | type
  | timeout
  | internal
  deriving DecidableEq, Repr

/-- The values of the enumeration. -/
def Retcode.value : Retcode → ℤ
  | .ok => 0
  | .badArgs => -1
  | .os => -2
  | .middleware => -3
  | .type => -4
  | .timeout => -5
  | .internal => -6

/-- The code each exit of the publisher returns. -/
def PubExit.retcode : PubExit → Retcode
  | .endpoints => .middleware
  | .semaphore => .os
  | .sample => .type
  | .log => .os
  | .finished => .ok

/-- The code `perftest_lite_publisher` is going to return, after one more step. -/
def pubReturns (b : Build) (args : InputArgs) (s : PubEngine) (code : Option Retcode) :
    PubRunEvent → Option Retcode
  | .init calls => if (microInit b calls args.transportId s.run.mw).1 then code else some .middleware
  | .setup (.main _) =>
    match s.run.side.pc with
    | .shutdown exit => some exit.retcode
    | _ => code
  | _ => code

/-- The code `perftest_lite_subscriber` is going to return, after one more step. Its two calls of
`shutdown` are told apart by the endpoints. -/
def subReturns (b : Build) (args : InputArgs) (s : SubEngine) (code : Option Retcode) :
    SubEngineEvent → Option Retcode
  | .run (.init calls) => if (microInit b calls args.transportId s.run.mw).1 then code else some .middleware
  | .run (.setup (.main _)) =>
    match s.run.side.pc with
    | .shutdown => some (if s.run.side.pongW && s.run.side.pingR then .ok else .middleware)
    | _ => code
  | _ => code

/-- The code `perftest_lite_main` is going to return, after one more step. -/
def mainReturns (b : Build) (args : InputArgs) (s : MainState) (code : Option Retcode) (e : MainEvent) :
    Option (Option Retcode) :=
  match s, e with
  | .publisher s, .publisher e => some (pubReturns b args s code e)
  | .subscriber s, .subscriber e => some (subReturns b args s code e)
  | _, _ => some code

/-- The code at the call: arguments that are refused return at once. -/
def mainCode : MainState → Option Retcode
  | .refused _ => some .badArgs
  | .publisher _ | .subscriber _ => none

/-- `perftest_lite_main` has returned. -/
def MainState.returned : MainState → Bool
  | .refused _ => true
  | .publisher s => decide (s.run.side.pc = .returned)
  | .subscriber s => decide (s.run.side.pc = .returned)

/-! ## What is known at each statement -/

variable {b : Build} {T : TypeInterface} {cfg : Config} {args : InputArgs} {r : Results}
  {results : Option Results} {code : Option Retcode}

/-- One result has been stored. -/
def Stored (r : Results) (results : Option Results) : Prop := ∃ w, results = some (r.push w)

/-- `PERFTEST_LITE_OK` with a result, or another code with the caller's results. -/
def Outcome (r : Results) (results : Option Results) (code : Option Retcode) : Prop :=
  code = some .ok ∧ Stored r results ∨ ∃ c, c ≠ .ok ∧ code = some c ∧ results = some r

theorem Outcome.ok (h : Stored r results) : Outcome r results (some .ok) := .inl ⟨rfl, h⟩

theorem Outcome.failed {c : Retcode} (hc : c ≠ .ok) (h : results = some r) : Outcome r results (some c) :=
  .inr ⟨c, hc, rfl, h⟩

/-- What is known before a statement of the publisher outside the measurement. -/
def PubSetup.Tells (r : Results) (results : Option Results) (code : Option Retcode) : PubSetup → Prop
  | .destroySample | .shutdown .finished => code = none ∧ Stored r results
  | .closeLog | .semaphoreDelete .finished => code = some .ok ∧ Stored r results
  | .semaphoreDelete exit => code = some exit.retcode ∧ results = some r
  | .freeHistory | .returned => Outcome r results code
  | _ => code = none ∧ results = some r

/-- The measurement has stored its result. -/
def PubPc.stored : PubPc → Bool
  | .final _ | .finalSleep _ | .shutdown | .done => true
  | _ => false

/-- What is known before a statement of the publisher. -/
structure PubEngine.Tells (r : Results) (s : PubEngine) (code : Option Retcode) : Prop where
  idle : s.run.loop = none → s.run.side.pc.Tells r s.results code
  measuring : ∀ p, s.run.loop = some p → s.run.side.pc = .run ∧ code = none ∧ p.results = s.results ∧
    if p.pc.stored then Stored r p.results else p.results = some r

/-- What is known before a statement of the subscriber outside the measurement, which takes the place of
`reset` and `run`. -/
def SubSide.Tells (r : Results) (results : Option Results) (code : Option Retcode) (s : SubSide) : Prop :=
  match s.pc with
  | .reset | .run => False
  | .waitMatch => code = none ∧ results = some r ∧ (s.pongW && s.pingR) = true
  | .shutdown => code = none ∧ if s.pongW && s.pingR then Stored r results else results = some r
  | .returned => Outcome r results code
  | _ => code = none ∧ results = some r

/-- What is known before a statement of the subscriber. -/
structure SubEngine.Tells (r : Results) (s : SubEngine) (code : Option Retcode) : Prop where
  idle : s.loop = none → s.run.side.Tells r s.results code
  measuring : ∀ q, s.loop = some q → s.run.side.pc = .waitMatch ∧ code = none ∧ s.results = some r ∧
    q.results = some r ∧ q.pc.captured = false ∧ (s.run.side.pongW && s.run.side.pingR) = true

/-- What is known before any statement. -/
def MainState.Tells (r : Results) : MainState → Option Retcode → Prop
  | .refused results, code => code = some .badArgs ∧ results = some r
  | .publisher s, code => s.Tells r code
  | .subscriber s, code => s.Tells r code

/-! ## The publisher -/

/-- One statement of the publisher outside the measurement. -/
theorem pubStatement_tells {dpse ok : Bool} {s s' : PubSide} (hinit : s.pc ≠ .init) (hrun : s.pc ≠ .run)
    (h : s.pc.Tells r results code) (hs : perftestLitePublisher dpse cfg args ok s = some s') :
    s'.pc.Tells r results (match s.pc with
      | .shutdown exit => some exit.retcode
      | _ => code) := by
  obtain ⟨pc, e, ctx, pingW, pongR⟩ := s
  cases pc with
  | init => exact absurd rfl hinit
  | run => exact absurd rfl hrun
  | createReader pc =>
    rcases pubCreateReader_cases hs with ⟨reader, rfl, rfl⟩ | ⟨pc', e', hq, rfl⟩
    · exact h
    · exact h
  | createWriter | allocHistory | destroySample =>
    cases hs
    exact h
  | checkEndpoints =>
    cases hs
    dsimp only
    split_ifs
    · exact h
    · exact h
  | semaphoreNew | createSample =>
    cases ok <;> cases hs <;> exact h
  | waitMatch =>
    simp only [perftestLitePublisher] at hs
    split_ifs at hs <;> cases hs <;> exact h
  | openLog =>
    simp only [perftestLitePublisher] at hs
    split_ifs at hs <;> cases hs <;> exact h
  | shutdown exit =>
    cases hs
    cases exit with
    | endpoints | semaphore => exact .failed (by decide) h.2
    | sample | log => exact ⟨rfl, h.2⟩
    | finished => exact ⟨rfl, h.2⟩
  | closeLog =>
    cases hs
    exact h
  | semaphoreDelete exit =>
    cases hs
    cases exit with
    | endpoints | semaphore | sample | log => exact h.1 ▸ .failed (by decide) h.2
    | finished => exact h.1 ▸ .ok h.2
  | freeHistory =>
    cases hs
    exact h
  | returned => cases hs

/-- A statement of the measurement stores the result where it reports. -/
theorem reported_stored {p p' : PubState} {e : ℕ × PubAction} (hroom : r.hasRoom = true)
    (h : if p.pc.stored then Stored r p.results else p.results = some r)
    (hs : pubStep T cfg args p e = some p') :
    if p'.pc.stored then Stored r p'.results else p'.results = some r := by
  obtain ⟨now, act⟩ := e
  cases act with
  | pong x | matched change =>
    simp only [pubStep, Option.ite_none_left_eq_some, Option.some.injEq] at hs
    rw [← hs.2]
    exact h
  | main ok =>
    cases pubMain_cases hs with
    | report hpc =>
      rw [hpc] at h
      rw [show p.results = some r from h]
      exact ⟨fun _ => p.tmp, by simp [appendResult, hroom]⟩
    | warmup hpc | burst _ hpc _ | burstEnd _ hpc _ | settle hpc | reset hpc | begin hpc | again hpc _
    | leave hpc _ | prepare hpc | writeWait hpc _ _ _ | writeOn hpc _ | taken _ hpc _ _
    | expired _ hpc _ _ _ | sleep hpc | tick hpc _ | tickLine hpc _ _ | line _ _ hpc _ | lineEnd _ hpc _
    | finish _ _ hpc _ | finishEnd _ hpc _ | final _ hpc _ _ | finalEnd _ hpc _ | finalSleep _ hpc
    | shutdown hpc =>
      rw [hpc] at h
      exact h

/-- The finalization loop comes after the report. -/
theorem stored_of_shutdown {p p' : PubState} {e : ℕ × PubAction} (hs : pubStep T cfg args p e = some p')
    (hpc : p'.pc = .shutdown) : p.pc.stored = true := by
  obtain ⟨now, act⟩ := e
  cases act with
  | pong x | matched change =>
    simp only [pubStep, Option.ite_none_left_eq_some, Option.some.injEq] at hs
    rw [← hs.2] at hpc
    rw [show p.pc = .shutdown from hpc]
    rfl
  | main ok =>
    cases pubMain_cases hs with
    | finalEnd _ hfinal _ =>
      rw [hfinal]
      rfl
    | _ => cases hpc

/-- The publisher outside the measurement, with the results it had. -/
theorem PubEngine.Tells.outside {s : PubEngine} {run : PubRun} (hl : run.loop = none)
    (h : run.side.pc.Tells r s.results code) :
    PubEngine.Tells r ⟨run, (run.loop.map PubState.results).getD s.results⟩ code := by
  rw [hl]
  exact ⟨fun _ => h, fun p hp => absurd (hl.symm.trans hp) (by simp)⟩

/-- **One step of the publisher keeps what is known.** -/
theorem pubEngine_tells {s s' : PubEngine} {e : PubRunEvent} (hroom : r.hasRoom = true)
    (h : s.Tells r code) (hs : pubEngineStep b T cfg args s e = some s') :
    s'.Tells r (pubReturns b args s code e) := by
  obtain ⟨run, hrun, rfl⟩ := Option.map_eq_some_iff.mp hs
  have hnone : s.run.side.pc ≠ .run → s.run.loop = none := fun hpc => by
    cases hp : s.run.loop with
    | none => rfl
    | some p => exact absurd (h.measuring p hp).1 hpc
  cases e with
  | init calls =>
    simp only [pubRunStep, Option.ite_none_right_eq_some, Option.map_eq_some_iff] at hrun
    obtain ⟨hpc, side, hside, rfl⟩ := hrun
    simp only [perftestLitePublisher, hpc, Option.some.injEq] at hside
    have hl := hnone (by rw [hpc]; exact PubSetup.noConfusion)
    have ht := h.idle hl
    rw [hpc] at ht
    refine .outside hl ?_
    rw [← hside]
    change PubSetup.Tells r s.results (if _ then code else some .middleware) (if _ then _ else _)
    split_ifs
    · exact ht
    · exact .failed (by decide) ht.2
  | setup e =>
    cases e with
    | main ok =>
      simp only [pubRunStep, Option.ite_none_left_eq_some, not_or] at hrun
      obtain ⟨⟨hinit, hl⟩, hrun⟩ := hrun
      have hl : s.run.loop = none := by simpa using hl
      have ht := h.idle hl
      by_cases hpc : s.run.side.pc = .run
      · -- the measurement begins
        rw [if_pos hpc] at hrun
        cases hrun
        rw [hpc] at ht
        have hcode : pubReturns b args s code (.setup (.main ok)) = code := by
          simp only [pubReturns, hpc]
        rw [hcode]
        exact ⟨fun hn => absurd hn (by simp), fun p hp => Option.some.inj hp ▸ ⟨hpc, ht.1, rfl, ht.2⟩⟩
      · rw [if_neg hpc] at hrun
        obtain ⟨side, hside, rfl⟩ := Option.map_eq_some_iff.mp hrun
        exact .outside hl (pubStatement_tells hinit hpc ht hside)
    | data now x | matched change =>
      simp only [pubRunStep, Option.ite_none_left_eq_some] at hrun
      obtain ⟨hl, hrun⟩ := hrun
      have hl : s.run.loop = none := by simpa using hl
      obtain ⟨side, hside, rfl⟩ := Option.map_eq_some_iff.mp hrun
      simp only [pubSetupStep, Option.ite_none_right_eq_some, Option.some.injEq] at hside
      rw [← hside.2]
      exact .outside hl (h.idle hl)
  | loop e =>
    obtain ⟨p, hp, hrun⟩ := Option.bind_eq_some_iff.mp hrun
    obtain ⟨p', hp', rfl⟩ := Option.map_eq_some_iff.mp hrun
    obtain ⟨hpc, hcode, hown, hstored⟩ := h.measuring p hp
    have hnext := reported_stored hroom hstored hp'
    by_cases hend : p'.pc = .shutdown
    · rw [if_pos hend]
      rw [if_pos (stored_of_shutdown hp' hend), hown] at hstored
      exact ⟨fun _ => ⟨hcode, hstored⟩, fun q hq => absurd hq (by simp)⟩
    · rw [if_neg hend]
      exact ⟨fun hn => absurd hn (by simp), fun q hq => Option.some.inj hq ▸ ⟨hpc, hcode, rfl, hnext⟩⟩

/-! ## The subscriber -/

/-- One statement of the subscriber outside the measurement. -/
theorem subStatement_tells {dpse ok : Bool} {s s' : SubSide} (hinit : s.pc ≠ .init)
    (hwait : s.pc ≠ .waitMatch) (h : s.Tells r results code)
    (hs : perftestLiteSubscriber dpse ok s = some s') :
    s'.Tells r results (match s.pc with
      | .shutdown => some (if s.pongW && s.pingR then .ok else .middleware)
      | _ => code) := by
  obtain ⟨pc, e, ctx, pongW, pingR⟩ := s
  cases pc with
  | init => exact absurd rfl hinit
  | waitMatch => exact absurd rfl hwait
  | createReader pc =>
    rcases subCreateReader_cases hs with ⟨reader, rfl, rfl⟩ | ⟨pc', e', hq, rfl⟩
    · exact h
    · exact h
  | createWriter =>
    cases hs
    exact h
  | checkEndpoints =>
    cases hs
    by_cases hends : (pongW && pingR) = true
    · simp only [SubSide.Tells, hends, if_true]
      exact ⟨h.1, h.2, trivial⟩
    · simp only [SubSide.Tells, Bool.eq_false_of_not_eq_true hends, Bool.false_eq_true, if_false]
      exact h
  | reset | run => exact False.elim h
  | shutdown =>
    cases hs
    obtain ⟨-, hres⟩ := h
    dsimp only at hres ⊢
    by_cases hends : (pongW && pingR) = true
    · rw [if_pos hends] at hres ⊢
      exact .ok hres
    · rw [if_neg hends] at hres ⊢
      exact .failed (by decide) hres
  | returned => cases hs

/-- A statement or callback of the subscriber outside the measurement. -/
theorem subRun_tells {s s' : SubRun} {e : SubRunEvent}
    (hwait : ∀ ok, e = .setup (.main ok) → s.side.pc ≠ .waitMatch)
    (h : s.side.Tells r results code) (hs : subRunStep b T args s e = some s') (loop : Option SubState) :
    s'.side.Tells r results (subReturns b args ⟨s, loop, results⟩ code (.run e)) := by
  cases e with
  | init calls =>
    simp only [subRunStep, Option.ite_none_right_eq_some, Option.map_eq_some_iff] at hs
    obtain ⟨hpc, side, hside, rfl⟩ := hs
    simp only [perftestLiteSubscriber, hpc, Option.some.injEq] at hside
    simp only [SubSide.Tells, hpc] at h
    rw [← hside]
    cases hinit : (microInit b calls args.transportId s.mw).1 with
    | true =>
      simp only [subReturns, hinit, if_true, SubSide.Tells]
      exact h
    | false =>
      simp only [subReturns, hinit, Bool.false_eq_true, if_false, SubSide.Tells]
      exact .failed (by decide) h.2
  | setup e =>
    cases e with
    | main ok =>
      simp only [subRunStep, Option.ite_none_left_eq_some] at hs
      obtain ⟨hinit, hs⟩ := hs
      -- the singleton and the ledger apart, both branches are the statement
      have hside : ∃ side, perftestLiteSubscriber b.dpse ok s.side = some side ∧ s'.side = side := by
        split_ifs at hs
        · obtain ⟨side, hside, rfl⟩ := Option.map_eq_some_iff.mp hs
          exact ⟨side, hside, rfl⟩
        · obtain ⟨side, hside, rfl⟩ := Option.map_eq_some_iff.mp hs
          exact ⟨side, hside, rfl⟩
      obtain ⟨side, hside, rfl⟩ := hside
      exact subStatement_tells hinit (hwait ok rfl) h hside
    | data now x | matched change =>
      obtain ⟨c, rfl⟩ := subRun_callback (by simp) hs
      exact h

/-- **One step of the subscriber keeps what is known.** -/
theorem subEngine_tells {s s' : SubEngine} {e : SubEngineEvent} (hroom : r.hasRoom = true)
    (h : s.Tells r code) (hs : subEngineStep b T args s e = some s') :
    s'.Tells r (subReturns b args s code e) := by
  cases e with
  | run e =>
    have hloop : s.loop = none := by
      cases hq : s.loop with
      | none => rfl
      | some q => cases e with
        | init calls => simp [subEngineStep, hq] at hs
        | setup e => cases e <;> simp [subEngineStep, hq] at hs
    have ht := h.idle hloop
    by_cases hwait : ∃ ok, e = .setup (.main ok) ∧ s.run.side.pc = .waitMatch
    · -- the measurement begins
      obtain ⟨ok, rfl, hpc⟩ := hwait
      simp only [subEngineStep, hloop, Option.isSome_none, Bool.false_eq_true, if_false, hpc, if_true,
        Option.some.injEq] at hs
      simp only [SubSide.Tells, hpc] at ht
      have hcode : subReturns b args s code (.run (.setup (.main ok))) = code := by
        simp only [subReturns, hpc]
      rw [hcode, ← hs]
      exact ⟨fun hn => absurd hn (by simp),
        fun q hq => Option.some.inj hq ▸ ⟨hpc, ht.1, ht.2.1, ht.2.1, rfl, ht.2.2⟩⟩
    · have hstep : ∃ run, subRunStep b T args s.run e = some run ∧ s' = { s with run := run } := by
        cases e with
        | init calls =>
          simp only [subEngineStep, hloop, Option.isSome_none, Bool.false_eq_true, if_false,
            Option.map_eq_some_iff] at hs
          obtain ⟨run, hrun, rfl⟩ := hs
          exact ⟨run, hrun, by rw [hloop]⟩
        | setup e =>
          cases e with
          | main ok =>
            have hpc : s.run.side.pc ≠ .waitMatch := fun hpc => hwait ⟨ok, rfl, hpc⟩
            simp only [subEngineStep, hloop, Option.isSome_none, Bool.false_eq_true, if_false, hpc,
              Option.map_eq_some_iff] at hs
            obtain ⟨run, hrun, rfl⟩ := hs
            exact ⟨run, hrun, by rw [hloop]⟩
          | data now x | matched change =>
            simp only [subEngineStep, hloop, Option.isSome_none, Bool.false_eq_true, if_false,
              Option.map_eq_some_iff] at hs
            obtain ⟨run, hrun, rfl⟩ := hs
            exact ⟨run, hrun, by rw [hloop]⟩
      obtain ⟨run, hrun, rfl⟩ := hstep
      exact ⟨fun _ => subRun_tells (fun ok he hpc => hwait ⟨ok, he, hpc⟩) ht hrun s.loop,
        fun q hq => absurd (hloop.symm.trans hq) (by simp)⟩
  | loop e =>
    obtain ⟨q, hq, hs⟩ := Option.bind_eq_some_iff.mp hs
    obtain ⟨q', hq', rfl⟩ := Option.map_eq_some_iff.mp hs
    obtain ⟨hpc, hcode, hres, hown, hcaptured, hends⟩ := h.measuring q hq
    by_cases hend : q'.pc = .shutdown
    · rw [if_pos hend]
      refine ⟨fun _ => ?_, fun p hp => absurd hp (by simp)⟩
      obtain ⟨now, rfl, hcapture⟩ := capture_of_captured hcaptured (by rw [hend]; rfl) hq'
      simp only [subStep, subMain, hcapture, Option.some.injEq] at hq'
      have hstored : Stored r q'.results := by
        rw [← hq']
        exact ⟨subFillResult now q.ctx, by simp [subCapture, hown, hroom]⟩
      simp only [SubSide.Tells, hends, if_true]
      exact ⟨hcode, hstored⟩
    · rw [if_neg hend]
      have hcaptured' := not_captured_of_step hq' hcaptured hend
      have hown' := (results_step hcaptured' hq').2.trans hown
      exact ⟨fun hn => absurd hn (by simp),
        fun p hp => Option.some.inj hp ▸ ⟨hpc, hcode, hown', hown', hcaptured', hends⟩⟩

/-! ## Whole runs -/

variable {engines : Engines} {mw : MicroMW}

theorem mainInit_tells (r : Results) :
    (mainInit engines T args mw (some r)).Tells r (mainCode (mainInit engines T args mw (some r))) := by
  unfold mainInit
  cases perftestLiteMain engines T args with
  | none => exact ⟨rfl, rfl⟩
  | some role =>
    cases role with
    | publisher => exact ⟨fun _ => ⟨rfl, rfl⟩, fun p hp => absurd hp (by simp [pubRunInit])⟩
    | subscriber => exact ⟨fun _ => ⟨rfl, rfl⟩, fun q hq => absurd hq (by simp)⟩

/-- **One step of the run keeps what is known.** -/
theorem main_tells {s s' : MainState} {e : MainEvent} {code' : Option Retcode} (hroom : r.hasRoom = true)
    (h : s.Tells r code) (hs : mainStep b T cfg args s e = some s')
    (hcode : mainReturns b args s code e = some code') : s'.Tells r code' := by
  cases s with
  | refused res => cases e <;> cases hs
  | publisher s =>
    cases e with
    | publisher e =>
      obtain ⟨t, ht, rfl⟩ := Option.map_eq_some_iff.mp hs
      cases hcode
      exact pubEngine_tells hroom h ht
    | subscriber e => cases hs
  | subscriber s =>
    cases e with
    | publisher e => cases hs
    | subscriber e =>
      obtain ⟨t, ht, rfl⟩ := Option.map_eq_some_iff.mp hs
      cases hcode
      exact subEngine_tells hroom h ht

/-- A run of `perftest_lite_main` with the code it returns. -/
def mainRun (engines : Engines) (b : Build) (T : TypeInterface) (cfg : Config) (args : InputArgs)
    (mw : MicroMW) (results : Option Results) (es : List MainEvent) : Option (MainState × Option Retcode) :=
  exec (observed (mainStep b T cfg args) (mainReturns b args))
    (mainInit engines T args mw results, mainCode (mainInit engines T args mw results)) es

theorem mainRun_tells {es : List MainEvent} {s : MainState} (hroom : r.hasRoom = true)
    (hrun : mainRun engines b T cfg args mw (some r) es = some (s, code)) : s.Tells r code :=
  exec_invariant (I := fun q => q.1.Tells r q.2) (fun _ _ _ h hs =>
    main_tells hroom h (observed_eq_some.mp hs).1 (observed_eq_some.mp hs).2) hrun (mainInit_tells r)

/-- What is known at the return. -/
theorem MainState.Tells.outcome {s : MainState} (h : s.Tells r code) (hret : s.returned = true) :
    Outcome r s.results code := by
  cases s with
  | refused res => exact h.1 ▸ .failed (by decide) h.2
  | publisher s =>
    have hpc : s.run.side.pc = .returned := of_decide_eq_true hret
    cases hp : s.run.loop with
    | some p =>
      have hrun := (PubEngine.Tells.measuring h p hp).1
      rw [hpc] at hrun
      cases hrun
    | none =>
      have ht := PubEngine.Tells.idle h hp
      rw [hpc] at ht
      exact ht
  | subscriber s =>
    have hpc : s.run.side.pc = .returned := of_decide_eq_true hret
    cases hq : s.loop with
    | some q =>
      have hwait := (SubEngine.Tells.measuring h q hq).1
      rw [hpc] at hwait
      cases hwait
    | none =>
      have ht := SubEngine.Tells.idle h hq
      simp only [SubSide.Tells, hpc] at ht
      exact ht

/-- **A run of `perftest_lite_main` that returns `PERFTEST_LITE_OK` has stored one result behind those of
the caller; a run that returns any other code has left the results as they were.** -/
theorem main_ok_iff_stored (engines : Engines) (b : Build) (T : TypeInterface) (cfg : Config)
    (args : InputArgs) (mw : MicroMW) {r : Results} (hroom : r.hasRoom = true) {es : List MainEvent}
    {s : MainState} {code : Option Retcode}
    (hrun : mainRun engines b T cfg args mw (some r) es = some (s, code)) (hret : s.returned = true) :
    ∃ c, code = some c ∧ (c = .ok ↔ Stored r s.results) ∧ (c ≠ .ok ↔ s.results = some r) := by
  -- a stored result is counted
  have hcount : ∀ w, some (r.push w) ≠ some r := fun w h => by
    have := congrArg Results.sizeCount (Option.some.inj h)
    change r.sizeCount + 1 = r.sizeCount at this
    omega
  rcases (mainRun_tells hroom hrun).outcome hret with ⟨rfl, hstored⟩ | ⟨c, hc, rfl, hres⟩
  · refine ⟨.ok, rfl, iff_of_true rfl hstored, iff_of_false (not_not.mpr rfl) fun h => ?_⟩
    obtain ⟨w, hw⟩ := hstored
    exact hcount w (hw.symm.trans h)
  · refine ⟨c, rfl, iff_of_false hc fun ⟨w, hw⟩ => ?_, iff_of_true hc hres⟩
    exact hcount w (hw.symm.trans hres)

/-- A subscriber from the call to the return, with a publisher that sends nothing but a `FINALIZATION`. -/
def emptyTestRun : List MainEvent :=
  (upToMatch plainBuild.dpse ++ emptyTest ++ [SubEngineEvent.run (.setup (.main true))]).map .subscriber

theorem main_ok_iff_stored_empty : ∃ s, mainRun ⟨true, true⟩ plainBuild sequenceType defaultConfig
    subscriberDefaults freshProcess (some (oneEntry .zero)) emptyTestRun = some (s, some .ok) ∧
      Stored (oneEntry .zero) s.results := by
  have hend : (mainRun ⟨true, true⟩ plainBuild sequenceType defaultConfig subscriberDefaults freshProcess
      (some (oneEntry .zero)) emptyTestRun).map (fun q => (q.1.returned, q.2)) =
        some (true, some .ok) := by
    decide +kernel
  obtain ⟨⟨s, code⟩, hs, heq⟩ := Option.map_eq_some_iff.mp hend
  obtain ⟨hret, rfl⟩ := Prod.mk.inj heq
  obtain ⟨c, hc, hok, -⟩ := main_ok_iff_stored ⟨true, true⟩ plainBuild sequenceType defaultConfig
    subscriberDefaults freshProcess (resultsInit_hasRoom le_rfl) hs hret
  exact ⟨s, hs, hok.mp (Option.some.inj hc).symm⟩

end PerftestLite
