import PerftestLite.Core.SubscriberRun
import PerftestLite.Lifecycle.Release

/-!
# A run from the outside

`perftest_lite_main`: the dispatch to an engine, and the engine to its return, with the caller's results.
The publisher is `pubRunStep`; the subscriber is `subRunStep` around the measurement of `subStep`, from
the match poll to the capture.

* `resultsInit`, `perftestLiteMain`;
* `pubEngineStep`, `subEngineStep`: the engines and where the results go;
* `mainInit`, `mainStep`: a whole run.
-/

set_option autoImplicit false

namespace PerftestLite

open Machine

/-- `perftest_lite_results_init`; a null `storage` is `none`. -/
def resultsInit (storage : Option (List SizeResult)) (capacity : ℤ)
    (h : ∀ l, storage = some l → capacity ≤ l.length) : Results where
  sizeCount := 0
  sizeCapacity := capacity
  sizes := storage
  storage := h

/-- The engines the binary was built with. -/
structure Engines where
  buildPub : Bool
  buildSub : Bool
  deriving DecidableEq, Repr

/-- `perftest_lite_main`: the engine it calls, or none where it returns `PERFTEST_LITE_ERR_BAD_ARGS`. -/
def perftestLiteMain (engines : Engines) (T : TypeInterface) (args : InputArgs) : Option Role :=
  if T.validateInput args then
    match args.role with
    | .publisher => if engines.buildPub then some .publisher else none
    | .subscriber => if engines.buildSub then some .subscriber else none
  else none

/-! ## The publisher -/

/-- The publisher and the caller's results. -/
structure PubEngine where
  run : PubRun
  results : Option Results

/-- One step of the publisher. What the measurement does to the results stays. -/
def pubEngineStep (b : Build) (T : TypeInterface) (cfg : Config) (args : InputArgs) (s : PubEngine)
    (e : PubRunEvent) : Option PubEngine :=
  (pubRunStep b T cfg args s.results s.run e).map fun run =>
    { run := run, results := (run.loop.map PubState.results).getD s.results }

/-! ## The subscriber -/

/-- The subscriber, its measurement while it runs, and the caller's results. -/
structure SubEngine where
  run : SubRun
  loop : Option SubState
  results : Option Results

/-- `mw->init`, a statement or callback of the setup and the teardown, a statement or callback of the
measurement. -/
inductive SubEngineEvent
  | run (e : SubRunEvent)
  | loop (e : ℕ × SubAction)

/-- One step of the subscriber. The measurement takes over at the match poll, with the context the
callbacks have left so far, and ends with the capture. -/
def subEngineStep (b : Build) (T : TypeInterface) (args : InputArgs) (s : SubEngine) :
    SubEngineEvent → Option SubEngine
  | .run (.setup (.main ok)) =>
    if s.loop.isSome then none
    else if s.run.side.pc = .waitMatch then
      some { s with loop := some { subInit s.results with ctx := s.run.side.ctx } }
    else (subRunStep b T args s.run (.setup (.main ok))).map fun run => { s with run := run }
  | .run e =>
    if s.loop.isSome then none
    else (subRunStep b T args s.run e).map fun run => { s with run := run }
  | .loop e =>
    s.loop.bind fun q => (subStep T args q e).map fun q' =>
      if q'.pc = .shutdown then
        { run := { s.run with side := { s.run.side with pc := .shutdown, ctx := q'.ctx } }
          loop := none
          results := q'.results }
      else { s with loop := some q', results := q'.results }

/-! ## Whole runs -/

/-- A run of `perftest_lite_main`: refused, or in the engine it called. -/
inductive MainState
  | refused (results : Option Results)
  | publisher (s : PubEngine)
  | subscriber (s : SubEngine)

/-- The caller's results. -/
def MainState.results : MainState → Option Results
  | .refused results => results
  | .publisher s => s.results
  | .subscriber s => s.results

inductive MainEvent
  | publisher (e : PubRunEvent)
  | subscriber (e : SubEngineEvent)

/-- The call of `perftest_lite_main` in a process whose middleware singleton is `mw`. -/
def mainInit (engines : Engines) (T : TypeInterface) (args : InputArgs) (mw : MicroMW)
    (results : Option Results) : MainState :=
  match perftestLiteMain engines T args with
  | none => .refused results
  | some .publisher => .publisher ⟨pubRunInit mw, results⟩
  | some .subscriber => .subscriber ⟨subRunInit mw, none, results⟩

/-- One step of the engine. -/
def mainStep (b : Build) (T : TypeInterface) (cfg : Config) (args : InputArgs) :
    MainState → MainEvent → Option MainState
  | .publisher s, .publisher e => (pubEngineStep b T cfg args s e).map .publisher
  | .subscriber s, .subscriber e => (subEngineStep b T args s e).map .subscriber
  | _, _ => none

end PerftestLite
