import PerftestLite.Core.Args
import PerftestLite.Lifecycle.Return
import PerftestLite.Render.Table

/-!
# The command line program

`perftest_lite_main_cli`: parse the command line, run `perftest_lite_main` over results of one entry on the
stack, render them, return an exit code. The entry is not initialised.

* `CliRun`: what a run of the program leaves behind;
* `cli_exit_code`: the exit code is zero for help and for a test with one rendered result, and for nothing
  else;
* `cli_hides_storage`: what is rendered does not show what the stack held.
-/

set_option autoImplicit false

namespace PerftestLite

open Machine Delimited

/-- The renderer the binary was built with. -/
inductive RenderBuild
  | csv
  | table
  deriving DecidableEq, Repr

def RenderBuild.renderer : RenderBuild → Renderer Unit PrintState
  | .csv => csvRenderer
  | .table => tableRenderer

/-- The static role of the renderer is zero-initialised, which is the publisher. -/
def renderStart : PrintState := ⟨.publisher, []⟩

/-- What `perftest_lite_main_cli` renders. -/
def cliOutput (rb : RenderBuild) (args : InputArgs) (results : Option Results) : List Char :=
  (renderResults (some rb.renderer) () args.role args results renderStart).out

/-- `(r == PERFTEST_LITE_OK) ? PERFTEST_LITE_EXIT_SUCCESS : (int)(-r)`. -/
def exitCode (r : Retcode) : ℤ := if r = .ok then 0 else -r.value

/-- A program and the process it runs in. -/
structure Program where
  defaults : ArgDefaults
  engines : Engines
  build : Build
  type : TypeInterface
  cfg : Config
  render : RenderBuild
  mw : MicroMW

/-- `perftest_lite_main_cli`: the exit code and the rendered text of a run with the events `es`, the entry
on the stack holding `x`. -/
inductive CliRun (P : Program) (argv : List String) (x : SizeResult) :
    List MainEvent → ℤ → List Char → Prop
  | help : parseArguments P.type P.defaults argv = .help → CliRun P argv x [] 0 []
  | error (e : ParseError) : parseArguments P.type P.defaults argv = .error e → CliRun P argv x [] 1 []
  | ran (args : InputArgs) (es : List MainEvent) (s : MainState) (r : Retcode) :
      parseArguments P.type P.defaults argv = .ok args →
      mainRun P.engines P.build P.type P.cfg args P.mw (some (oneEntry x)) es = some (s, some r) →
      s.returned = true → CliRun P argv x es (exitCode r) (cliOutput P.render args s.results)

variable {P : Program} {argv : List String} {x y : SizeResult} {es : List MainEvent} {code : ℤ}
  {out : List Char} {args : InputArgs}

/-! ## Exit codes -/

theorem exitCode_eq_zero_iff {r : Retcode} : exitCode r = 0 ↔ r = .ok := by
  cases r <;> decide

theorem oneEntry_hasRoom (x : SizeResult) : (oneEntry x).hasRoom = true := resultsInit_hasRoom le_rfl

theorem rows_oneEntry (x : SizeResult) : (oneEntry x).rows = [] := rfl

theorem rows_push (x : SizeResult) (w : SizeResult → SizeResult) :
    ((oneEntry x).push w).rows = [w x] := rfl

/-- The rows a reader of the rendered text finds. -/
def RenderBuild.read : RenderBuild → Role → List Char → Option (List SizeResult)
  | .csv => readCsv
  | .table => readTable

/-- What the columns tell of a result. -/
def RenderBuild.reported : RenderBuild → Role → SizeResult → SizeResult
  | .csv => csvReported
  | .table => tableReported

theorem cliOutput_csv (args : InputArgs) (results : Results) :
    cliOutput .csv args (some results) = unlines '\n' ((csvHeader args.role).toList ::
      results.rows.map fun x => [','].intercalate (csvFields args.role x)) :=
  renderResults_csv () args.role args results renderStart

theorem cliOutput_table (args : InputArgs) (results : Results) :
    cliOutput .table args (some results) = unlines '\n' (tableLines args.role results.rows) :=
  renderResults_table () args.role args results renderStart

theorem read_cliOutput (rb : RenderBuild) (args : InputArgs) (results : Results) :
    rb.read args.role (cliOutput rb args (some results)) =
      some (results.rows.map (rb.reported args.role)) := by
  cases rb with
  | csv =>
    rw [cliOutput_csv]
    exact readCsv_lines args.role results.rows
  | table =>
    rw [cliOutput_table]
    exact readTable_lines args.role results.rows

/-- **The exit code is zero if and only if help was asked for or one result is rendered.** A command line
that is rejected renders nothing and gives one; a run that fails renders a header without rows and gives
the code of its failure. -/
theorem cli_exit_code (h : CliRun P argv x es code out) :
    (parseArguments P.type P.defaults argv = .help ∧ code = 0 ∧ out = []) ∨
    ((∃ e, parseArguments P.type P.defaults argv = .error e) ∧ code = 1 ∧ out = []) ∨
    ∃ args rows, parseArguments P.type P.defaults argv = .ok args ∧
      P.render.read args.role out = some rows ∧
      (code = 0 ∧ rows.length = 1 ∨ 1 ≤ code ∧ code ≤ 6 ∧ rows = []) := by
  cases h with
  | help hparse => exact .inl ⟨hparse, rfl, rfl⟩
  | error e hparse => exact .inr (.inl ⟨⟨e, hparse⟩, rfl, rfl⟩)
  | ran args es s r hparse hrun hret =>
    refine .inr (.inr ?_)
    rcases (mainRun_tells (oneEntry_hasRoom x) hrun).outcome hret with ⟨hr, w, hw⟩ | ⟨c, hc, hr, hres⟩
    · refine ⟨args, _, hparse, by rw [hw]; exact read_cliOutput P.render args _, .inl ⟨?_, ?_⟩⟩
      · exact exitCode_eq_zero_iff.mpr (Option.some.inj hr)
      · rw [rows_push]
        rfl
    · refine ⟨args, _, hparse, by rw [hres]; exact read_cliOutput P.render args _, .inr ?_⟩
      obtain rfl := Option.some.inj hr
      refine ⟨?_, ?_, by rw [rows_oneEntry]; rfl⟩
      · cases r <;> first | exact absurd rfl hc | decide
      · cases r <;> decide

/-- A subscriber that prints CSV. -/
def csvSubscriber : Program :=
  ⟨configDefaults .subscriber, ⟨true, true⟩, plainBuild, sequenceType, defaultConfig, .csv, freshProcess⟩

/-- Started without options, matched by a publisher that sends nothing but a `FINALIZATION`. -/
theorem cliRun_emptyTest {s : MainState} (hrun : mainRun csvSubscriber.engines csvSubscriber.build
    csvSubscriber.type csvSubscriber.cfg subscriberDefaults csvSubscriber.mw (some (oneEntry x))
      emptyTestRun = some (s, some .ok)) (hret : s.returned = true) :
    CliRun csvSubscriber ["perftest_lite_sub"] x emptyTestRun 0
      (cliOutput .csv subscriberDefaults s.results) :=
  .ran subscriberDefaults emptyTestRun s .ok rfl hrun hret

theorem cli_exit_code_empty : ∃ out, CliRun csvSubscriber ["perftest_lite_sub"] .zero emptyTestRun 0 out ∧
    ∃ rows, readCsv .subscriber out = some rows ∧ rows.length = 1 := by
  have hend : (mainRun csvSubscriber.engines csvSubscriber.build csvSubscriber.type csvSubscriber.cfg
      subscriberDefaults csvSubscriber.mw (some (oneEntry .zero)) emptyTestRun).map
        (fun q => (q.1.returned, q.2)) = some (true, some .ok) := by
    decide +kernel
  obtain ⟨⟨s, code⟩, hs, heq⟩ := Option.map_eq_some_iff.mp hend
  obtain ⟨hret, rfl⟩ := Prod.mk.inj heq
  have hcli := cliRun_emptyTest hs hret
  refine ⟨_, hcli, ?_⟩
  rcases cli_exit_code hcli with ⟨hparse, -⟩ | ⟨⟨e, hparse⟩, -⟩ | ⟨args, rows, hparse, hread, hcode⟩
  · cases hparse
  · cases hparse
  · cases hparse
    rcases hcode with ⟨-, hrows⟩ | ⟨hcode, -⟩
    · exact ⟨rows, hread, hrows⟩
    · exact absurd hcode (by decide)

/-! ## What the stack held -/

/-- The fields that the subscriber does not write, as zeros. -/
def SizeResult.erased (x : SizeResult) : SizeResult :=
  { x with latencySamplesReceived := 0, p50LatencyUs := 0, p90LatencyUs := 0, p99LatencyUs := 0 }

theorem subFillResult_erased (now : ℕ) (c : SubCtx) :
    subFillResult now c ∘ SizeResult.erased = SizeResult.erased ∘ subFillResult now c := rfl

/-- Every entry erased. -/
def Results.erased (r : Results) : Results where
  sizeCount := r.sizeCount
  sizeCapacity := r.sizeCapacity
  sizes := r.sizes.map (List.map SizeResult.erased)
  storage l h := by
    obtain ⟨l', h', rfl⟩ := Option.map_eq_some_iff.mp h
    simpa using r.storage l' h'

@[simp] theorem Results.erased_hasRoom (r : Results) : r.erased.hasRoom = r.hasRoom := by
  unfold Results.hasRoom Results.erased
  rw [Option.isSome_map]

theorem Results.erased_push (r : Results) (now : ℕ) (c : SubCtx) :
    (r.push (subFillResult now c)).erased = r.erased.push (subFillResult now c) := by
  obtain ⟨n, capacity, sizes, storage⟩ := r
  cases sizes with
  | none => rfl
  | some l =>
    have hl : (l.modify n (subFillResult now c)).map SizeResult.erased =
        (l.map SizeResult.erased).modify n (subFillResult now c) := by
      apply List.ext_getElem?
      intro i
      rw [List.getElem?_map, List.getElem?_modify, List.getElem?_modify, List.getElem?_map]
      cases l[i]? with
      | none => rfl
      | some x =>
        by_cases hi : n = i
        · simp only [hi, if_true, Option.map_some]
          rfl
        · simp only [hi, if_false, Option.map_some]
          rfl
    simp only [Results.push, Results.erased, Option.map_some, hl]

theorem Results.rows_erased (r : Results) : r.erased.rows = r.rows.map SizeResult.erased := by
  rw [Results.rows, Results.rows, List.map_filterMap]
  refine congrArg (fun f => List.filterMap f (List.range r.sizeCount)) ?_
  funext i
  obtain ⟨n, capacity, sizes, storage⟩ := r
  cases sizes <;> simp [Results.entry, Results.erased]

theorem oneEntry_erased (x : SizeResult) : (oneEntry x).erased = oneEntry x.erased := rfl

section Erasing

variable {b : Build} {T : TypeInterface} {cfg : Config} {engines : Engines}

/-- The measurement with its entries erased. -/
def SubState.erased (s : SubState) : SubState := s.withResults (s.results.map Results.erased)

theorem filled_erased (results : Option Results) (s : SubState) (e : ℕ × SubAction) :
    s.filled (results.map Results.erased) e = (s.filled results e).map Results.erased := by
  unfold SubState.filled
  split
  case h_1 =>
    cases results with
    | none => rfl
    | some r =>
      simp only [Option.map_some, Results.erased_hasRoom]
      split_ifs
      · rw [Results.erased_push]
      · rfl
  case h_2 => rfl

/-- **The subscriber does not read what it does not write.** -/
theorem subStep_erased (s : SubState) (e : ℕ × SubAction) :
    subStep T args s.erased e = (subStep T args s e).map SubState.erased := by
  have hroom : (s.results.map Results.erased).map Results.hasRoom = s.results.map Results.hasRoom := by
    cases s.results <;> simp
  rw [SubState.erased, subStep_withResults hroom]
  cases hs : subStep T args s e with
  | none => rfl
  | some s' =>
    rw [Option.map_some, Option.map_some, SubState.erased, subStep_results hs, filled_erased]

/-- The engine with its entries erased. -/
def SubEngine.erased (s : SubEngine) : SubEngine :=
  ⟨s.run, s.loop.map SubState.erased, s.results.map Results.erased⟩

theorem subEngineStep_erased (s : SubEngine) (e : SubEngineEvent) :
    subEngineStep b T args s.erased e = (subEngineStep b T args s e).map SubEngine.erased := by
  obtain ⟨run, loop, results⟩ := s
  have hsome : (loop.map SubState.erased).isSome = loop.isSome := Option.isSome_map
  cases e with
  | run e =>
    cases e with
    | init calls =>
      simp only [subEngineStep, SubEngine.erased, hsome, apply_ite (Option.map _), Option.map_map]
      rfl
    | setup e =>
      cases e with
      | main ok =>
        simp only [subEngineStep, SubEngine.erased, hsome, apply_ite (Option.map _), Option.map_map]
        rfl
      | data now x | matched change =>
        simp only [subEngineStep, SubEngine.erased, hsome, apply_ite (Option.map _), Option.map_map]
        rfl
  | loop e =>
    cases loop with
    | none => rfl
    | some q =>
      simp only [subEngineStep, SubEngine.erased, Option.map_some, Option.bind_some, subStep_erased,
        Option.map_map]
      refine congrArg (fun f => Option.map f (subStep T args q e)) ?_
      funext q'
      simp only [Function.comp_apply]
      by_cases hend : q'.pc = .shutdown
      · rw [if_pos hend, if_pos (show q'.erased.pc = .shutdown from hend)]
        rfl
      · rw [if_neg hend, if_neg (show q'.erased.pc ≠ .shutdown from hend)]
        rfl

/-- A run of a subscriber with its entries erased. -/
def MainState.erased : MainState → MainState
  | .subscriber s => .subscriber s.erased
  | s => s

theorem mainStep_erased (s : MainState) (e : MainEvent) :
    mainStep b T cfg args s.erased e = (mainStep b T cfg args s e).map MainState.erased := by
  cases s with
  | refused results => cases e <;> rfl
  | publisher s =>
    cases e with
    | publisher e =>
      simp only [mainStep, MainState.erased, Option.map_map]
      rfl
    | subscriber e => rfl
  | subscriber s =>
    cases e with
    | publisher e => rfl
    | subscriber e =>
      simp only [mainStep, MainState.erased, subEngineStep_erased, Option.map_map]
      rfl

/-- A run of the subscriber over erased results. -/
theorem mainRun_erased {mw : MicroMW} {r : Results} (hsub : perftestLiteMain engines T args = some .subscriber)
    (es : List MainEvent) : mainRun engines b T cfg args mw (some r.erased) es =
      (mainRun engines b T cfg args mw (some r) es).map fun q => (q.1.erased, q.2) := by
  have hinit : ∀ r, mainInit engines T args mw (some r) = .subscriber ⟨subRunInit mw, none, some r⟩ := by
    intro r
    unfold mainInit
    rw [hsub]
  -- the engine stands where it stood, so it returns the same
  have hreturns : ∀ s code e, mainReturns b args (MainState.erased s) code e = mainReturns b args s code e := by
    intro s code e
    cases s <;> cases e <;> rfl
  have hstep : ∀ (q : MainState × Option Retcode) (e : MainEvent),
      observed (mainStep b T cfg args) (mainReturns b args) (q.1.erased, q.2) (id e) =
        (observed (mainStep b T cfg args) (mainReturns b args) q e).map fun q => (q.1.erased, q.2) := by
    intro q e
    simp only [observed, id, mainStep_erased, Option.bind_map, Option.map_bind]
    refine congrArg (Option.bind _) (funext fun s => ?_)
    simp only [Function.comp_apply, hreturns, Option.map_map]
    rfl
  rw [mainRun, mainRun, hinit, hinit]
  have hrun := exec_map hstep (.subscriber ⟨subRunInit mw, none, some r⟩, none) es
  rw [List.map_id] at hrun
  exact hrun

/-- Two runs that a caller's storage does not tell apart return the same code, with the same results. -/
theorem mainRun_alike {r r' : Results} {mw : MicroMW} {s s' : MainState} {c c' : Option Retcode}
    (hshape : r.SameShape r') (hroom : r.hasRoom = true)
    (hfree : FillsInPlace engines b T args → r.SameUnwritten r')
    (h : mainRun engines b T cfg args mw (some r) es = some (s, c))
    (h' : mainRun engines b T cfg args mw (some r') es = some (s', c')) :
    c = c' ∧ ∃ res res', s.results = some res ∧ s'.results = some res' ∧ r.SameOutcome r' res res' := by
  have hstart : MainState.Twin b T args r r' engines (mainInit engines T args mw (some r))
      (mainInit engines T args mw (some r')) := mainInit_twin hshape hroom
  have hcode : mainCode (mainInit engines T args mw (some r)) =
      mainCode (mainInit engines T args mw (some r')) := by
    unfold mainInit
    cases perftestLiteMain engines T args with
    | none => rfl
    | some role => cases role <;> rfl
  -- the code is decided by where the engine stands
  have hwatch : ∀ s s' o e, MainState.Twin b T args r r' engines s s' →
      mainReturns b args s o e = mainReturns b args s' o e := by
    intro s s' o e ht
    cases s with
    | refused res =>
      cases s' with
      | refused res' => rfl
      | publisher | subscriber => cases ht
    | publisher s =>
      cases s' with
      | publisher s' =>
        cases e with
        | publisher e =>
          simp only [mainReturns, pubReturns, PubEngine.Twin.side ht, PubEngine.Twin.mw ht]
        | subscriber e => rfl
      | refused | subscriber => cases ht
    | subscriber s =>
      cases s' with
      | subscriber s' =>
        cases e with
        | publisher e => rfl
        | subscriber e => simp only [mainReturns, subReturns, ht.2.run]
      | refused | publisher => cases ht
  obtain ⟨ht, hc⟩ := ((main_lockstep hshape hroom hfree).observed hwatch).related ⟨hstart, hcode⟩ h h'
  exact ⟨hc, ht.results hshape hroom⟩

theorem oneEntry_sameShape (x y : SizeResult) : (oneEntry x).SameShape (oneEntry y) := resultsInit_sameShape

theorem Results.SameOutcome.rows {res res' : Results} (h : (oneEntry x).SameOutcome (oneEntry y) res res') :
    res.rows = res'.rows := by
  unfold Results.rows
  rw [← h.shape.count]
  refine List.filterMap_congr fun i hi => ?_
  exact h.appended i (Nat.zero_le i) (List.mem_range.mp hi)

/-- What is rendered depends on the rows alone. -/
theorem cliOutput_congr (rb : RenderBuild) (args : InputArgs) {res res' : Results} (h : res.rows = res'.rows) :
    cliOutput rb args (some res) = cliOutput rb args (some res') := by
  cases rb with
  | csv => rw [cliOutput_csv, cliOutput_csv, h]
  | table => rw [cliOutput_table, cliOutput_table, h]

/-- The columns of a subscriber are among the fields it writes. -/
theorem cliOutput_erased (rb : RenderBuild) (hrole : args.role = .subscriber) (res : Results) :
    cliOutput rb args (some res.erased) = cliOutput rb args (some res) := by
  cases rb with
  | csv =>
    rw [cliOutput_csv, cliOutput_csv, Results.rows_erased, hrole, List.map_map]
    rfl
  | table =>
    rw [cliOutput_table, cliOutput_table, Results.rows_erased, hrole, tableLines, List.map_map]
    rfl

/-- The role of the engine that is called. -/
theorem role_of_perftestLiteMain {role : Role} (h : perftestLiteMain engines T args = some role) :
    args.role = role := by
  unfold perftestLiteMain at h
  cases hrole : args.role with
  | publisher =>
    simp only [hrole] at h
    split_ifs at h
    exact Option.some.inj h
  | subscriber =>
    simp only [hrole] at h
    split_ifs at h
    exact Option.some.inj h

/-- A subscriber stays one. -/
theorem mainRun_subscriber {mw : MicroMW} {r : Results} {s : MainState} {c : Option Retcode}
    (hsub : perftestLiteMain engines T args = some .subscriber)
    (hrun : mainRun engines b T cfg args mw (some r) es = some (s, c)) : ∃ p, s = .subscriber p := by
  refine exec_invariant (I := fun q => ∃ p, q.1 = .subscriber p) (fun q e q' h hs => ?_) hrun ?_
  · obtain ⟨p, hp⟩ := h
    obtain ⟨s, c⟩ := q
    cases hp
    have hstep := (observed_eq_some.mp hs).1
    cases e with
    | publisher e => cases hstep
    | subscriber e =>
      obtain ⟨p', -, hp'⟩ := Option.map_eq_some_iff.mp hstep
      exact ⟨p', hp'.symm⟩
  · unfold mainInit
    rw [hsub]
    exact ⟨_, rfl⟩

/-- Two runs over one entry on the stack render the same and return the same code. -/
theorem mainRun_hides {mw : MicroMW} {s s' : MainState} {c c' : Option Retcode} (rb : RenderBuild)
    (h : mainRun engines b T cfg args mw (some (oneEntry x)) es = some (s, c))
    (h' : mainRun engines b T cfg args mw (some (oneEntry y)) es = some (s', c')) :
    c = c' ∧ cliOutput rb args s.results = cliOutput rb args s'.results := by
  by_cases hsub : perftestLiteMain engines T args = some .subscriber
  · -- a subscriber runs the same over erased entries, which are equal in what it does not write
    have he : mainRun engines b T cfg args mw (some (oneEntry x).erased) es = _ := mainRun_erased hsub es
    have he' : mainRun engines b T cfg args mw (some (oneEntry y).erased) es = _ := mainRun_erased hsub es
    rw [h, Option.map_some] at he
    rw [h', Option.map_some] at he'
    have hfree : FillsInPlace engines b T args → (oneEntry x).erased.SameUnwritten (oneEntry y).erased := by
      intro _ u v hu hv
      cases hu
      cases hv
      exact ⟨rfl, rfl, rfl, rfl⟩
    obtain ⟨hc, res, res', hres, hres', hsame⟩ :=
      mainRun_alike (oneEntry_sameShape x.erased y.erased) (oneEntry_hasRoom x.erased) hfree he he'
    obtain ⟨p, rfl⟩ := mainRun_subscriber hsub h
    obtain ⟨p', rfl⟩ := mainRun_subscriber hsub h'
    obtain ⟨res₁, hres₁, rfl⟩ := Option.map_eq_some_iff.mp hres
    obtain ⟨res₁', hres₁', rfl⟩ := Option.map_eq_some_iff.mp hres'
    have hrole := role_of_perftestLiteMain hsub
    change c = c' ∧ cliOutput rb args p.results = cliOutput rb args p'.results
    rw [hres₁, hres₁', ← cliOutput_erased rb hrole, ← cliOutput_erased rb hrole res₁']
    exact ⟨hc, cliOutput_congr rb args hsame.rows⟩
  · obtain ⟨hc, res, res', hres, hres', hsame⟩ :=
      mainRun_alike (oneEntry_sameShape x y) (oneEntry_hasRoom x) (fun hf => absurd hf.1 hsub) h h'
    rw [hres, hres']
    exact ⟨hc, cliOutput_congr rb args hsame.rows⟩

end Erasing

/-- **Neither the exit code nor what is rendered depends on what the entry on the stack held**, although a
subscriber leaves four of its fields as they were. -/
theorem cli_hides_storage {code' : ℤ} {out' : List Char} (h : CliRun P argv x es code out)
    (h' : CliRun P argv y es code' out') : code = code' ∧ out = out' := by
  cases h with
  | help hparse =>
    cases h' with
    | help hparse' => exact ⟨rfl, rfl⟩
    | error e hparse' => cases hparse.symm.trans hparse'
    | ran args es s r hparse' hrun hret => cases hparse.symm.trans hparse'
  | error e hparse =>
    cases h' with
    | help hparse' => cases hparse.symm.trans hparse'
    | error e hparse' => exact ⟨rfl, rfl⟩
    | ran args es s r hparse' hrun hret => cases hparse.symm.trans hparse'
  | ran args es s r hparse hrun hret =>
    cases h' with
    | help hparse' => cases hparse.symm.trans hparse'
    | error e hparse' => cases hparse.symm.trans hparse'
    | ran args' es s' r' hparse' hrun' hret' =>
      cases hparse.symm.trans hparse'
      obtain ⟨hc, hout⟩ := mainRun_hides P.render hrun hrun'
      cases hc
      exact ⟨rfl, hout⟩

theorem cli_hides_storage_leftover :
    ∃ out, CliRun csvSubscriber ["perftest_lite_sub"] .zero emptyTestRun 0 out ∧
      CliRun csvSubscriber ["perftest_lite_sub"] leftover emptyTestRun 0 out := by
  have hend : ∀ x ∈ [SizeResult.zero, leftover], (mainRun csvSubscriber.engines csvSubscriber.build
      csvSubscriber.type csvSubscriber.cfg subscriberDefaults csvSubscriber.mw (some (oneEntry x))
        emptyTestRun).map (fun q => (q.1.returned, q.2)) = some (true, some .ok) := by
    decide +kernel
  obtain ⟨⟨s, code⟩, hs, heq⟩ := Option.map_eq_some_iff.mp (hend .zero (by simp))
  obtain ⟨⟨s', code'⟩, hs', heq'⟩ := Option.map_eq_some_iff.mp (hend leftover (by simp))
  obtain ⟨hret, rfl⟩ := Prod.mk.inj heq
  obtain ⟨hret', rfl⟩ := Prod.mk.inj heq'
  have hcli := cliRun_emptyTest hs hret
  have hcli' := cliRun_emptyTest hs' hret'
  exact ⟨_, hcli, (cli_hides_storage hcli hcli').2 ▸ hcli'⟩

end PerftestLite
