import PerftestLite.Lib.Lockstep
import PerftestLite.Lifecycle.Main

/-!
# What the caller's storage held before

Two runs of `perftest_lite_main` that differ in what the results storage held. The publisher appends a
record it has built on its own; the subscriber fills eight of the twelve fields of the entry in place.

* `Results.Grown`, `Results.SameOutcome`: what a run may do to the results, and two runs alike;
* `pubEngine_lockstep`, `subEngine_lockstep`: the engines take the same steps whatever the storage holds;
* `subFillResult_eq_iff`: what the subscriber leaves in the entry;
* `storageHidden_iff`: when the runs append the same result.
-/

set_option autoImplicit false

namespace PerftestLite

open Machine Ledger

/-! ## The results -/

namespace Results

variable {r r' res res' : Results}

/-- Nothing but the contents of the storage differs. -/
structure SameShape (r r' : Results) : Prop where
  sizes : r.sizes.isSome = r'.sizes.isSome
  count : r.sizeCount = r'.sizeCount
  capacity : r.sizeCapacity = r'.sizeCapacity

theorem SameShape.hasRoom (h : r.SameShape r') : r.hasRoom = r'.hasRoom := by
  unfold Results.hasRoom
  rw [h.sizes, h.count, h.capacity]

theorem SameShape.push (h : r.SameShape r') (w w' : SizeResult → SizeResult) :
    (r.push w).SameShape (r'.push w') where
  sizes := by
    change (r.sizes.map _).isSome = (r'.sizes.map _).isSome
    rw [Option.isSome_map, Option.isSome_map, h.sizes]
  count := congrArg (· + 1) h.count
  capacity := h.capacity

theorem entry_push_of_ne {i : ℕ} (hi : i ≠ r.sizeCount) (w : SizeResult → SizeResult) :
    (r.push w).entry i = r.entry i := by
  change (r.sizes.map fun l => l.modify r.sizeCount w).bind _ = r.sizes.bind _
  cases r.sizes with
  | none => rfl
  | some l => exact List.getElem?_modify_ne w l (Ne.symm hi)

/-- Entries were appended within the capacity, and no other entry was touched. -/
structure Grown (r res : Results) : Prop where
  kept : ∀ i, i < r.sizeCount ∨ res.sizeCount ≤ i → res.entry i = r.entry i
  count : r.sizeCount ≤ res.sizeCount
  bounded : (res.sizeCount : ℤ) ≤ res.sizeCapacity
  capacity : res.sizeCapacity = r.sizeCapacity

theorem Grown.refl (h : (r.sizeCount : ℤ) ≤ r.sizeCapacity) : r.Grown r := ⟨fun _ _ => rfl, le_rfl, h, rfl⟩

theorem lt_capacity (h : r.hasRoom = true) : (r.sizeCount : ℤ) < r.sizeCapacity :=
  of_decide_eq_true (Bool.and_eq_true_iff.mp h).2

theorem Grown.push (h : r.Grown res) (hroom : res.hasRoom = true) (w : SizeResult → SizeResult) :
    r.Grown (res.push w) where
  kept i hi := by
    have hcount := h.count
    rw [entry_push_of_ne (by change _ ∨ res.sizeCount + 1 ≤ i at hi; omega)]
    exact h.kept i (by change _ ∨ res.sizeCount + 1 ≤ i at hi; omega)
  count := Nat.le_succ_of_le h.count
  bounded := by
    have hlt := lt_capacity hroom
    change ((res.sizeCount + 1 : ℕ) : ℤ) ≤ res.sizeCapacity
    omega
  capacity := h.capacity

/-- From `r` and `r'` two runs have appended the same entries, each within the capacity and leaving the
other entries alone. -/
structure SameOutcome (r r' res res' : Results) : Prop where
  shape : res.SameShape res'
  appended : ∀ i, r.sizeCount ≤ i → i < res.sizeCount → res.entry i = res'.entry i
  grown : r.Grown res
  grown' : r'.Grown res'

theorem SameOutcome.refl (h : r.SameShape r') (hroom : r.hasRoom = true) : SameOutcome r r' r r' where
  shape := h
  appended _ hi hlt := absurd hlt (Nat.not_lt_of_le hi)
  grown := .refl (lt_capacity hroom).le
  grown' := .refl (lt_capacity (h.hasRoom ▸ hroom)).le

/-- One entry more, if it is the same in both. -/
theorem SameOutcome.push (h : SameOutcome r r' res res') (hroom : res.hasRoom = true)
    {w : SizeResult → SizeResult}
    (hw : (res.entry res.sizeCount).map w = (res'.entry res'.sizeCount).map w) :
    SameOutcome r r' (res.push w) (res'.push w) where
  shape := h.shape.push w w
  appended i hi hlt := by
    by_cases hlast : i = res.sizeCount
    · rw [hlast, entry_push, h.shape.count, entry_push, ← h.shape.count, hw, h.shape.count]
    · rw [entry_push_of_ne hlast, entry_push_of_ne (h.shape.count ▸ hlast)]
      exact h.appended i hi (by change i < res.sizeCount + 1 at hlt; omega)
  grown := h.grown.push hroom w
  grown' := h.grown'.push (h.shape.hasRoom ▸ hroom) w

end Results

variable {b : Build} {T : TypeInterface} {cfg : Config} {args : InputArgs} {r r' : Results}

/-! ## The publisher -/

/-- The same state with other results. -/
def PubState.withResults (results : Option Results) (s : PubState) : PubState :=
  { s with results := results }

/-- The results after a step. -/
def PubState.reported (results : Option Results) (s : PubState) (e : ℕ × PubAction) : Option Results :=
  match s.pc, e.2 with
  | .report, .main _ => appendResult s.tmp results
  | _, _ => results

/-- **The publisher does not read the results**, and writes them where it reports. -/
theorem pubStep_withResults (results : Option Results) (s : PubState) (e : ℕ × PubAction) :
    pubStep T cfg args (s.withResults results) e =
      (pubStep T cfg args s e).map (PubState.withResults (s.reported results e)) := by
  obtain ⟨now, act⟩ := e
  obtain ⟨pc, ctx, sample, t0, tNextPrint, total, seq, tmp, own, writes, checks, records⟩ := s
  cases act with
  | main ok =>
    cases pc with
    | burst | wait | tick | final =>
      -- the statements with a branch
      simp only [pubStep, pubMain, apply_ite (Option.map _)]
      rfl
    | warmup | settle | reset | begin | loop | prepare | write | sleep | line | finish | report
    | finalSleep | shutdown | done => rfl
  | pong x | matched change =>
    cases pc with
    | done => rfl
    | warmup | burst | settle | reset | begin | loop | prepare | write | wait | sleep | tick | line | finish
    | report | final | finalSleep | shutdown => rfl

/-- The results of the publisher move with `reported`. -/
theorem pubStep_results {s s' : PubState} {e : ℕ × PubAction} (hs : pubStep T cfg args s e = some s') :
    s'.results = s.reported s.results e := by
  have hself : pubStep T cfg args (s.withResults s.results) e = _ := pubStep_withResults s.results s e
  change pubStep T cfg args s e = _ at hself
  rw [hs] at hself
  exact congrArg PubState.results (Option.some.inj hself)

/-- Two publishers that differ in their results: what is in them has the same outcome. -/
structure PubEngine.Twin (r r' : Results) (s s' : PubEngine) : Prop where
  side : s'.run.side = s.run.side
  mw : s'.run.mw = s.run.mw
  loop : s'.run.loop = s.run.loop.map (PubState.withResults s'.results)
  own : ∀ p, s.run.loop = some p → p.results = s.results
  results : ∃ res res', s.results = some res ∧ s'.results = some res' ∧ r.SameOutcome r' res res'

/-- Reporting leaves two results alike. -/
theorem Results.SameOutcome.report {res res' : Results} (h : r.SameOutcome r' res res') (tmp : SizeResult) :
    ∃ q q', appendResult tmp (some res) = some q ∧ appendResult tmp (some res') = some q' ∧
      r.SameOutcome r' q q' := by
  refine ⟨_, _, rfl, rfl, ?_⟩
  dsimp only
  rw [← h.shape.hasRoom]
  by_cases hroom : res.hasRoom = true
  · rw [if_pos hroom, if_pos hroom]
    obtain ⟨x, hx⟩ := Results.exists_entry_of_hasRoom hroom
    obtain ⟨y, hy⟩ := Results.exists_entry_of_hasRoom (h.shape.hasRoom ▸ hroom)
    exact h.push hroom (by rw [hx, hy]; rfl)
  · rw [if_neg hroom, if_neg hroom]
    exact h

/-- One step of the measurement leaves two results alike. -/
theorem Results.SameOutcome.reported {res res' : Results} (h : r.SameOutcome r' res res') (s : PubState)
    (e : ℕ × PubAction) : ∃ q q', s.reported (some res) e = some q ∧ s.reported (some res') e = some q' ∧
      r.SameOutcome r' q q' := by
  unfold PubState.reported
  split
  case h_1 => exact h.report s.tmp
  case h_2 => exact ⟨res, res', rfl, rfl, h⟩

/-- A step that leaves the measurement alone. -/
theorem PubEngine.Twin.still {s s' : PubEngine} (h : PubEngine.Twin r r' s s') {run run' : PubRun}
    (hside : run'.side = run.side) (hmw : run'.mw = run.mw) (hloop : run.loop = s.run.loop)
    (hloop' : run'.loop = s'.run.loop) :
    PubEngine.Twin r r' ⟨run, (run.loop.map PubState.results).getD s.results⟩
      ⟨run', (run'.loop.map PubState.results).getD s'.results⟩ := by
  have hres : (run.loop.map PubState.results).getD s.results = s.results := by
    rw [hloop]
    cases hp : s.run.loop with
    | none => rfl
    | some p => exact h.own p hp
  have hres' : (run'.loop.map PubState.results).getD s'.results = s'.results := by
    rw [hloop', h.loop]
    cases s.run.loop <;> rfl
  rw [hres, hres']
  exact ⟨hside, hmw, by rw [hloop', h.loop, hloop], fun p hp => h.own p (hloop ▸ hp), h.results⟩

/-- **Two publishers take the same steps**, and their results stay alike. -/
theorem pubEngine_lockstep : Lockstep (pubEngineStep b T cfg args) (pubEngineStep b T cfg args)
    (PubEngine.Twin r r') := by
  intro s s' e h
  have hsome : s'.run.loop.isSome = s.run.loop.isSome := by
    rw [h.loop, Option.isSome_map]
  cases e with
  | init calls =>
    simp only [pubEngineStep, pubRunStep, apply_ite (Option.map _), Option.map_map, h.side, h.mw]
    exact rel_ite (fun _ => rel_map fun side _ => h.still rfl rfl rfl rfl) fun _ => .none
  | setup e =>
    cases e with
    | main ok =>
      simp only [pubEngineStep, pubRunStep, apply_ite (Option.map _), Option.map_map, h.side, h.mw,
        hsome]
      refine rel_ite (fun _ => .none) fun _ => rel_ite (fun _ => .some ?_) fun _ =>
        rel_map fun side _ => h.still rfl rfl rfl rfl
      -- the measurement begins with the caller's results
      exact ⟨rfl, rfl, rfl, fun p hp => Option.some.inj hp ▸ rfl, h.results⟩
    | data now x | matched change =>
      simp only [pubEngineStep, pubRunStep, apply_ite (Option.map _), Option.map_map, h.side, hsome]
      exact rel_ite (fun _ => .none) fun _ => rel_map fun side _ => h.still rfl h.mw rfl rfl
  | loop e =>
    cases hp : s.run.loop with
    | none =>
      simp only [pubEngineStep, pubRunStep, h.loop, hp]
      exact .none
    | some p =>
      simp only [pubEngineStep, pubRunStep, h.loop, hp, Option.map_some, Option.bind_some,
        pubStep_withResults, Option.map_map]
      refine rel_map fun p' hp' => ?_
      have hown : p'.results = p.reported s.results e := by
        rw [pubStep_results hp', h.own p hp]
      simp only [Function.comp_apply]
      by_cases hpc : p'.pc = .shutdown
      · rw [if_pos hpc, if_pos (show (p'.withResults (p.reported s'.results e)).pc = .shutdown from hpc)]
        exact ⟨by rw [h.side]; rfl, h.mw, rfl, fun q hq => absurd hq (by simp), h.results⟩
      · rw [if_neg hpc, if_neg (show (p'.withResults (p.reported s'.results e)).pc ≠ .shutdown from hpc)]
        obtain ⟨res, res', hres, hres', hsame⟩ := h.results
        have hnext := hsame.reported p e
        rw [← hres, ← hres', ← hown] at hnext
        exact ⟨h.side, h.mw, rfl, fun q hq => Option.some.inj hq ▸ rfl, hnext⟩

/-! ## The subscriber -/

/-- The fields of an entry that the subscriber does not write agree. -/
structure SizeResult.SameUnwritten (x y : SizeResult) : Prop where
  received : x.latencySamplesReceived = y.latencySamplesReceived
  p50 : x.p50LatencyUs = y.p50LatencyUs
  p90 : x.p90LatencyUs = y.p90LatencyUs
  p99 : x.p99LatencyUs = y.p99LatencyUs

/-- **What the subscriber leaves in the entry**: four fields. -/
theorem subFillResult_eq_iff {now : ℕ} {c : SubCtx} {x y : SizeResult} :
    subFillResult now c x = subFillResult now c y ↔ x.SameUnwritten y := by
  constructor
  · intro h
    simp only [subFillResult, SizeResult.mk.injEq] at h
    obtain ⟨-, -, hreceived, -, -, -, h50, h90, h99, -⟩ := h
    exact ⟨hreceived, h50, h90, h99⟩
  · rintro ⟨hreceived, h50, h90, h99⟩
    simp only [subFillResult, hreceived, h50, h90, h99]

/-- The next entries to be filled agree there. -/
def Results.SameUnwritten (r r' : Results) : Prop :=
  ∀ x y, r.entry r.sizeCount = some x → r'.entry r'.sizeCount = some y → x.SameUnwritten y

/-- The same state with other results. -/
def SubState.withResults (results : Option Results) (s : SubState) : SubState :=
  { s with results := results }

/-- The results after a step. -/
def SubState.filled (results : Option Results) (s : SubState) (e : ℕ × SubAction) : Option Results :=
  match e.2, s.pc with
  | .main, .capture => results.map fun r => if r.hasRoom then r.push (subFillResult e.1 s.ctx) else r
  | _, _ => results

theorem subLineStep_withResults (results : Option Results) (s : SubState) (l : SubLinePc) :
    subLineStep (s.withResults results) l = (subLineStep s l).withResults results := by
  cases l <;> rfl

/-- The capture reads from the results whether there is room. -/
theorem subCapture_withResults {results : Option Results} {s : SubState}
    (h : results.map Results.hasRoom = s.results.map Results.hasRoom) (now : ℕ) :
    subCapture now (s.withResults results) = (subCapture now s).withResults
      (results.map fun r => if r.hasRoom then r.push (subFillResult now s.ctx) else r) := by
  obtain ⟨pc, ctx, tLastPrint, lastCount, own⟩ := s
  cases results with
  | none =>
    cases own with
    | none => rfl
    | some q => cases h
  | some q =>
    cases own with
    | none => cases h
    | some q' =>
      have hroom : q.hasRoom = q'.hasRoom := Option.some.inj h
      simp only [SubState.withResults, subCapture, hroom, Option.map_some]
      split_ifs <;> rfl

/-- **The subscriber reads nothing else from the results**, and writes them where it captures. -/
theorem subStep_withResults {results : Option Results} {s : SubState}
    (h : results.map Results.hasRoom = s.results.map Results.hasRoom) (e : ℕ × SubAction) :
    subStep T args (s.withResults results) e =
      (subStep T args s e).map (SubState.withResults (s.filled results e)) := by
  obtain ⟨now, act⟩ := e
  cases act with
  | main =>
    cases hpc : s.pc with
    | waitMatch =>
      simp only [subStep, subMain, SubState.filled, hpc, show (s.withResults results).pc = _ from hpc,
        apply_ite (Option.map _)]
      rfl
    | line l =>
      simp only [subStep, subMain, SubState.filled, hpc, show (s.withResults results).pc = _ from hpc,
        subLineStep_withResults]
      rfl
    | capture =>
      simp only [subStep, subMain, SubState.filled, hpc, show (s.withResults results).pc = _ from hpc,
        subCapture_withResults h]
      rfl
    | reset | poll | sleep | stat | shutdown | done =>
      simp only [subStep, subMain, SubState.filled, hpc, show (s.withResults results).pc = _ from hpc]
      rfl
  | sample x | matched change =>
    simp only [subStep, SubState.filled, apply_ite (Option.map _)]
    rfl

/-- The results of the subscriber move with `filled`. -/
theorem subStep_results {s s' : SubState} {e : ℕ × SubAction} (hs : subStep T args s e = some s') :
    s'.results = s.filled s.results e := by
  have hself : subStep T args (s.withResults s.results) e = _ := subStep_withResults rfl e
  change subStep T args s e = _ at hself
  rw [hs] at hself
  exact congrArg SubState.results (Option.some.inj hself)

/-- Only the step to `shutdown` fills an entry. -/
theorem filled_of_not_captured {s s' : SubState} {e : ℕ × SubAction} (hs : subStep T args s e = some s')
    (hc : s'.pc.captured = false) (results : Option Results) : s.filled results e = results := by
  obtain ⟨now, act⟩ := e
  unfold SubState.filled
  split
  case h_1 hact hpc =>
    cases hact
    simp only [subStep, subMain, hpc, Option.some.injEq] at hs
    rw [← hs] at hc
    cases hc
  case h_2 => rfl

/-- The capture is the step to `shutdown`. -/
theorem not_captured_of_step {s s' : SubState} {e : ℕ × SubAction} (hs : subStep T args s e = some s')
    (hc : s.pc.captured = false) (hpc : s'.pc ≠ .shutdown) : s'.pc.captured = false := by
  by_contra hc'
  obtain ⟨now, rfl, hcapture⟩ := capture_of_captured hc (Bool.eq_true_of_not_eq_false hc') hs
  simp only [subStep, subMain, hcapture, Option.some.injEq] at hs
  exact hpc (hs ▸ rfl)

/-- The measurement is over, or was never reached. -/
def SubSetup.over : SubSetup → Bool
  | .shutdown | .returned => true
  | _ => false

/-- `mw->init` has succeeded, `shutdown` has not run. -/
def SubSetup.begun : SubSetup → Bool
  | .init | .returned => false
  | _ => true

/-- Two subscribers that differ in their results: what is in them has the same outcome, and until the
measurement is over it is the caller's. -/
structure SubEngine.Twin (b : Build) (args : InputArgs) (r r' : Results) (s s' : SubEngine) : Prop where
  run : s'.run = s.run
  begun : s.run.side.pc.begun = true → supported b args.transportId = true
  loop : s'.loop = s.loop.map (SubState.withResults s'.results)
  measuring : ∀ q, s.loop = some q →
    s.run.side.pc = .waitMatch ∧ q.pc.captured = false ∧ q.results = s.results
  pending : s.run.side.pc.over = false → s.results = some r ∧ s'.results = some r'
  results : ∃ res res', s.results = some res ∧ s'.results = some res' ∧ r.SameOutcome r' res res'

/-- Filling the next entry leaves two results alike, if what the subscriber does not write agrees. -/
theorem Results.SameOutcome.fill (hshape : r.SameShape r') (hroom : r.hasRoom = true)
    (hfree : r.SameUnwritten r') (now : ℕ) (c : SubCtx) :
    r.SameOutcome r' (r.push (subFillResult now c)) (r'.push (subFillResult now c)) := by
  obtain ⟨x, hx⟩ := Results.exists_entry_of_hasRoom hroom
  obtain ⟨y, hy⟩ := Results.exists_entry_of_hasRoom (hshape.hasRoom ▸ hroom)
  refine (Results.SameOutcome.refl hshape hroom).push hroom ?_
  rw [hx, hy]
  exact congrArg some (subFillResult_eq_iff.mpr (hfree x y hx hy))

/-- One step of the measurement leaves two results alike. -/
theorem Results.SameOutcome.filled (hshape : r.SameShape r') (hroom : r.hasRoom = true)
    (hfree : r.SameUnwritten r') (s : SubState) (e : ℕ × SubAction) :
    ∃ q q', s.filled (some r) e = some q ∧ s.filled (some r') e = some q' ∧ r.SameOutcome r' q q' := by
  unfold SubState.filled
  split
  case h_1 =>
    refine ⟨_, _, rfl, rfl, ?_⟩
    dsimp only
    rw [if_pos hroom, if_pos (hshape.hasRoom ▸ hroom)]
    exact .fill hshape hroom hfree e.1 s.ctx
  case h_2 => exact ⟨r, r', rfl, rfl, .refl hshape hroom⟩

/-- The end of the measurement is behind what comes after it. -/
theorem subRunStep_over {s s' : SubRun} {e : SubRunEvent} (hs : subRunStep b T args s e = some s')
    (hover : s.side.pc.over = true) : s'.side.pc.over = true := by
  cases e with
  | init calls =>
    simp only [subRunStep, Option.ite_none_right_eq_some] at hs
    rw [hs.1] at hover
    cases hover
  | setup e =>
    cases e with
    | main ok =>
      simp only [subRunStep, perftestLiteSubscriber] at hs
      cases hpc : s.side.pc with
      | shutdown =>
        simp only [hpc, reduceCtorEq, if_false, if_true, Option.map_some, Option.some.injEq] at hs
        rw [← hs]
        rfl
      | returned => simp [hpc] at hs
      | init | createWriter | createReader | checkEndpoints | waitMatch | reset | run =>
        rw [hpc] at hover
        cases hover
    | data now x | matched change =>
      obtain ⟨c, rfl⟩ := subRun_callback (by simp) hs
      exact hover

/-- The subscriber gets past `mw->init` over a transport that is supported. -/
theorem subRunStep_begun {s s' : SubRun} {e : SubRunEvent} (hs : subRunStep b T args s e = some s')
    (h : s.side.pc.begun = true → supported b args.transportId = true) (hbegun : s'.side.pc.begun = true) :
    supported b args.transportId = true := by
  cases e with
  | init calls =>
    simp only [subRunStep, Option.ite_none_right_eq_some, Option.map_eq_some_iff] at hs
    obtain ⟨hpc, side, hside, rfl⟩ := hs
    simp only [perftestLiteSubscriber, hpc, Option.some.injEq] at hside
    by_contra hunsupported
    have hfail : (microInit b calls args.transportId s.mw).1 = false :=
      (microInit_unsupported (Bool.eq_false_of_not_eq_true hunsupported)).1
    rw [hfail] at hside
    rw [← hside] at hbegun
    cases hbegun
  | setup e =>
    cases e with
    | main ok =>
      simp only [subRunStep, Option.ite_none_left_eq_some] at hs
      obtain ⟨hinit, hs⟩ := hs
      apply h
      cases hpc : s.side.pc with
      | init => exact absurd hpc hinit
      | returned => simp [hpc, perftestLiteSubscriber] at hs
      | createWriter | createReader | checkEndpoints | waitMatch | reset | run | shutdown => rfl
    | data now x | matched change =>
      obtain ⟨c, rfl⟩ := subRun_callback (by simp) hs
      exact h hbegun

/-- A statement or callback outside the measurement. -/
theorem SubEngine.Twin.still {s s' : SubEngine} (h : SubEngine.Twin b args r r' s s')
    (hloop : ¬ s.loop.isSome = true) {e : SubRunEvent} {run : SubRun}
    (hs : subRunStep b T args s.run e = some run) :
    SubEngine.Twin b args r r' { s with run := run } { s' with run := run } where
  run := rfl
  begun := subRunStep_begun hs h.begun
  loop := h.loop
  measuring q hq := absurd (congrArg Option.isSome hq) hloop
  pending hover := h.pending (by
    by_contra hbefore
    rw [subRunStep_over hs (Bool.eq_true_of_not_eq_false hbefore)] at hover
    cases hover)
  results := h.results

/-- **Two subscribers take the same steps**, and their results stay alike. -/
theorem subEngine_lockstep (hshape : r.SameShape r') (hroom : r.hasRoom = true)
    (hfree : supported b args.transportId = true → r.SameUnwritten r') :
    Lockstep (subEngineStep b T args) (subEngineStep b T args) (SubEngine.Twin b args r r') := by
  intro s s' e h
  have hsome : s'.loop.isSome = s.loop.isSome := by
    rw [h.loop, Option.isSome_map]
  cases e with
  | run e =>
    cases e with
    | init calls =>
      simp only [subEngineStep, hsome, h.run]
      exact rel_ite (fun _ => .none) fun hloop => rel_map fun run hrun => h.still hloop hrun
    | setup e =>
      cases e with
      | main ok =>
        simp only [subEngineStep, hsome, h.run]
        refine rel_ite (fun _ => .none) fun hloop => rel_ite (fun hpc => .some ?_) fun _ =>
          rel_map fun run hrun => h.still hloop hrun
        -- the measurement begins with the caller's results
        exact ⟨rfl, h.begun, rfl, fun q hq => Option.some.inj hq ▸ ⟨hpc, rfl, rfl⟩, h.pending, h.results⟩
      | data now x | matched change =>
        simp only [subEngineStep, hsome, h.run]
        exact rel_ite (fun _ => .none) fun hloop => rel_map fun run hrun => h.still hloop hrun
  | loop e =>
    cases hq : s.loop with
    | none =>
      simp only [subEngineStep, h.loop, hq]
      exact .none
    | some q =>
      obtain ⟨hpc, hc, hown⟩ := h.measuring q hq
      obtain ⟨hr, hr'⟩ := h.pending (by rw [hpc]; rfl)
      have hrooms : s'.results.map Results.hasRoom = q.results.map Results.hasRoom := by
        rw [hown, hr, hr', Option.map_some, Option.map_some, hshape.hasRoom]
      simp only [subEngineStep, h.loop, hq, Option.map_some, Option.bind_some, subStep_withResults hrooms,
        Option.map_map]
      refine rel_map fun q' hq' => ?_
      have hown' : q'.results = q.filled s.results e := by
        rw [subStep_results hq', hown]
      have hnext := Results.SameOutcome.filled hshape hroom (hfree (h.begun (by rw [hpc]; rfl))) q e
      rw [← hr, ← hr', ← hown'] at hnext
      simp only [Function.comp_apply]
      by_cases hend : q'.pc = .shutdown
      · rw [if_pos hend, if_pos (show (q'.withResults (q.filled s'.results e)).pc = .shutdown from hend)]
        exact ⟨by rw [h.run]; rfl, fun _ => h.begun (by rw [hpc]; rfl), rfl, fun q hq => absurd hq (by simp),
          fun hover => absurd hover (by simp [SubSetup.over]), hnext⟩
      · rw [if_neg hend, if_neg (show (q'.withResults (q.filled s'.results e)).pc ≠ .shutdown from hend)]
        have hc' : q'.pc.captured = false := not_captured_of_step hq' hc hend
        refine ⟨h.run, h.begun, rfl, fun q₁ hq₁ => Option.some.inj hq₁ ▸ ⟨hpc, hc', rfl⟩, fun _ => ?_, hnext⟩
        rw [hown', hr, hr']
        exact ⟨filled_of_not_captured hq' hc' _, filled_of_not_captured hq' hc' _⟩

/-! ## Whole runs -/

/-- The engine that is called fills entries in place, and gets past `mw->init`. -/
def FillsInPlace (engines : Engines) (b : Build) (T : TypeInterface) (args : InputArgs) : Prop :=
  perftestLiteMain engines T args = some .subscriber ∧ supported b args.transportId = true

/-- A run's result does not depend on what the storage held: two runs with the same events append the
same entries, leave the entries already present alone and stay within the capacity. -/
def StorageHidden (engines : Engines) (b : Build) (T : TypeInterface) (cfg : Config) (args : InputArgs)
    (r r' : Results) : Prop :=
  ∀ mw es s s',
    exec (mainStep b T cfg args) (mainInit engines T args mw (some r)) es = some s →
    exec (mainStep b T cfg args) (mainInit engines T args mw (some r')) es = some s' →
    ∃ res res', s.results = some res ∧ s'.results = some res' ∧ r.SameOutcome r' res res'

section Runs

variable {engines : Engines} {mw : MicroMW}

variable (engines b T args r r') in
/-- Two runs that differ in the caller's results. -/
def MainState.Twin : MainState → MainState → Prop
  | .refused res, .refused res' => res = some r ∧ res' = some r'
  | .publisher s, .publisher s' => s.Twin r r' s'
  | .subscriber s, .subscriber s' =>
    perftestLiteMain engines T args = some .subscriber ∧ s.Twin b args r r' s'
  | _, _ => False

theorem MainState.Twin.results {s s' : MainState} (h : Twin b T args r r' engines s s')
    (hshape : r.SameShape r') (hroom : r.hasRoom = true) :
    ∃ res res', s.results = some res ∧ s'.results = some res' ∧ r.SameOutcome r' res res' := by
  cases s with
  | refused res =>
    cases s' with
    | refused res' => exact ⟨r, r', h.1, h.2, .refl hshape hroom⟩
    | publisher | subscriber => cases h
  | publisher s =>
    cases s' with
    | publisher s' => exact PubEngine.Twin.results h
    | refused | subscriber => cases h
  | subscriber s =>
    cases s' with
    | subscriber s' => exact h.2.results
    | refused | publisher => cases h

/-- Nothing has happened yet. -/
theorem mainInit_twin (hshape : r.SameShape r') (hroom : r.hasRoom = true) :
    MainState.Twin b T args r r' engines (mainInit engines T args mw (some r))
      (mainInit engines T args mw (some r')) := by
  have hsame := Results.SameOutcome.refl hshape hroom
  unfold mainInit
  cases hrole : perftestLiteMain engines T args with
  | none => exact ⟨rfl, rfl⟩
  | some role =>
    cases role with
    | publisher => exact ⟨rfl, rfl, rfl, fun p hp => absurd hp (by simp [pubRunInit]), r, r', rfl, rfl, hsame⟩
    | subscriber =>
      exact ⟨hrole, rfl, fun h => absurd h (by simp [subRunInit, subSideInit, SubSetup.begun]), rfl,
        fun q hq => absurd hq (by simp), fun _ => ⟨rfl, rfl⟩, r, r', rfl, rfl, hsame⟩

/-- **Two runs take the same steps**, and their results stay alike. -/
theorem main_lockstep (hshape : r.SameShape r') (hroom : r.hasRoom = true)
    (hfree : FillsInPlace engines b T args → r.SameUnwritten r') :
    Lockstep (mainStep b T cfg args) (mainStep b T cfg args) (MainState.Twin b T args r r' engines) := by
  intro s s' e h
  cases s with
  | refused res =>
    cases s' with
    | refused res' => cases e <;> exact .none
    | publisher | subscriber => cases h
  | publisher s =>
    cases s' with
    | publisher s' =>
      cases e with
      | publisher e => exact rel_map₂ (pubEngine_lockstep s s' e h) fun _ _ ht => ht
      | subscriber e => exact .none
    | refused | subscriber => cases h
  | subscriber s =>
    cases s' with
    | subscriber s' =>
      cases e with
      | publisher e => exact .none
      | subscriber e =>
        exact rel_map₂ (subEngine_lockstep hshape hroom (fun hs => hfree ⟨h.1, hs⟩) s s' e h.2)
          fun _ _ ht => ⟨h.1, ht⟩
    | refused | publisher => cases h

/-- **The storage stays hidden** where what is not written agrees. -/
theorem storageHidden_of_sameUnwritten (hshape : r.SameShape r') (hroom : r.hasRoom = true)
    (hfree : FillsInPlace engines b T args → r.SameUnwritten r') :
    StorageHidden engines b T cfg args r r' := by
  intro mw es s s' hs hs'
  exact ((main_lockstep hshape hroom hfree).related (mainInit_twin hshape hroom) hs hs').results hshape hroom

/-! ## A run that shows what the storage held -/

/-- Up to the match poll, every call succeeding. -/
def upToMatch (dpse : Bool) : List SubEngineEvent :=
  .run (.init allSucceed) :: List.replicate (if dpse then 12 else 11) (.run (.setup (.main true)))

/-- A publisher is matched and sends nothing but a `FINALIZATION`. -/
def emptyTest : List SubEngineEvent :=
  [.run (.setup (.main true)), .loop (0, .matched 1), .loop (0, .main), .loop (0, .main),
    .loop (0, .sample (sampleOfKind .finalization)), .loop (0, .main), .loop (0, .main)]

/-- The statements from `mw->init` to the match poll. -/
theorem exec_setup (mw : MicroMW) (ledger : List (Move Resource)) (results : Option Results) :
    exec (subEngineStep b T args) ⟨⟨⟨.createWriter, .absent, .zero, false, false⟩, mw, ledger⟩, none, results⟩
        (List.replicate (if b.dpse then 12 else 11) (.run (.setup (.main true)))) =
      some ⟨⟨⟨.waitMatch, ⟨.live ⟨true, true, true, true, true⟩, true⟩, .zero, true, true⟩, mw, ledger⟩,
        none, results⟩ := by
  obtain ⟨hasShmem, hasZerocopy, typeZcopy, dpse, nicAddress⟩ := b
  cases dpse <;> rfl

theorem exec_upToMatch (hs : supported b args.transportId = true) (results : Option Results) :
    ∃ run, exec (subEngineStep b T args) ⟨subRunInit freshProcess, none, results⟩ (upToMatch b.dpse) =
      some ⟨run, none, results⟩ ∧ run.side.pc = .waitMatch ∧ run.side.ctx = .zero := by
  have hfresh : freshProcess.Fresh := by
    unfold MicroMW.Fresh
    decide
  have hok : (microInit b allSucceed args.transportId freshProcess).1 = true := (microInit_fresh hs hfresh).1
  refine ⟨_, exec_cons.mpr ⟨_, ?_, exec_setup (microInit b allSucceed args.transportId freshProcess).2
    (initMoves b allSucceed args.transportId freshProcess) results⟩, rfl, rfl⟩
  simp [subEngineStep, subRunStep, subRunInit, subSideInit, perftestLiteSubscriber, hok]

variable (T) in
/-- The context at the capture of an `emptyTest`. -/
def emptyTestCtx : SubCtx :=
  (subOnSample T 0 (sampleOfKind .finalization) (subReset (subOnReaderMatched 1 .zero))).1

theorem exec_emptyTest {run : SubRun} (hpc : run.side.pc = .waitMatch) (hctx : run.side.ctx = .zero)
    (hroom : r.hasRoom = true) :
    ∃ s, exec (subEngineStep b T args) ⟨run, none, some r⟩ emptyTest = some s ∧
      s.results = some (r.push (subFillResult 0 (emptyTestCtx T))) := by
  obtain ⟨⟨pc, endpoint, ctx, pongW, pingR⟩, mw, ledger⟩ := run
  dsimp only at hpc hctx
  subst hpc hctx
  refine ⟨_, rfl, ?_⟩
  change SubState.results (if r.hasRoom then _ else _) = _
  rw [if_pos hroom]
  rfl

/-- A run of a subscriber that fills an entry. -/
theorem exec_fillsInPlace (cfg : Config) (h : FillsInPlace engines b T args) (hroom : r.hasRoom = true) :
    ∃ s, exec (mainStep b T cfg args) (mainInit engines T args freshProcess (some r))
        ((upToMatch b.dpse ++ emptyTest).map .subscriber) = some s ∧
      s.results = some (r.push (subFillResult 0 (emptyTestCtx T))) := by
  obtain ⟨run, hrun, hpc, hctx⟩ := exec_upToMatch (T := T) h.2 (some r)
  obtain ⟨s, hs, hres⟩ : ∃ s, exec (subEngineStep b T args) ⟨run, none, some r⟩ emptyTest = some s ∧ _ :=
    exec_emptyTest hpc hctx hroom
  have hengine : exec (subEngineStep b T args) ⟨subRunInit freshProcess, none, some r⟩
      (upToMatch b.dpse ++ emptyTest) = some s := exec_append.mpr ⟨_, hrun, hs⟩
  refine ⟨.subscriber s, ?_, hres⟩
  have hinit : mainInit engines T args freshProcess (some r) =
      .subscriber ⟨subRunInit freshProcess, none, some r⟩ := by
    unfold mainInit
    rw [h.1]
  rw [hinit, exec_map fun _ _ => rfl, hengine]
  rfl

/-- Where the subscriber fills an entry, what it does not write shows. -/
theorem StorageHidden.sameUnwritten (h : StorageHidden engines b T cfg args r r')
    (hshape : r.SameShape r') (hroom : r.hasRoom = true) (hfill : FillsInPlace engines b T args) :
    r.SameUnwritten r' := by
  obtain ⟨s, hs, hres⟩ := exec_fillsInPlace cfg hfill hroom
  obtain ⟨s', hs', hres'⟩ := exec_fillsInPlace cfg hfill (hshape.hasRoom ▸ hroom)
  obtain ⟨res, res', he, he', hsame⟩ := h freshProcess _ s s' hs hs'
  obtain rfl := Option.some.inj (hres.symm.trans he)
  obtain rfl := Option.some.inj (hres'.symm.trans he')
  have hentry := hsame.appended r.sizeCount le_rfl (Nat.lt_succ_self _)
  intro x y hx hy
  rw [Results.entry_push, hx] at hentry
  rw [hshape.count, Results.entry_push, hy] at hentry
  exact subFillResult_eq_iff.mp (Option.some.inj hentry)

/-- Every run leaves the entries already present alone and stays within the capacity. -/
theorem results_grown (hroom : r.hasRoom = true) {es : List MainEvent} {s : MainState}
    (hrun : exec (mainStep b T cfg args) (mainInit engines T args mw (some r)) es = some s) :
    ∃ res, s.results = some res ∧ r.Grown res := by
  have hself : r.SameUnwritten r := by
    intro x y hx hy
    obtain rfl := Option.some.inj (hx.symm.trans hy)
    exact ⟨rfl, rfl, rfl, rfl⟩
  obtain ⟨res, res', hres, -, hsame⟩ :=
    storageHidden_of_sameUnwritten ⟨rfl, rfl, rfl⟩ hroom (fun _ => hself) mw es s s hrun hrun
  exact ⟨res, hres, hsame.grown⟩

/-- **When a run's result does not depend on what the storage held**: for every caller's results with
room, unless a subscriber gets past `mw->init` and the four fields it does not write differ. -/
theorem storageHidden_iff (engines : Engines) (b : Build) (T : TypeInterface) (cfg : Config)
    (args : InputArgs) (hshape : r.SameShape r') (hroom : r.hasRoom = true) :
    StorageHidden engines b T cfg args r r' ↔ (FillsInPlace engines b T args → r.SameUnwritten r') :=
  ⟨fun h => h.sameUnwritten hshape hroom, storageHidden_of_sameUnwritten hshape hroom⟩

end Runs

/-- `perftest_lite_results_init` with a capacity of at least one leaves room. -/
theorem resultsInit_hasRoom {l : List SizeResult} {capacity : ℤ}
    {h : ∀ m, some l = some m → capacity ≤ m.length} (hcap : 1 ≤ capacity) :
    (resultsInit (some l) capacity h).hasRoom = true := by
  have hlt : ((0 : ℕ) : ℤ) < capacity := by omega
  exact decide_eq_true hlt

/-- With one capacity, only the contents of the storage differ. -/
theorem resultsInit_sameShape {l l' : List SizeResult} {capacity : ℤ}
    {h : ∀ m, some l = some m → capacity ≤ m.length} {h' : ∀ m, some l' = some m → capacity ≤ m.length} :
    (resultsInit (some l) capacity h).SameShape (resultsInit (some l') capacity h') := ⟨rfl, rfl, rfl⟩

/-- The storage of `perftest_lite_main_cli`, one entry. -/
def oneEntry (x : SizeResult) : Results :=
  resultsInit (some [x]) 1 fun l h => by cases h; exact le_rfl

/-- A percentile left over in the storage. -/
def leftover : SizeResult := { SizeResult.zero with p99LatencyUs := 7 }

/-- A publisher does not show the percentile. -/
theorem storageHidden_iff_publisher :
    StorageHidden ⟨true, true⟩ plainBuild sequenceType defaultConfig publisherDefaults (oneEntry .zero)
      (oneEntry leftover) := by
  have hshape : (oneEntry .zero).SameShape (oneEntry leftover) := resultsInit_sameShape
  exact (storageHidden_iff ⟨true, true⟩ plainBuild sequenceType defaultConfig publisherDefaults hshape
    (resultsInit_hasRoom le_rfl)).mpr fun h => absurd h.1 (by decide)

/-- A subscriber has it in its result. -/
theorem not_storageHidden_subscriber :
    ¬ StorageHidden ⟨true, true⟩ plainBuild sequenceType defaultConfig subscriberDefaults (oneEntry .zero)
      (oneEntry leftover) := by
  intro h
  have hfill : FillsInPlace ⟨true, true⟩ plainBuild sequenceType subscriberDefaults := by
    constructor <;> decide
  have hfree : (oneEntry .zero).SameUnwritten (oneEntry leftover) :=
    h.sameUnwritten resultsInit_sameShape (resultsInit_hasRoom le_rfl) hfill
  exact absurd (hfree _ _ rfl rfl).p99 (by decide)

end PerftestLite
