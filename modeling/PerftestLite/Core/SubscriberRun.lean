import PerftestLite.Core.Subscriber

/-!
# What a run of the subscriber remembers

Between the reset block and `shutdown` only the sample callback touches the counters, so the context
is the callback folded over what was delivered since the reset, and what was delivered before it is
gone.

* `SameCounters`, `counters_late`: the statements of the main thread leave the counters alone;
* `late_split`: every run past the reset block has exactly one reset step;
* `capturedEntry_eq`: what the capture writes into the results.
-/

set_option autoImplicit false

namespace PerftestLite

open Word Machine

/-- The samples delivered along a run, with their clock readings. -/
def received (es : List (ℕ × SubAction)) : List (ℕ × PerftestSample) :=
  es.filterMap fun e => match e.2 with
    | .sample x => some (e.1, x)
    | _ => none

@[simp] theorem received_nil : received [] = [] := rfl

theorem received_append (es fs : List (ℕ × SubAction)) :
    received (es ++ fs) = received es ++ received fs := List.filterMap_append

@[simp] theorem received_main (now : ℕ) : received [(now, .main)] = [] := rfl

@[simp] theorem received_sample (now : ℕ) (x : PerftestSample) :
    received [(now, .sample x)] = [(now, x)] := rfl

@[simp] theorem received_matched (now : ℕ) (change : ℤ) : received [(now, .matched change)] = [] := rfl

/-- The reset block has run. -/
def SubPc.late : SubPc → Bool
  | .waitMatch | .reset => false
  | .poll | .sleep | .stat | .line _ | .capture | .shutdown | .done => true

/-- The result has been captured. -/
def SubPc.captured : SubPc → Bool
  | .shutdown | .done => true
  | _ => false

/-- The counters of the callback agree; throughput and match count belong to others. -/
structure SameCounters (c d : SubCtx) : Prop where
  total : c.totalReceived = d.totalReceived
  size : c.currentSizeBytes = d.currentSizeBytes
  last : c.lastSeq = d.lastSeq
  lost : c.lostSamples = d.lostSamples
  start : c.testStartUs = d.testStartUs
  finished : c.finished = d.finished

theorem SameCounters.refl (c : SubCtx) : SameCounters c c := ⟨rfl, rfl, rfl, rfl, rfl, rfl⟩

theorem SameCounters.trans {c d e : SubCtx} (h : SameCounters c d) (h' : SameCounters d e) :
    SameCounters c e :=
  ⟨h.total.trans h'.total, h.size.trans h'.size, h.last.trans h'.last, h.lost.trans h'.lost,
    h.start.trans h'.start, h.finished.trans h'.finished⟩

variable {T : TypeInterface} {args : InputArgs} {s s' : SubState}

/-- The callback reads and writes nothing but the counters. -/
theorem SameCounters.sample {c d : SubCtx} (h : SameCounters c d) (now : ℕ) (x : PerftestSample) :
    SameCounters (subOnSample T now x c).1 (subOnSample T now x d).1 := by
  obtain ⟨h1, h2, h3, h4, h5, h6⟩ := h
  by_cases hx : x.isData = true
  · rw [subOnSample_data hx, subOnSample_data hx, h1, h3, h4, h5]
    exact ⟨rfl, rfl, rfl, rfl, rfl, h6⟩
  · rcases PerftestSample.kind_of_not_isData hx with hk | hk
    · rw [subOnSample_initialization hk, subOnSample_initialization hk]
      exact ⟨h1, h2, h3, h4, h5, h6⟩
    · cases hf : d.finished with
      | true =>
        rw [subOnSample_finished hk hf, subOnSample_finished hk (h6.trans hf)]
        exact ⟨h1, h2, h3, h4, h5, h6⟩
      | false =>
        rw [subOnSample_finalization hk hf, subOnSample_finalization hk (h6.trans hf), h3, h4]
        exact ⟨h1, h2, rfl, rfl, h5, rfl⟩

theorem sameCounters_matched (change : ℤ) (c : SubCtx) :
    SameCounters (subOnReaderMatched change c) c := by
  unfold subOnReaderMatched
  split_ifs <;> exact ⟨rfl, rfl, rfl, rfl, rfl, rfl⟩

theorem sameCounters_line (s : SubState) (l : SubLinePc) : SameCounters (subLineStep s l).ctx s.ctx := by
  cases l <;> exact ⟨rfl, rfl, rfl, rfl, rfl, rfl⟩

/-- A line ends where the loop polls again; before that it goes on to its next statement. -/
theorem subLineStep_pc (s : SubState) (l : SubLinePc) :
    (subLineStep s l).pc = .poll ∨ ∃ l', (subLineStep s l).pc = .line l' := by
  cases l with
  | delta now => exact .inr ⟨_, rfl⟩
  | last now delta => exact .inr ⟨_, rfl⟩
  | mbps now sps => exact .inr ⟨_, rfl⟩
  | print now sps mbps => exact .inl rfl

theorem subLineStep_late (s : SubState) (l : SubLinePc) : (subLineStep s l).pc.late = true := by
  rcases subLineStep_pc s l with h | ⟨l', h⟩ <;> rw [h] <;> rfl

theorem subLineStep_captured (s : SubState) (l : SubLinePc) : (subLineStep s l).pc.captured = false := by
  rcases subLineStep_pc s l with h | ⟨l', h⟩ <;> rw [h] <;> rfl

theorem subLineStep_results (s : SubState) (l : SubLinePc) : (subLineStep s l).results = s.results := by
  cases l <;> rfl

theorem sameCounters_capture (now : ℕ) (s : SubState) :
    SameCounters (subCapture now s).ctx s.ctx := by
  unfold subCapture
  split
  · split_ifs <;> exact ⟨rfl, rfl, rfl, rfl, rfl, rfl⟩
  · exact .refl _

/-- One step past the reset block: the counters move by the callback alone. -/
theorem late_step {e : ℕ × SubAction} (hl : s.pc.late = true)
    (hs : subStep T args s e = some s') :
    s'.pc.late = true ∧ SameCounters s'.ctx (subReceive T s.ctx (received [e])) := by
  obtain ⟨now, act⟩ := e
  cases act with
  | main =>
    rw [received_main]
    cases subMain_cases hs with
    | waiting hpc _ | matched hpc _ | reset hpc => simp [hpc, SubPc.late] at hl
    | line l hpc => exact ⟨subLineStep_late s l, sameCounters_line s l⟩
    | capture hpc => exact ⟨rfl, sameCounters_capture now s⟩
    | finished | again | sleep | stat | statLine | shutdown => exact ⟨rfl, .refl _⟩
  | sample x =>
    simp only [subStep, Option.ite_none_left_eq_some, Option.some.injEq] at hs
    rw [← hs.2]
    exact ⟨hl, .refl _⟩
  | matched change =>
    simp only [subStep, Option.ite_none_left_eq_some, Option.some.injEq] at hs
    rw [← hs.2]
    exact ⟨hl, sameCounters_matched change s.ctx⟩

theorem SameCounters.receive {c d : SubCtx} (h : SameCounters c d) (ds : List (ℕ × PerftestSample)) :
    SameCounters (subReceive T c ds) (subReceive T d ds) := by
  induction ds generalizing c d with
  | nil => exact h
  | cons e ds ih => exact ih (h.sample e.1 e.2)

/-- **Past the reset block the counters are the callback folded over the deliveries.** -/
theorem counters_late {es : List (ℕ × SubAction)} (hl : s.pc.late = true)
    (hrun : exec (subStep T args) s es = some s') :
    s'.pc.late = true ∧ SameCounters s'.ctx (subReceive T s.ctx (received es)) := by
  induction es generalizing s with
  | nil =>
    cases hrun
    exact ⟨hl, .refl _⟩
  | cons e es ih =>
    obtain ⟨m, he, hrest⟩ := exec_cons.mp hrun
    obtain ⟨hlm, hm⟩ := late_step hl he
    obtain ⟨hl', hs'⟩ := ih hlm hrest
    refine ⟨hl', hs'.trans ?_⟩
    rw [← List.singleton_append, received_append, subReceive_append]
    exact hm.receive _

/-! ## The reset block -/

/-- The state the reset block leaves behind at `now`. -/
def SubState.afterReset (s : SubState) (now : ℕ) : SubState :=
  { s with pc := .poll, ctx := subReset s.ctx, tLastPrint := now, lastCount := 0 }

/-- A step from before the reset block to behind it is the reset block. -/
theorem reset_of_late {e : ℕ × SubAction} (hl : s.pc.late = false) (hl' : s'.pc.late = true)
    (hs : subStep T args s e = some s') :
    ∃ now, e = (now, .main) ∧ s.pc = .reset ∧ s' = s.afterReset now := by
  obtain ⟨now, act⟩ := e
  cases act with
  | main =>
    cases subMain_cases hs with
    | reset hpc => exact ⟨now, rfl, hpc, rfl⟩
    | waiting hpc _ => simp [hpc, SubPc.late] at hl'
    | matched hpc _ => simp [SubPc.late] at hl'
    | finished hpc _ | again hpc _ | sleep hpc | stat hpc _ | statLine hpc _ _ | line _ hpc | capture hpc
    | shutdown hpc =>
      simp [hpc, SubPc.late] at hl
  | sample x | matched change =>
    simp only [subStep, Option.ite_none_left_eq_some, Option.some.injEq] at hs
    rw [← hs.2] at hl'
    simp [hl] at hl'

/-- **Every run past the reset block has a reset step**: what precedes it and what follows. -/
theorem late_split {es : List (ℕ × SubAction)} (hl : s.pc.late = false) (hl' : s'.pc.late = true)
    (hrun : exec (subStep T args) s es = some s') :
    ∃ pre now post q, es = pre ++ (now, .main) :: post ∧ exec (subStep T args) s pre = some q ∧
      q.pc = .reset ∧ exec (subStep T args) (q.afterReset now) post = some s' := by
  obtain ⟨pre, e, post, q, m, rfl, hq, he, h1, h2, hpost⟩ := exec_flip (fun s => s.pc.late) hrun hl hl'
  obtain ⟨now, rfl, hpc, rfl⟩ := reset_of_late h1 h2 he
  exact ⟨pre, now, post, q, rfl, hq, hpc, hpost⟩

/-! ## The capture -/

/-- The results are the caller's until the capture. -/
theorem results_step {e : ℕ × SubAction} (hc : s'.pc.captured = false)
    (hs : subStep T args s e = some s') : s.pc.captured = false ∧ s'.results = s.results := by
  obtain ⟨now, act⟩ := e
  cases act with
  | main =>
    cases subMain_cases hs with
    | capture hpc | shutdown hpc => simp [SubPc.captured] at hc
    | line l hpc => exact ⟨by simp [hpc, SubPc.captured], subLineStep_results s l⟩
    | waiting hpc _ | matched hpc _ | reset hpc | finished hpc _ | again hpc _ | sleep hpc | stat hpc _
    | statLine hpc _ _ =>
      exact ⟨by simp [hpc, SubPc.captured], rfl⟩
  | sample x | matched change =>
    simp only [subStep, Option.ite_none_left_eq_some, Option.some.injEq] at hs
    rw [← hs.2] at hc ⊢
    exact ⟨hc, rfl⟩

theorem results_run {es : List (ℕ × SubAction)} (hrun : exec (subStep T args) s es = some s')
    (hc : s'.pc.captured = false) : s'.results = s.results := by
  induction es using List.reverseRecOn generalizing s' with
  | nil =>
    cases hrun
    rfl
  | append_singleton es e ih =>
    obtain ⟨m, hm, he⟩ := exec_snoc.mp hrun
    obtain ⟨hcm, hr⟩ := results_step hc he
    exact hr.trans (ih hm hcm)

/-- A step at which the result gets captured is the capture. -/
theorem capture_of_captured {e : ℕ × SubAction} (hc : s.pc.captured = false)
    (hc' : s'.pc.captured = true) (hs : subStep T args s e = some s') :
    ∃ now, e = (now, .main) ∧ s.pc = .capture := by
  obtain ⟨now, act⟩ := e
  cases act with
  | main =>
    cases subMain_cases hs with
    | capture hpc => exact ⟨now, rfl, hpc⟩
    | shutdown hpc => simp [hpc, SubPc.captured] at hc
    | waiting hpc _ => simp [hpc, SubPc.captured] at hc'
    | line l hpc => simp [subLineStep_captured] at hc'
    | matched hpc _ | reset hpc | finished hpc _ | again hpc _ | sleep hpc | stat hpc _ | statLine hpc _ _ =>
      simp [SubPc.captured] at hc'
  | sample x | matched change =>
    simp only [subStep, Option.ite_none_left_eq_some, Option.some.injEq] at hs
    rw [← hs.2] at hc'
    simp [hc] at hc'

/-- The entry the capture has just appended. -/
def capturedEntry (now : ℕ) (s : SubState) : Option SizeResult :=
  (subCapture now s).results.bind fun r => r.entry (r.sizeCount - 1)

/-- **What the capture writes**, if there is room. -/
theorem capturedEntry_eq {r : Results} (hr : s.results = some r) (hroom : r.hasRoom = true)
    (now : ℕ) : ∃ x, r.entry r.sizeCount = some x ∧
      capturedEntry now s = some (subFillResult now s.ctx x) := by
  obtain ⟨x, hx⟩ := Results.exists_entry_of_hasRoom hroom
  refine ⟨x, hx, ?_⟩
  have hpush : (subCapture now s).results = some (r.push (subFillResult now s.ctx)) := by
    simp [subCapture, hr, hroom]
  rw [capturedEntry, hpush, Option.bind_some]
  change (r.push (subFillResult now s.ctx)).entry (r.sizeCount + 1 - 1) = _
  rw [Nat.add_sub_cancel, Results.entry_push, hx]
  rfl

end PerftestLite
