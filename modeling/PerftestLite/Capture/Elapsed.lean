import PerftestLite.Capture.Forgotten

/-!
# When the measurement ends

The measurement starts at the first data sample and ends where the main thread reads the clock to
capture the result, one poll or more behind the `FINALIZATION` that ended the test. So the elapsed
time depends on the polling, through the reading at the capture and through nothing else.

* `Capture`: a run from the start of the subscriber up to its capture;
* `Capture.elapsed`: the elapsed time of the entry;
* `elapsed_at_capture`: two runs with the same deliveries.
-/

set_option autoImplicit false

namespace PerftestLite

open Word Machine

/-- The first clock reading at a data sample. Zero is the sentinel of `test_start_us`: such a
reading starts nothing. -/
def firstData (ds : List (ℕ × PerftestSample)) : Option ℕ :=
  ((ds.filter fun d => d.2.isData).map Prod.fst).find? fun t => decide (t ≠ 0)

/-- The clock reading at the first `FINALIZATION`. -/
def firstFinal (ds : List (ℕ × PerftestSample)) : Option ℕ :=
  (ds.find? fun d => decide (d.2.kind = .finalization)).map Prod.fst

/-- A run of the subscriber up to the capture at clock reading `captureAt`: what happens before the
reset block, the block itself at `resetAt`, what happens behind it. The clock never goes back. -/
structure Capture (T : TypeInterface) where
  args : InputArgs
  storage : Results
  before : List (ℕ × SubAction)
  resetAt : ℕ
  after : List (ℕ × SubAction)
  captureAt : ℕ
  waiting : SubState
  final : SubState
  room : storage.hasRoom = true
  runBefore : exec (subStep T args) (subInit (some storage)) before = some waiting
  atReset : waiting.pc = .reset
  runAfter : exec (subStep T args) (waiting.afterReset resetAt) after = some final
  atCapture : final.pc = .capture
  clock : ∀ e ∈ after, e.1 ≤ captureAt
  word : captureAt < 18446744073709551616

namespace Capture

variable {T : TypeInterface}

/-- What is delivered since the reset, with the clock readings. -/
def deliveries (c : Capture T) : List (ℕ × PerftestSample) := received c.after

/-- The entry the capture appends. -/
def entry (c : Capture T) : Option SizeResult := capturedEntry c.captureAt c.final

end Capture

section

variable {T : TypeInterface} {ds : List (ℕ × PerftestSample)}

theorem firstData_cons (d : ℕ × PerftestSample) :
    firstData (d :: ds) = if d.2.isData = true ∧ d.1 ≠ 0 then some d.1 else firstData ds := by
  by_cases hd : d.2.isData = true
  · by_cases h0 : d.1 = 0 <;> simp [firstData, hd, h0]
  · simp [firstData, hd]

theorem firstData_mem {t : ℕ} (h : firstData ds = some t) :
    ∃ d ∈ ds, d.2.isData = true ∧ d.1 = t ∧ t ≠ 0 := by
  unfold firstData at h
  obtain ⟨d, hd, rfl⟩ := List.mem_map.mp (List.mem_of_find?_eq_some h)
  obtain ⟨hmem, hdata⟩ := List.mem_filter.mp hd
  have h0 := List.find?_some h
  exact ⟨d, hmem, hdata, rfl, of_decide_eq_true h0⟩

theorem subOnSample_start (now : ℕ) (x : PerftestSample) (c : SubCtx) :
    (subOnSample T now x c).1.testStartUs =
      if c.testStartUs = 0 ∧ x.isData = true then now else c.testStartUs := by
  by_cases hx : x.isData = true
  · simp [subOnSample_data hx, hx]
  · obtain ⟨lost, fin, ho⟩ := subOnSample_other (T := T) (c := c) hx
    rw [if_neg fun h => hx h.2, ho]

/-- The start of the test is the first reading at a data sample. -/
theorem subReceive_start (c : SubCtx) (ds : List (ℕ × PerftestSample)) :
    (subReceive T c ds).testStartUs =
      if c.testStartUs = 0 then (firstData ds).getD 0 else c.testStartUs := by
  induction ds generalizing c with
  | nil => by_cases h : c.testStartUs = 0 <;> simp [subReceive, firstData, h]
  | cons d ds ih =>
    rw [subReceive_cons, ih, subOnSample_start, firstData_cons]
    by_cases h0 : c.testStartUs = 0 <;> by_cases hx : d.2.isData = true <;>
      by_cases h1 : d.1 = 0 <;> simp [h0, hx, h1]

namespace Capture

/-- The entry is made from the deliveries since the reset and the reading at the capture. -/
theorem entry_eq (c : Capture T) : ∃ e, c.entry = some e ∧
    e.elapsedUs = subElapsed c.captureAt (subReceive T (subReset c.waiting.ctx) c.deliveries) ∧
    e.avgThroughputMbps = subFinalMbps e.elapsedUs
      (subReceive T (subReset c.waiting.ctx) c.deliveries) := by
  have hr : c.waiting.results = some c.storage :=
    results_run c.runBefore (by simp [c.atReset, SubPc.captured])
  have hr' : c.final.results = some c.storage :=
    (results_run c.runAfter (by simp [c.atCapture, SubPc.captured])).trans hr
  obtain ⟨x, -, hx⟩ := capturedEntry_eq hr' c.room c.captureAt
  obtain ⟨-, hsame⟩ := counters_late (s := c.waiting.afterReset c.resetAt) rfl c.runAfter
  have hstart : c.final.ctx.testStartUs =
      (subReceive T (subReset c.waiting.ctx) c.deliveries).testStartUs := hsame.start
  refine ⟨_, hx, ?_, ?_⟩
  · change subElapsed c.captureAt c.final.ctx = _
    rw [subElapsed, subElapsed, hstart]
  · change subFinalMbps (subElapsed c.captureAt c.final.ctx) c.final.ctx =
      subFinalMbps (subElapsed c.captureAt c.final.ctx) _
    have ht : c.final.ctx.totalReceived =
        (subReceive T (subReset c.waiting.ctx) c.deliveries).totalReceived := hsame.total
    rw [subFinalMbps, subFinalMbps, ht]
    by_cases h0 : (subReceive T (subReset c.waiting.ctx) c.deliveries).totalReceived > 0
    · have hs : c.final.ctx.currentSizeBytes =
          (subReceive T (subReset c.waiting.ctx) c.deliveries).currentSizeBytes := hsame.size
      rw [hs]
    · simp [h0]

/-- The deliveries precede the capture. -/
theorem le_captureAt (c : Capture T) {d : ℕ × PerftestSample} (hd : d ∈ c.deliveries) :
    d.1 ≤ c.captureAt := by
  obtain ⟨ev, hev, hsome⟩ := List.mem_filterMap.mp hd
  have hfst : ev.1 = d.1 := by
    cases hact : ev.2 <;> simp [hact] at hsome
    rw [← hsome]
  rw [← hfst]
  exact c.clock ev hev

/-- **The elapsed time** runs from the first data sample to the capture. -/
theorem elapsed (c : Capture T) {t₁ : ℕ} (h₁ : firstData c.deliveries = some t₁) :
    ∃ e, c.entry = some e ∧ t₁ ≤ c.captureAt ∧ e.elapsedUs = c.captureAt - t₁ ∧
      e.avgThroughputMbps = subFinalMbps (c.captureAt - t₁)
        (subReceive T (subReset c.waiting.ctx) c.deliveries) := by
  obtain ⟨e, he, hel, hth⟩ := c.entry_eq
  obtain ⟨d, hd, -, hdt, h0⟩ := firstData_mem h₁
  have hle : t₁ ≤ c.captureAt := by
    rw [← hdt]
    exact c.le_captureAt hd
  have hstart : (subReceive T (subReset c.waiting.ctx) c.deliveries).testStartUs = t₁ := by
    rw [subReceive_start, h₁]
    rfl
  have hval : e.elapsedUs = c.captureAt - t₁ := by
    rw [hel, subElapsed, hstart, if_pos h0, u64Sub_of_le hle c.word]
  exact ⟨e, he, hle, hval, by rw [hth, hval]⟩

end Capture

/-- The size is that of the last data sample. -/
theorem subReceive_size (c : SubCtx) (ds : List (ℕ × PerftestSample)) :
    (subReceive T c ds).currentSizeBytes =
      (ds.filter fun d => d.2.isData).getLast?.elim c.currentSizeBytes
        fun d => T.getSampleSize d.2 := by
  induction ds using List.reverseRecOn with
  | nil => rfl
  | append_singleton ds d ih =>
    rw [subReceive_append]
    change (subOnSample T d.1 d.2 (subReceive T c ds)).1.currentSizeBytes = _
    by_cases hd : d.2.isData = true
    · rw [subOnSample_data hd, List.filter_append]
      simp [hd]
    · have hfilter : [d].filter (fun d => d.2.isData) = [] := by simp [hd]
      obtain ⟨lost, fin, ho⟩ := subOnSample_other (T := T) (c := subReceive T c ds) hd
      rw [List.filter_append, hfilter, List.append_nil, ← ih, ho]

/-- The throughput does not depend on what the reset block found. -/
theorem subFinalMbps_reset (n : ℕ) (c d : SubCtx) {e : ℕ × PerftestSample} (he : e ∈ ds)
    (hdata : e.2.isData = true) :
    subFinalMbps n (subReceive T (subReset c) ds) = subFinalMbps n (subReceive T (subReset d) ds) := by
  have htotal : (subReceive T (subReset c) ds).totalReceived =
      (subReceive T (subReset d) ds).totalReceived := by
    rw [(subReceive_counts _ ds).1, (subReceive_counts _ ds).1]
    rfl
  have hne : ds.filter (fun d => d.2.isData) ≠ [] :=
    List.ne_nil_of_mem (List.mem_filter.mpr ⟨he, hdata⟩)
  have hsize : (subReceive T (subReset c) ds).currentSizeBytes =
      (subReceive T (subReset d) ds).currentSizeBytes := by
    rw [subReceive_size, subReceive_size, List.getLast?_eq_some_getLast hne]
    rfl
  rw [subFinalMbps, subFinalMbps, htotal, hsize]

/-- **Two runs with the same deliveries.** The elapsed time is the time from the first data sample to
the first `FINALIZATION` and the delay from there to the capture. So it is the same exactly when the
captures read the same clock value, and then the throughput is the same too. -/
theorem elapsed_at_capture (c c' : Capture T) (hds : c.deliveries = c'.deliveries) {t₁ tf : ℕ}
    (h₁ : firstData c.deliveries = some t₁) (hf : firstFinal c.deliveries = some tf) :
    ∃ e e', c.entry = some e ∧ c'.entry = some e' ∧ tf ≤ c.captureAt ∧
      (e.elapsedUs : ℤ) = (tf - t₁) + (c.captureAt - tf : ℕ) ∧
      (e.elapsedUs = e'.elapsedUs ↔ c.captureAt = c'.captureAt) ∧
      (c.captureAt = c'.captureAt → e.avgThroughputMbps = e'.avgThroughputMbps) := by
  obtain ⟨e, he, hle, hel, hth⟩ := c.elapsed h₁
  obtain ⟨e', he', hle', hel', hth'⟩ := c'.elapsed (hds ▸ h₁)
  obtain ⟨d, hd, hdata, -⟩ := firstData_mem h₁
  obtain ⟨x, hx, hxt⟩ := Option.map_eq_some_iff.mp hf
  have hlef : tf ≤ c.captureAt := hxt ▸ c.le_captureAt (List.mem_of_find?_eq_some hx)
  refine ⟨e, e', he, he', hlef, by omega, by omega, fun hc => ?_⟩
  rw [hth, hth', hc, hds]
  exact subFinalMbps_reset _ _ _ (hds ▸ hd) hdata

end

/-! ## The same deliveries, polled every 20 milliseconds and every second -/

/-- Up to the reset block. -/
def matchAndReset : List (ℕ × SubAction) := [(1000, .main), (1010, .matched 1), (51000, .main)]

/-- Behind the reset block: one data sample and the end of the test arrive while the main thread
sleeps until `wake`. -/
def pollUntil (wake : ℕ) : List (ℕ × SubAction) :=
  [(51020, .main), (52000, .sample (sampleOf .data 1)), (70000, .sample (sampleOf .finalization 1)),
    (wake, .main), (wake + 10, .main), (wake + 20, .main)]

/-- The subscriber about to run the reset block. -/
def beforeReset : SubState :=
  (exec (subStep sequenceType subscriberDefaults) (subInit (some oneResult)) matchAndReset).getD
    (subInit none)

/-- The subscriber about to capture. -/
def beforeCapture (wake : ℕ) : SubState :=
  (exec (subStep sequenceType subscriberDefaults) (beforeReset.afterReset 51010)
    (pollUntil wake)).getD (subInit none)

/-- `-subSleep 1000000`, the default: the sleep begun at 51020 ends a second later. -/
def slowPolling : Capture sequenceType where
  args := subscriberDefaults
  storage := oneResult
  before := matchAndReset
  resetAt := 51010
  after := pollUntil 1051030
  captureAt := 1051060
  waiting := beforeReset
  final := beforeCapture 1051030
  room := by decide
  runBefore := by decide +kernel
  atReset := by decide +kernel
  runAfter := by decide +kernel
  atCapture := by decide +kernel
  clock := by decide +kernel
  word := by decide

/-- `-subSleep 20000`. -/
def fastPolling : Capture sequenceType where
  args := { subscriberDefaults with subSleepUs := 20000 }
  storage := oneResult
  before := matchAndReset
  resetAt := 51010
  after := pollUntil 71030
  captureAt := 71060
  waiting := beforeReset
  final := beforeCapture 71030
  room := by decide
  runBefore := by decide +kernel
  atReset := by decide +kernel
  runAfter := by decide +kernel
  atCapture := by decide +kernel
  clock := by decide +kernel
  word := by decide

theorem elapsed_at_capture_slow_fast :
    ∃ e e', slowPolling.entry = some e ∧ fastPolling.entry = some e' ∧
      70000 ≤ slowPolling.captureAt ∧
      (e.elapsedUs : ℤ) = ((70000 : ℕ) - (52000 : ℕ)) + (slowPolling.captureAt - 70000 : ℕ) ∧
      (e.elapsedUs = e'.elapsedUs ↔ slowPolling.captureAt = fastPolling.captureAt) ∧
      (slowPolling.captureAt = fastPolling.captureAt → e.avgThroughputMbps = e'.avgThroughputMbps) :=
  elapsed_at_capture slowPolling fastPolling (by decide +kernel) (by decide +kernel)
    (by decide +kernel)

/-- The samples arrive at the same times, the first data at 52000 and the `FINALIZATION` at 70000, and
the two elapsed times differ. -/
theorem elapsed_depends_on_polling :
    slowPolling.deliveries = fastPolling.deliveries ∧
      firstData slowPolling.deliveries = some 52000 ∧
      firstFinal slowPolling.deliveries = some 70000 ∧
      slowPolling.entry.map (fun e => e.elapsedUs) = some 999060 ∧
      fastPolling.entry.map (fun e => e.elapsedUs) = some 19060 := by
  decide +kernel

end PerftestLite
