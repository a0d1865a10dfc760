import PerftestLite.Core.Args
import PerftestLite.Core.SubscriberRun

/-!
# What the subscriber forgets

The listener is live while the main thread still waits for a match, and the reset block then zeroes
the counters and `finished` again. A sample that arrives before the block is forgotten; nothing that
arrives after it is.

* `Remembers`: `finished` stays set until the capture, and the capture counts every data sample;
* `NothingEarly`: only warm-up samples arrive before the reset block;
* `remembers_iff`: the second is what the first needs.
-/

set_option autoImplicit false

namespace PerftestLite

open Word Machine

/-- The data samples among the deliveries. -/
def dataCount (ds : List (ℕ × PerftestSample)) : ℕ := (ds.filter fun d => d.2.isData).length

/-- A `FINALIZATION` is among the deliveries. -/
def Finalized (ds : List (ℕ × PerftestSample)) : Prop := ∃ d ∈ ds, d.2.kind = .finalization

/-- Along the run a `FINALIZATION` once processed leaves `finished` set until the result is captured,
and the captured total is the number of data samples delivered so far. -/
def Remembers (T : TypeInterface) (args : InputArgs) (r : Results) (es : List (ℕ × SubAction)) :
    Prop :=
  (∀ pre suf q, es = pre ++ suf → exec (subStep T args) (subInit (some r)) pre = some q →
    q.pc.captured = false → Finalized (received pre) → q.ctx.finished = true) ∧
  ∀ pre now suf q, es = pre ++ (now, .main) :: suf →
    exec (subStep T args) (subInit (some r)) pre = some q → q.pc = .capture →
    ∃ x, capturedEntry now q = some x ∧ x.totalSamples = dataCount (received pre)

/-- Until the reset block has run only warm-up samples are delivered. -/
def NothingEarly (T : TypeInterface) (args : InputArgs) (r : Results) (es : List (ℕ × SubAction)) :
    Prop :=
  ∀ pre suf q, es = pre ++ suf → exec (subStep T args) (subInit (some r)) pre = some q →
    q.pc.late = false → ∀ d ∈ received pre, d.2.kind = .initialization

section

variable {T : TypeInterface} {args : InputArgs} {r : Results} {s q : SubState}
  {es pre post : List (ℕ × SubAction)}

theorem dataCount_append (ds es : List (ℕ × PerftestSample)) :
    dataCount (ds ++ es) = dataCount ds + dataCount es := by
  simp [dataCount]

theorem dataCount_eq_zero_iff {ds : List (ℕ × PerftestSample)} :
    dataCount ds = 0 ↔ ∀ d ∈ ds, d.2.isData = false := by
  simp [dataCount, List.filter_eq_nil_iff]

theorem finalized_append (ds es : List (ℕ × PerftestSample)) :
    Finalized (ds ++ es) ↔ Finalized ds ∨ Finalized es := by
  simp [Finalized, or_and_right, exists_or]

/-- One sample: counted if it is data, the end if it is a `FINALIZATION`. -/
theorem subOnSample_counts (now : ℕ) (x : PerftestSample) (c : SubCtx) :
    (subOnSample T now x c).1.totalReceived = c.totalReceived + dataCount [(now, x)] ∧
      ((subOnSample T now x c).1.finished = true ↔ c.finished = true ∨ x.kind = .finalization) := by
  by_cases hx : x.isData = true
  · have hk : x.kind ≠ .finalization := fun hk => by
      rw [PerftestSample.isData_eq hk] at hx
      cases hx
    rw [subOnSample_data hx]
    simp [dataCount, hx, hk]
  · rcases PerftestSample.kind_of_not_isData hx with hk | hk
    · simp [subOnSample_initialization hk, dataCount, hx, hk]
    · cases hf : c.finished with
      | true => simp [subOnSample_finished hk hf, dataCount, hx, hf]
      | false => simp [subOnSample_finalization hk hf, dataCount, hx, hk]

/-- The callback counts what it is given. -/
theorem subReceive_counts (c : SubCtx) (ds : List (ℕ × PerftestSample)) :
    (subReceive T c ds).totalReceived = c.totalReceived + dataCount ds ∧
      ((subReceive T c ds).finished = true ↔ c.finished = true ∨ Finalized ds) := by
  induction ds generalizing c with
  | nil => simp [subReceive, dataCount, Finalized]
  | cons d ds ih =>
    obtain ⟨h1, h2⟩ := subOnSample_counts (T := T) d.1 d.2 c
    obtain ⟨h3, h4⟩ := ih (subOnSample T d.1 d.2 c).1
    have hcons : dataCount (d :: ds) = dataCount [d] + dataCount ds := dataCount_append [d] ds
    have hfin : Finalized (d :: ds) ↔ Finalized [d] ∨ Finalized ds := finalized_append [d] ds
    rw [subReceive_cons, h3, h4, h1, h2, hcons, hfin]
    refine ⟨Nat.add_assoc _ _ _, ?_⟩
    simp [Finalized, or_assoc]

/-- Behind the reset block the counters are those of the deliveries since. -/
theorem counts_since_reset {now : ℕ} (hrun : exec (subStep T args) (q.afterReset now) post = some s) :
    s.ctx.totalReceived = dataCount (received post) ∧
      (s.ctx.finished = true ↔ Finalized (received post)) := by
  obtain ⟨-, hsame⟩ := counters_late (s := q.afterReset now) rfl hrun
  obtain ⟨h1, h2⟩ := subReceive_counts (T := T) (q.afterReset now).ctx (received post)
  rw [hsame.total, hsame.finished, h1, h2]
  simp [SubState.afterReset, subReset]

/-- A run past the reset block that meets `NothingEarly` counts all its deliveries. -/
theorem counts_of_nothingEarly (h : NothingEarly T args r es) {suf : List (ℕ × SubAction)}
    (hes : es = pre ++ suf) (hpre : exec (subStep T args) (subInit (some r)) pre = some q)
    (hl : q.pc.late = true) :
    q.ctx.totalReceived = dataCount (received pre) ∧
      (Finalized (received pre) → q.ctx.finished = true) := by
  obtain ⟨p₀, now, post, q₀, rfl, hq₀, hpc, hpost⟩ := late_split rfl hl hpre
  have hearly := h p₀ ((now, .main) :: post ++ suf) q₀ (by rw [hes, List.append_assoc]) hq₀
    (by simp [hpc, SubPc.late])
  obtain ⟨htot, hfin⟩ := counts_since_reset hpost
  have hrec : received (p₀ ++ (now, .main) :: post) = received p₀ ++ received post := by
    rw [← List.singleton_append, received_append, received_append, received_main, List.nil_append]
  have hzero : dataCount (received p₀) = 0 := dataCount_eq_zero_iff.mpr fun d hd =>
    PerftestSample.isData_eq (hearly d hd)
  rw [hrec, dataCount_append, hzero, htot, finalized_append]
  refine ⟨(Nat.zero_add _).symm, ?_⟩
  rintro (⟨d, hd, hk⟩ | hpostfin)
  · rw [hearly d hd] at hk
    cases hk
  · exact hfin.mpr hpostfin

theorem remembers_of_nothingEarly (hroom : r.hasRoom = true) (h : NothingEarly T args r es) :
    Remembers T args r es := by
  constructor
  · intro pre suf q hes hpre _ hfin
    cases hl : q.pc.late with
    | true => exact (counts_of_nothingEarly h hes hpre hl).2 hfin
    | false =>
      obtain ⟨d, hd, hk⟩ := hfin
      rw [h pre suf q hes hpre hl d hd] at hk
      cases hk
  · intro pre now suf q hes hpre hpc
    have hr := results_run hpre (by simp [hpc, SubPc.captured])
    obtain ⟨x, -, hx⟩ := capturedEntry_eq hr hroom now
    exact ⟨_, hx, (counts_of_nothingEarly h hes hpre (by simp [hpc, SubPc.late])).1⟩

/-- Before the reset step of a run nothing but warm-up samples came, if the run remembers. -/
theorem early_of_remembers (hroom : r.hasRoom = true) (h : Remembers T args r es) {now : ℕ}
    (hes : es = pre ++ (now, .main) :: post)
    (hq : exec (subStep T args) (subInit (some r)) pre = some q) (hpc : q.pc = .reset)
    (hpost : exec (subStep T args) (q.afterReset now) post = some s) (hc : s.pc.captured = true) :
    ∀ d ∈ received pre, d.2.kind = .initialization := by
  have hstep : subStep T args q (now, .main) = some (q.afterReset now) := by
    simp [subStep, subMain, hpc, SubState.afterReset]
  have hafter : exec (subStep T args) (subInit (some r)) (pre ++ [(now, .main)]) =
      some (q.afterReset now) := exec_snoc.mpr ⟨q, hq, hstep⟩
  -- no end of test was processed: the reset has just cleared `finished`
  have hfin : ¬ Finalized (received pre) := fun hfin => by
    have := h.1 (pre ++ [(now, .main)]) post (q.afterReset now) (by rw [hes]; simp) hafter rfl
      (by rw [received_append]; exact (finalized_append _ _).mpr (.inl hfin))
    simp [SubState.afterReset, subReset] at this
  -- no data was counted: the capture counts from the reset on
  obtain ⟨p₁, e, p₂, m, m', rfl, hm, he, h1, h2, -⟩ :=
    exec_flip (fun s => s.pc.captured) hpost rfl hc
  obtain ⟨tc, rfl, hpcm⟩ := capture_of_captured h1 h2 he
  have hrun : exec (subStep T args) (subInit (some r)) (pre ++ [(now, .main)] ++ p₁) = some m :=
    exec_append.mpr ⟨_, hafter, hm⟩
  obtain ⟨x, hx, htot⟩ := h.2 (pre ++ [(now, .main)] ++ p₁) tc p₂ m (by rw [hes]; simp) hrun hpcm
  obtain ⟨y, -, hy⟩ := capturedEntry_eq (results_run hrun h1) hroom tc
  rw [hy, Option.some.injEq] at hx
  rw [← hx] at htot
  change m.ctx.totalReceived = _ at htot
  rw [(counts_since_reset hm).1, received_append, received_append, received_main, List.append_nil,
    dataCount_append] at htot
  have hzero : dataCount (received pre) = 0 := by omega
  intro d hd
  have hdata := dataCount_eq_zero_iff.mp hzero d hd
  rcases PerftestSample.kind_of_not_isData (by rw [hdata]; exact Bool.false_ne_true) with hk | hk
  · exact hk
  · exact absurd ⟨d, hd, hk⟩ hfin

/-- **A run remembers what it is given when only warm-up samples arrive before the reset block**, and
a run that captures its result remembers under no other condition. -/
theorem remembers_iff (hroom : r.hasRoom = true)
    (hrun : exec (subStep T args) (subInit (some r)) es = some s) :
    (NothingEarly T args r es → Remembers T args r es) ∧
      (s.pc.captured = true → (Remembers T args r es ↔ NothingEarly T args r es)) := by
  refine ⟨remembers_of_nothingEarly hroom, fun hc =>
    ⟨fun h => ?_, remembers_of_nothingEarly hroom⟩⟩
  have hl : s.pc.late = true := by
    revert hc
    cases s.pc <;> simp [SubPc.captured, SubPc.late]
  obtain ⟨p₀, now, post, q₀, hes, hq₀, hpc, hpost⟩ := late_split rfl hl hrun
  have hearly := early_of_remembers hroom h hes hq₀ hpc hpost hc
  intro pre suf q hes' hq hlq d hd
  rw [hes] at hes'
  rcases List.append_eq_append_iff.mp hes' with ⟨a, ha, hb⟩ | ⟨a, ha, -⟩
  · cases a with
    | nil =>
      rw [ha, List.append_nil] at hd
      exact hearly d hd
    | cons e a =>
      obtain ⟨rfl, -⟩ := List.cons.inj hb
      rw [ha] at hq
      obtain ⟨q', hq', hrest⟩ := exec_append.mp hq
      obtain rfl : q₀ = q' := Option.some.inj (hq₀.symm.trans hq')
      obtain ⟨m, hm, hrest⟩ := exec_cons.mp hrest
      have hlm : m.pc.late = true := by
        simp only [subStep, subMain, hpc, Option.some.injEq] at hm
        rw [← hm]
        rfl
      rw [(counters_late hlm hrest).1] at hlq
      cases hlq
  · refine hearly d ?_
    rw [ha, received_append]
    exact List.mem_append_left _ hd

end

/-! ## A sample before the reset block -/

/-- Storage for one result. -/
def oneResult : Results := ⟨0, 1, some [.zero], by simp⟩

/-- A data sample or an end of test as the sequence type carries it. -/
def sampleOf (kind : PerftestTypeKind) (seq : ℤ) : PerftestSample := ⟨seq, kind, 0, ⟨64000, 72⟩⟩

/-- The ping path is matched and a first data sample arrives while the main thread sleeps in the
match wait; a second one and the end of the test arrive after the reset. -/
def earlySample : List (ℕ × SubAction) :=
  [(1000, .main), (1010, .matched 1), (2000, .sample (sampleOf .data 1)), (51000, .main),
    (51010, .main), (51020, .main), (52000, .sample (sampleOf .data 2)),
    (70000, .sample (sampleOf .finalization 2)), (1051030, .main), (1051040, .main),
    (1051050, .main)]

/-- The subscriber after `earlySample`, about to capture. -/
def earlySampleEnd : SubState :=
  (exec (subStep sequenceType subscriberDefaults) (subInit (some oneResult)) earlySample).getD
    (subInit none)

theorem exec_earlySample :
    exec (subStep sequenceType subscriberDefaults) (subInit (some oneResult)) earlySample =
      some earlySampleEnd := by
  decide +kernel

/-- The subscriber after the capture. -/
def earlySampleCaptured : SubState := { subCapture 1051060 earlySampleEnd with pc := .shutdown }

theorem exec_earlySample_capture :
    exec (subStep sequenceType subscriberDefaults) (subInit (some oneResult))
      (earlySample ++ [(1051060, .main)]) = some earlySampleCaptured :=
  exec_snoc.mpr ⟨_, exec_earlySample, by decide +kernel⟩

theorem remembers_iff_early :
    Remembers sequenceType subscriberDefaults oneResult (earlySample ++ [(1051060, .main)]) ↔
      NothingEarly sequenceType subscriberDefaults oneResult (earlySample ++ [(1051060, .main)]) :=
  (remembers_iff (by decide) exec_earlySample_capture).2 rfl

/-- Two data samples were delivered and one is captured. -/
theorem early_sample_forgotten :
    earlySampleEnd.pc = .capture ∧ dataCount (received earlySample) = 2 ∧
      (capturedEntry 1051060 earlySampleEnd).map (fun x => x.totalSamples) = some 1 ∧
      ¬ Remembers sequenceType subscriberDefaults oneResult (earlySample ++ [(1051060, .main)]) := by
  have hpc : earlySampleEnd.pc = .capture := by decide +kernel
  have hcount : dataCount (received earlySample) = 2 := by decide +kernel
  have hentry : (capturedEntry 1051060 earlySampleEnd).map (fun x => x.totalSamples) = some 1 := by
    decide +kernel
  refine ⟨hpc, hcount, hentry, fun h => ?_⟩
  obtain ⟨x, hx, htot⟩ := h.2 earlySample 1051060 [] earlySampleEnd rfl exec_earlySample hpc
  rw [hx, Option.map_some, Option.some.injEq, htot, hcount] at hentry
  cases hentry

end PerftestLite
