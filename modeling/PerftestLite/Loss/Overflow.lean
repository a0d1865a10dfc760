import PerftestLite.Loss.Conservation

/-!
# The sequence number as a 32-bit counter

The loop counts its iterations in an `int32_t` and is bounded by time only; the samples written are
counted in a `uint64_t` next to it. Nothing overflows as long as the loop begins at most `2 ^ 31 - 1`
iterations; the subscriber's successor of the last number needs one thing more, that no data sample
arrives behind the one numbered `2 ^ 31 - 1`.

* `NoOverflow`, `overflow_iff`: the publisher's counter along a run;
* `SubInRange`, `allInRange_iff`: the subscriber's operations along the deliveries;
* `sequence_arithmetic_iff`: both together.
-/

set_option autoImplicit false

namespace PerftestLite

open Word Missing Machine

variable {T : TypeInterface} {cfg : Config} {args : InputArgs} {p s s' : PubState}

/-! ## The publisher -/

/-- `seq++` stays inside `int32_t`. -/
def NoOverflow (s : PubState) : Prop := s.pc = .prepare → s.seq + 1 ≤ int32Max

/-- Readings that admit an iteration only become more. -/
theorem passes_mono {e : ℕ × PubAction} (h : PubInv args s) (hs : pubStep T cfg args s e = some s') :
    PubInv args s' ∧ (passes args s).length ≤ (passes args s').length := by
  refine ⟨pubInv_step h hs, ?_⟩
  obtain ⟨now, act⟩ := e
  cases act with
  | main ok =>
    cases pubMain_cases hs with
    | begin hpc =>
      have hnil := (h.count.before (by simp [hpc, PubPc.phase])).2
      simp [passes, hnil]
    | again hpc ht => simp [passes, List.filter_append]
    | leave hpc ht => simp [passes, List.filter_append]
    | _ => exact le_rfl
  | pong x =>
    simp only [pubStep, Option.ite_none_left_eq_some, Option.some.injEq] at hs
    rw [← hs.2]
    exact le_rfl
  | matched change =>
    simp only [pubStep, Option.ite_none_left_eq_some, Option.some.injEq] at hs
    rw [← hs.2]
    exact le_rfl

/-- With at most `2 ^ 31 - 1` iterations begun, the increment is in range. -/
theorem noOverflow_of_passes (h : PubInv args s) (hle : ((passes args s).length : ℤ) ≤ int32Max) :
    NoOverflow s := by
  intro hpc
  have hph : s.pc.phase ≠ 0 := by simp [hpc, PubPc.phase]
  have hp := h.count.passes hph
  have hq := h.count.seq hph
  rw [hpc] at hp hq
  change _ = _ + 1 at hp
  change s.seq = i32 (((loopWrites s.writes).length + 0 : ℕ) : ℤ) at hq
  rw [i32_of_range ⟨by omega, by omega⟩] at hq
  omega

/-- A step into a state whose increment is in range begins no iteration too many. -/
theorem passes_le_step {e : ℕ × PubAction} (h : PubInv args s)
    (hle : ((passes args s).length : ℤ) ≤ int32Max) (hq : NoOverflow s')
    (hs : pubStep T cfg args s e = some s') : ((passes args s').length : ℤ) ≤ int32Max := by
  have h' := pubInv_step h hs
  obtain ⟨now, act⟩ := e
  cases act with
  | main ok =>
    cases pubMain_cases hs with
    | again hpc ht =>
      have hp' := h'.count.passes (by simp [PubPc.phase])
      have hseq := h'.count.seq (by simp [PubPc.phase])
      have hp := h.count.passes (by simp [hpc, PubPc.phase])
      rw [hpc] at hp
      change _ = (loopWrites s.writes).length + 0 at hp
      change _ = (loopWrites s.writes).length + 1 at hp'
      change s.seq = i32 (((loopWrites s.writes).length + 0 : ℕ) : ℤ) at hseq
      have hno : s.seq + 1 ≤ int32Max := hq rfl
      rw [hseq, i32_of_range ⟨by omega, by omega⟩] at hno
      rw [hp']
      omega
    | begin hpc =>
      have hnil := (h.count.before (by simp [hpc, PubPc.phase])).2
      simp [passes, hnil, int32Max]
    | leave hpc ht => simpa [passes, List.filter_append, ht] using hle
    | _ => exact hle
  | pong x =>
    simp only [pubStep, Option.ite_none_left_eq_some, Option.some.injEq] at hs
    rw [← hs.2]
    exact hle
  | matched change =>
    simp only [pubStep, Option.ite_none_left_eq_some, Option.some.injEq] at hs
    rw [← hs.2]
    exact hle

/-- **The counter never overflows exactly when at most `2 ^ 31 - 1` iterations begin.** -/
theorem overflow_iff {history : Bool} {matchedPubs : ℤ} {results : Option Results}
    {es : List (ℕ × PubAction)}
    (hrun : exec (pubStep T cfg args) (pubInit T args history matchedPubs results) es = some p) :
    Always (pubStep T cfg args) NoOverflow (pubInit T args history matchedPubs results) es ↔
      ((passes args p).length : ℤ) ≤ int32Max := by
  have h0 := pubInv_init T args history matchedPubs results
  constructor
  · intro h
    exact (h.invariant (I := fun s => PubInv args s ∧ ((passes args s).length : ℤ) ≤ int32Max)
      (fun s e s' hi hq hs => ⟨pubInv_step hi.1 hs, passes_le_step hi.1 hi.2 hq hs⟩) hrun
      ⟨h0, by simp [passes, pubInit, int32Max]⟩).2
  · intro hle pre suf q he hq
    have hmono := always_le (f := fun s => (passes args s).length)
      (fun s e s' hi hs => passes_mono hi hs) hrun h0 pre suf q he hq
    refine noOverflow_of_passes (pubInv_exec hq) ?_
    change (passes args q).length ≤ (passes args p).length at hmono
    omega

/-- The writes of the loop are at most the iterations begun. -/
theorem PubInv.writes_le (h : PubInv args p) :
    (loopWrites p.writes).length ≤ (passes args p).length := by
  by_cases hph : p.pc.phase = 0
  · simp [(h.count.before hph).1]
  · have := h.count.passes hph
    omega

/-- With at most `2 ^ 31 - 1` iterations the numbers written are positive and go up. -/
theorem PubInv.inOrder (h : PubInv args p) (hle : ((passes args p).length : ℤ) ≤ int32Max) :
    InOrder ((loopWrites p.writes).map fun w => w.1.sequenceNumber) := by
  have hw := h.writes_le
  rw [h.count.numbers (by omega)]
  refine ⟨oneTo_pairwise _, fun n hn => ?_⟩
  have := mem_oneTo.mp hn
  omega

/-! ## The subscriber -/

/-- The `int32_t` operations of `sub_on_sample` on this sample stay in range. -/
def SubInRange (x : PerftestSample) (c : SubCtx) : Prop :=
  match x.kind with
  | .initialization => True
  | .finalization => c.finished = false → x.sequenceNumber > c.lastSeq →
      InInt32 (x.sequenceNumber - c.lastSeq)
  | .data | .dataPing => c.lastSeq ≠ 0 → InInt32 (c.lastSeq + 1) ∧
      (x.sequenceNumber > c.lastSeq + 1 →
        InInt32 (x.sequenceNumber - c.lastSeq) ∧ InInt32 (x.sequenceNumber - c.lastSeq - 1))

/-- At every delivery. -/
def AllInRange (T : TypeInterface) (c : SubCtx) (ds : List (ℕ × PerftestSample)) : Prop :=
  ∀ pre d suf, ds = pre ++ d :: suf → SubInRange d.2 (subReceive T c pre)

/-- Behind the data sample numbered `2 ^ 31 - 1` no other arrives. -/
def MaxIsLast (ds : List (ℕ × PerftestSample)) : Prop :=
  ds.Pairwise fun d e => d.2.isData = true → d.2.sequenceNumber = int32Max → e.2.isData = false

theorem allInRange_cons {c : SubCtx} {d : ℕ × PerftestSample} {ds : List (ℕ × PerftestSample)} :
    AllInRange T c (d :: ds) ↔
      SubInRange d.2 c ∧ AllInRange T (subOnSample T d.1 d.2 c).1 ds := by
  constructor
  · intro h
    exact ⟨h [] d ds rfl, fun pre e suf he => h (d :: pre) e suf (by rw [he]; rfl)⟩
  · rintro ⟨hd, hds⟩ pre e suf he
    cases pre with
    | nil =>
      cases he
      exact hd
    | cons a pre =>
      cases he
      exact hds pre e suf rfl

theorem maxIsLast_cons {d : ℕ × PerftestSample} {ds : List (ℕ × PerftestSample)} :
    MaxIsLast (d :: ds) ↔
      (d.2.isData = true → d.2.sequenceNumber = int32Max → ∀ e ∈ ds, e.2.isData = false) ∧
        MaxIsLast ds := by
  rw [MaxIsLast, List.pairwise_cons, ← MaxIsLast]
  exact and_congr_left fun _ => ⟨fun h hd hm e he => h e he hd hm, fun h e he hd hm => h hd hm e he⟩

/-- The last number is the sentinel or a number received. -/
theorem subOnSample_lastSeq (now : ℕ) (x : PerftestSample) (c : SubCtx) :
    (subOnSample T now x c).1.lastSeq = if x.isData then x.sequenceNumber else c.lastSeq := by
  by_cases hx : x.isData = true
  · rw [subOnSample_data hx, if_pos hx]
  · obtain ⟨lost, fin, ho⟩ := subOnSample_other (T := T) (c := c) hx
    rw [if_neg hx, ho]

/-- A number the operations can meet. -/
def Small (n : ℤ) : Prop := 0 ≤ n ∧ n ≤ int32Max

theorem subInRange_of_small {x : PerftestSample} {c : SubCtx}
    (hx : x.kind ≠ .initialization → Small x.sequenceNumber) (hc : Small c.lastSeq)
    (hmax : x.isData = true → c.lastSeq ≠ int32Max) : SubInRange x c := by
  unfold Small int32Max at hx hc
  unfold int32Max at hmax
  unfold SubInRange InInt32 int32Max
  cases hk : x.kind with
  | initialization => trivial
  | finalization =>
    have := hx (by simp [hk])
    exact fun _ _ => by omega
  | data | dataPing =>
    have := hx (by simp [hk])
    have := hmax (PerftestSample.isData_eq hk)
    exact fun _ => ⟨by omega, fun _ => ⟨by omega, by omega⟩⟩

theorem not_subInRange_of_max {x : PerftestSample} {c : SubCtx} (hx : x.isData = true)
    (hc : c.lastSeq = int32Max) : ¬ SubInRange x c := by
  intro h
  unfold SubInRange InInt32 at h
  rw [hc] at h
  cases hk : x.kind with
  | initialization | finalization => exact absurd (PerftestSample.isData_eq hk) (by
      rw [hx]
      exact Bool.false_ne_true.symm)
  | data | dataPing =>
    rw [hk] at h
    have := (h (by decide)).1
    omega

/-- **On numbers in range the subscriber's operations stay in range exactly when the largest number
comes last.** The context is the induction's: it remembers whether that number has just come. -/
theorem allInRange_iff {ds : List (ℕ × PerftestSample)} {c : SubCtx} (hc : Small c.lastSeq)
    (hds : ∀ d ∈ ds, d.2.kind ≠ .initialization → Small d.2.sequenceNumber) :
    AllInRange T c ds ↔
      (c.lastSeq = int32Max → ∀ d ∈ ds, d.2.isData = false) ∧ MaxIsLast ds := by
  induction ds generalizing c with
  | nil =>
    refine ⟨fun _ => ⟨by simp, List.Pairwise.nil⟩, fun _ pre d suf he => ?_⟩
    simp at he
  | cons d ds ih =>
    have hd := hds d List.mem_cons_self
    have hlast := subOnSample_lastSeq (T := T) d.1 d.2 c
    have hc' : Small (subOnSample T d.1 d.2 c).1.lastSeq := by
      rw [hlast]
      split_ifs with hdata
      · exact hd fun hk => absurd (PerftestSample.isData_eq hk) (by
          rw [hdata]
          exact Bool.false_ne_true.symm)
      · exact hc
    rw [allInRange_cons, ih hc' fun e he => hds e (List.mem_cons_of_mem d he), hlast, maxIsLast_cons]
    by_cases hdata : d.2.isData = true
    · simp only [hdata, if_true, forall_true_left]
      constructor
      · rintro ⟨hr, hrest⟩
        exact ⟨fun hmax => absurd hr (not_subInRange_of_max hdata hmax), hrest⟩
      · rintro ⟨hmax, hrest⟩
        refine ⟨subInRange_of_small hd hc fun _ hm => ?_, hrest⟩
        have := hmax hm d List.mem_cons_self
        rw [hdata] at this
        cases this
    · simp only [hdata, if_false, false_implies, true_and, Bool.false_eq_true]
      constructor
      · rintro ⟨-, hmax, hrest⟩
        refine ⟨fun hm e he => ?_, hrest⟩
        rcases List.mem_cons.mp he with rfl | he
        · simpa using hdata
        · exact hmax hm e he
      · rintro ⟨hmax, hrest⟩
        exact ⟨subInRange_of_small hd hc fun h => absurd h hdata,
          fun hm e he => hmax hm e (List.mem_cons_of_mem d he), hrest⟩

/-! ## Both sides -/

/-- What goes out after the warm-up carries a number in range. -/
theorem PubInv.small_of_sent (h : PubInv args p)
    (hle : ((passes args p).length : ℤ) ≤ int32Max) {x : PerftestSample} (hx : x ∈ sent p.writes)
    (hk : x.kind ≠ .initialization) : Small x.sequenceNumber := by
  have hw := h.writes_le
  cases hkind : x.kind with
  | initialization => exact absurd hkind hk
  | finalization =>
    rw [(h.finalization (by omega) hx hkind).2]
    exact ⟨by omega, by omega⟩
  | data | dataPing =>
    obtain ⟨w, hw', rfl⟩ := List.mem_map.mp hx
    have hmem : w ∈ loopWrites p.writes := List.mem_filter.mpr ⟨(List.mem_filter.mp hw').1,
      PerftestSample.isData_eq hkind⟩
    have := (h.inOrder hle).2 _ (List.mem_map_of_mem hmem)
    exact ⟨this.1.le, this.2⟩

/-- **Sequence arithmetic.** For every run and every delivery of samples of the run, in any order:
the counter never overflows, the numbers written are positive and go up and every operation of the
subscriber stays in range, exactly when at most `2 ^ 31 - 1` iterations begin and no data sample
arrives behind the one numbered `2 ^ 31 - 1`. -/
theorem sequence_arithmetic_iff {history : Bool} {matchedPubs : ℤ} {results : Option Results}
    {es : List (ℕ × PubAction)} {ds : List (ℕ × PerftestSample)} (c : SubCtx)
    (hrun : exec (pubStep T cfg args) (pubInit T args history matchedPubs results) es = some p)
    (hds : ∀ d ∈ ds, d.2 ∈ sent p.writes) :
    (Always (pubStep T cfg args) NoOverflow (pubInit T args history matchedPubs results) es ∧
        InOrder ((loopWrites p.writes).map fun w => w.1.sequenceNumber) ∧
        AllInRange T (subReset c) ds) ↔
      ((passes args p).length : ℤ) ≤ int32Max ∧ MaxIsLast ds := by
  have hinv := pubInv_exec hrun
  rw [overflow_iff hrun]
  refine and_congr_right fun hle => ?_
  have hsmall : ∀ d ∈ ds, d.2.kind ≠ .initialization → Small d.2.sequenceNumber :=
    fun d hd hk => hinv.small_of_sent hle (hds d hd) hk
  rw [allInRange_iff (c := subReset c) ⟨le_rfl, by simp [subReset, int32Max]⟩ hsmall]
  refine ⟨fun h => h.2.2, fun h => ⟨hinv.inOrder hle, fun h0 => ?_, h⟩⟩
  exact absurd (show (0 : ℤ) = int32Max from h0) (by decide)

theorem sequence_arithmetic_two :
    (Always (pubStep sequenceType defaultConfig publisherDefaults) NoOverflow
          (pubInit sequenceType publisherDefaults false 1 none) twoSamples ∧
        InOrder ((loopWrites twoSamplesEnd.writes).map fun w => w.1.sequenceNumber) ∧
        AllInRange sequenceType (subReset .zero) secondSample) ↔
      ((passes publisherDefaults twoSamplesEnd).length : ℤ) ≤ int32Max ∧ MaxIsLast secondSample :=
  sequence_arithmetic_iff .zero exec_twoSamples (by decide +kernel)

/-! ## A run that is long enough -/

/-- A day and some, as `-exec 100000` asks for. -/
def longArgs : InputArgs := { publisherDefaults with execSeconds := 100000 }

/-- Readings 40 microseconds apart. -/
def paced (n : ℕ) : List (ℕ × Bool) := (List.range n).map fun i => (1000000 + 40 * i, true)

/-- Warm-up, `n` turns of the loop and the reading that begins one more. -/
def pacedRun (n : ℕ) : List (ℕ × PubAction) :=
  List.replicate (defaultConfig.initBurst + 5) (1000000, .main true) ++
    (paced n).flatMap iteration ++ [(1000000 + 40 * n, .main true)]

theorem paced_inWindow {t n : ℕ} (h : 40 * t ≤ 40 * n) (hn : 40 * n < 100000000000) :
    u64Sub (1000000 + 40 * t) 1000000 < timeoutUs longArgs := by
  rw [u64Sub_of_le (by omega) (by omega), show timeoutUs longArgs = 100000000000 from rfl]
  omega

/-- Every number of turns the window holds is the number of turns of a run. -/
theorem exec_pacedRun {n : ℕ} (hn : 40 * n < 100000000000) :
    ∃ q, exec (pubStep sequenceType defaultConfig longArgs)
        (pubInit sequenceType longArgs false 1 none) (pacedRun n) = some q ∧
      q.pc = .prepare ∧ (loopWrites q.writes).length = n := by
  obtain ⟨s, hs, hpc, ht, ho, -⟩ := exec_warmup sequenceType defaultConfig longArgs
    1000000 false 1 none
  obtain ⟨m, hm, hpcm, htm, hom, -⟩ := exec_iterations sequenceType defaultConfig rfl rfl
    (paced n) hpc fun it hit => by
      obtain ⟨i, hi, rfl⟩ := List.mem_map.mp hit
      rw [ht]
      exact paced_inWindow (Nat.mul_le_mul_left 40 (List.mem_range.mp hi).le) hn
  refine ⟨_, exec_append.mpr ⟨m, exec_append.mpr ⟨s, hs, hm⟩, exec_cons.mpr ⟨_,
    pubStep_again hpcm (by rw [htm, ht]; exact paced_inWindow le_rfl hn), rfl⟩⟩, rfl, ?_⟩
  change (loopWrites m.writes).length = n
  rw [← outcomes_length, hom, ho]
  simp [paced]

/-- The clock of `pacedRun` never goes back. -/
theorem pacedRun_monotone (n : ℕ) : ((pacedRun n).map Prod.fst).Pairwise (· ≤ ·) := by
  have hmap : (pacedRun n).map Prod.fst = List.replicate (defaultConfig.initBurst + 5) 1000000 ++
      (List.range n).flatMap (fun i => List.replicate 5 (1000000 + 40 * i)) ++
        [1000000 + 40 * n] := by
    simp [pacedRun, paced, iteration, List.map_flatMap, List.flatMap_map]
  rw [hmap]
  refine List.pairwise_append.mpr ⟨List.pairwise_append.mpr ⟨by simp, ?_, ?_⟩, by simp, ?_⟩
  · refine List.pairwise_flatMap.mpr ⟨fun i _ => by simp, List.pairwise_lt_range.imp ?_⟩
    intro i j hij x hx y hy
    rw [List.eq_of_mem_replicate hx, List.eq_of_mem_replicate hy]
    omega
  · intro x hx y hy
    obtain ⟨i, -, hy⟩ := List.mem_flatMap.mp hy
    rw [List.eq_of_mem_replicate hx, List.eq_of_mem_replicate hy]
    omega
  · intro x hx y hy
    rw [List.mem_singleton.mp hy]
    rcases List.mem_append.mp hx with hx | hx
    · rw [List.eq_of_mem_replicate hx]
      omega
    · obtain ⟨i, hi, hx⟩ := List.mem_flatMap.mp hx
      have := List.mem_range.mp hi
      rw [List.eq_of_mem_replicate hx]
      omega

/-- An accepted command line and a monotone clock under which `seq++` overflows. -/
theorem seq_overflows :
    parseArguments sequenceType (configDefaults .publisher) ["perftest", "-exec", "100000"] = .ok longArgs ∧
      ((pacedRun 2147483647).map Prod.fst).Pairwise (· ≤ ·) ∧
      ∃ q, exec (pubStep sequenceType defaultConfig longArgs)
          (pubInit sequenceType longArgs false 1 none) (pacedRun 2147483647) = some q ∧
        q.pc = .prepare ∧ q.seq = int32Max ∧ ¬ NoOverflow q := by
  refine ⟨by decide +kernel, pacedRun_monotone _, ?_⟩
  obtain ⟨q, hq, hpc, hlen⟩ := exec_pacedRun (n := 2147483647) (by decide)
  have hseq := (pubInv_exec hq).count.seq (by simp [hpc, PubPc.phase])
  rw [hpc, hlen] at hseq
  have hmax : q.seq = int32Max := hseq.trans (i32_of_range (by decide))
  refine ⟨q, hq, hpc, hmax, fun h => ?_⟩
  have := h hpc
  rw [hmax] at this
  exact absurd this (by decide)

end PerftestLite
