import PerftestLite.Core.Publisher
import PerftestLite.Lib.Missing

/-!
# What a run of the publisher writes

The calls of `writer->write` come in three phases: the warm-up burst, the measuring loop, the
finalization loop. Inside the loop the samples carry the numbers `1, 2, 3, …` one by one, whether
the write succeeds or not; at the end every `FINALIZATION` carries the last of them.

* `PubOrder`: the phases of the writes and the label of the sample about to be written;
* `PubCount`: the numbering of the loop and its counters;
* `PubFinal`: the finalization loop;
* `pubInv_exec`: all of it, for every run from `pubInit`.
-/

set_option autoImplicit false

namespace PerftestLite

open Word Machine Missing

/-! ## Phases -/

/-- Warm-up, measurement, finalization. -/
def PerftestTypeKind.phase : PerftestTypeKind → ℕ
  | .initialization => 0
  | .data | .dataPing => 1
  | .finalization => 2

/-- The phase of a statement. -/
def PubPc.phase : PubPc → ℕ
  | .warmup | .burst _ | .settle | .reset | .begin => 0
  | .loop | .prepare | .write | .wait _ | .sleep | .tick | .line _ | .finish _ | .report => 1
  | .final _ | .finalSleep _ | .shutdown | .done => 2

/-- The kind the loop gives to sample number `seq`. -/
def loopKind (args : InputArgs) (seq : ℤ) : PerftestTypeKind :=
  if isPing args seq then .dataPing else .data

/-- The writes of the measuring loop, in order, with their outcomes. -/
def loopWrites (ws : List (PerftestSample × Bool)) : List (PerftestSample × Bool) :=
  ws.filter fun w => w.1.isData

/-- The `FINALIZATION` writes. -/
def finalWrites (ws : List (PerftestSample × Bool)) : List (PerftestSample × Bool) :=
  ws.filter fun w => decide (w.1.kind = .finalization)

/-- The samples that went out, in order. -/
def sent (ws : List (PerftestSample × Bool)) : List PerftestSample :=
  (ws.filter fun w => w.2).map Prod.fst

/-- The readings of the loop condition that let one more iteration begin. -/
def passes (args : InputArgs) (s : PubState) : List ℕ :=
  s.checks.filter fun r => decide (u64Sub r s.t0 < timeoutUs args)

theorem isData_iff_phase {k : PerftestTypeKind} : k.isData = true ↔ k.phase = 1 := by
  cases k <;> simp [PerftestTypeKind.isData, PerftestTypeKind.phase]

theorem loopKind_isData (args : InputArgs) (seq : ℤ) : (loopKind args seq).isData = true := by
  unfold loopKind
  split_ifs <;> rfl

theorem loopWrites_append_data {ws : List (PerftestSample × Bool)} {x : PerftestSample} {ok : Bool}
    (h : x.isData = true) : loopWrites (ws ++ [(x, ok)]) = loopWrites ws ++ [(x, ok)] := by
  simp [loopWrites, h]

theorem loopWrites_append_other {ws : List (PerftestSample × Bool)} {x : PerftestSample} {ok : Bool}
    (h : x.isData = false) : loopWrites (ws ++ [(x, ok)]) = loopWrites ws := by
  simp [loopWrites, h]

theorem finalWrites_append_final {ws : List (PerftestSample × Bool)} {x : PerftestSample} {ok : Bool}
    (h : x.kind = .finalization) : finalWrites (ws ++ [(x, ok)]) = finalWrites ws ++ [(x, ok)] := by
  simp [finalWrites, h]

theorem warmupSample_kind (T : TypeInterface) (cfg : Config) (args : InputArgs) (x : PerftestSample) :
    (warmupSample T cfg args x).kind = .initialization := by
  have hset := (T.setSampleSize_metadata { x with kind := .initialization } cfg.initSampleSize).2.1
  unfold warmupSample
  dsimp only
  split
  case h_1 y heq =>
    rw [heq] at hset
    exact hset
  case h_2 y heq =>
    rw [heq] at hset
    exact (T.resize_metadata y _).2.1.trans hset

variable {T : TypeInterface} {cfg : Config} {args : InputArgs} {now : ℕ} {ok : Bool}
  {s s' : PubState}

/-! ## The order of the writes -/

/-- The writes come phase by phase, and the sample about to be written is labelled for its phase. -/
structure PubOrder (args : InputArgs) (s : PubState) : Prop where
  ordered : s.writes.Pairwise fun v w => v.1.kind.phase ≤ w.1.kind.phase
  bounded : ∀ w ∈ s.writes, w.1.kind.phase ≤ s.pc.phase
  burst : ∀ i, s.pc = .burst i → s.sample.kind = .initialization
  write : s.pc = .write → s.sample.kind = loopKind args s.seq ∧ s.sample.sequenceNumber = s.seq
  final : s.pc.phase = 2 → s.sample.kind = .finalization

/-- Appending a write of the current phase keeps the order. -/
theorem PubOrder.wrote (h : PubOrder args s) (x : PerftestSample) (ok : Bool)
    (hx : x.kind.phase = s.pc.phase) :
    (s.wrote x ok).Pairwise (fun v w => v.1.kind.phase ≤ w.1.kind.phase) ∧
      ∀ w ∈ s.wrote x ok, w.1.kind.phase ≤ s.pc.phase := by
  constructor
  · refine List.pairwise_append.mpr ⟨h.ordered, List.pairwise_singleton _ _, fun v hv w hw => ?_⟩
    rw [List.mem_singleton.mp hw, hx]
    exact h.bounded v hv
  · intro w hw
    rcases List.mem_append.mp hw with hw | hw
    · exact h.bounded w hw
    · rw [List.mem_singleton.mp hw, hx]

/-- A statement that writes nothing and does not go back to an earlier phase. -/
theorem PubOrder.still (h : PubOrder args s) (s' : PubState) (hw : s'.writes = s.writes)
    (hp : s.pc.phase ≤ s'.pc.phase) :
    s'.writes.Pairwise (fun v w => v.1.kind.phase ≤ w.1.kind.phase) ∧
      ∀ w ∈ s'.writes, w.1.kind.phase ≤ s'.pc.phase := by
  rw [hw]
  exact ⟨h.ordered, fun w hm => (h.bounded w hm).trans hp⟩

theorem pubOrder_main (h : PubOrder args s) (hs : PubMain T cfg args now ok s s') :
    PubOrder args s' := by
  cases hs with
  | warmup hpc =>
    obtain ⟨h1, h2⟩ := h.still { s with pc := .burst 0 } rfl (by simp [hpc, PubPc.phase])
    exact ⟨h1, h2, fun _ _ => warmupSample_kind T cfg args _, by simp, by simp [PubPc.phase]⟩
  | burst i hpc hi =>
    obtain ⟨h1, h2⟩ := h.wrote { s.sample with timestampUs := now } ok
      (by simp [hpc, PubPc.phase, h.burst i hpc, PerftestTypeKind.phase])
    rw [hpc] at h2
    exact ⟨h1, h2, fun _ _ => h.burst i hpc, by simp, by simp [PubPc.phase]⟩
  | writeWait hpc hok hp hl =>
    obtain ⟨h1, h2⟩ := h.wrote s.sample true
      (by rw [(h.write hpc).1, hpc]; exact isData_iff_phase.mp (loopKind_isData args s.seq))
    rw [hpc] at h2
    exact ⟨h1, h2, by simp, by simp, by simp [PubPc.phase]⟩
  | writeOn hpc hw =>
    obtain ⟨h1, h2⟩ := h.wrote s.sample ok
      (by rw [(h.write hpc).1, hpc]; exact isData_iff_phase.mp (loopKind_isData args s.seq))
    rw [hpc] at h2
    exact ⟨h1, h2, by simp, by simp, by simp [PubPc.phase]⟩
  | prepare hpc =>
    obtain ⟨h1, h2⟩ := h.still { s with pc := .write } rfl (by simp [hpc, PubPc.phase])
    exact ⟨h1, h2, by simp, fun _ => ⟨rfl, rfl⟩, by simp [PubPc.phase]⟩
  | report hpc =>
    obtain ⟨h1, h2⟩ := h.still { s with pc := .final 0 } rfl (by simp [hpc, PubPc.phase])
    exact ⟨h1, h2, by simp, by simp, fun _ => rfl⟩
  | final k hpc hk hf =>
    have hfin := h.final (by simp [hpc, PubPc.phase])
    obtain ⟨h1, h2⟩ := h.wrote s.sample ok
      (by simp [hpc, PubPc.phase, hfin, PerftestTypeKind.phase])
    rw [hpc] at h2
    exact ⟨h1, h2, by simp, by simp, fun _ => hfin⟩
  | finalEnd k hpc hk | finalSleep k hpc | shutdown hpc =>
    have hfin := h.final (by simp [hpc, PubPc.phase])
    have hb := h.bounded
    rw [hpc] at hb
    exact ⟨h.ordered, hb, by simp, by simp, fun _ => hfin⟩
  | burstEnd i hpc _ | taken i hpc _ _ | expired i hpc _ _ _ =>
    have hb := h.bounded
    rw [hpc] at hb
    exact ⟨h.ordered, hb, by simp, by simp, by simp [PubPc.phase]⟩
  | settle hpc | reset hpc | again hpc _ | leave hpc _ | sleep hpc | tick hpc _ | tickLine hpc _ _
  | line _ _ hpc _ | lineEnd _ hpc _ | finish _ _ hpc _ | finishEnd _ hpc _ =>
    have hb := h.bounded
    rw [hpc] at hb
    exact ⟨h.ordered, hb, by simp, by simp, by simp [PubPc.phase]⟩
  | begin hpc =>
    obtain ⟨h1, h2⟩ := h.still { s with pc := .loop } rfl (by simp [hpc, PubPc.phase])
    exact ⟨h1, h2, by simp, by simp, by simp [PubPc.phase]⟩

/-! ## The numbering of the loop -/

/-- Iterations begun whose sample has not been written yet. -/
def PubPc.pending : PubPc → ℕ
  | .prepare | .write => 1
  | _ => 0

/-- `seq` is one ahead of the writes while its own sample waits to be written. -/
def PubPc.ahead : PubPc → ℕ
  | .write => 1
  | _ => 0

/-- The counters of the loop, in terms of the writes of the loop. -/
structure PubCount (args : InputArgs) (s : PubState) : Prop where
  numbered : (loopWrites s.writes).map (fun w => w.1.sequenceNumber) =
    (List.range (loopWrites s.writes).length).map fun i => i32 ((i + 1 : ℕ) : ℤ)
  kinds : ∀ w ∈ loopWrites s.writes, w.1.kind = loopKind args w.1.sequenceNumber
  before : s.pc.phase = 0 → loopWrites s.writes = [] ∧ s.checks = []
  seq : s.pc.phase ≠ 0 → s.seq = i32 (((loopWrites s.writes).length + s.pc.ahead : ℕ) : ℤ)
  total : s.pc.phase ≠ 0 → s.total = ((loopWrites s.writes).filter fun w => w.2).length
  passes : s.pc.phase ≠ 0 → (passes args s).length = (loopWrites s.writes).length + s.pc.pending

theorem i32_add_one (n : ℕ) : i32 (i32 (n : ℤ) + 1) = i32 ((n + 1 : ℕ) : ℤ) := by
  unfold i32
  rw [Int.bmod_add_bmod]
  push_cast
  rfl

/-- Statements that leave the writes, the counters and the readings alone. -/
theorem PubCount.still (h : PubCount args s) (hw : s'.writes = s.writes) (hseq : s'.seq = s.seq)
    (htot : s'.total = s.total) (hch : s'.checks = s.checks) (ht0 : s'.t0 = s.t0)
    (hph : s'.pc.phase = 0 ↔ s.pc.phase = 0) (ha : s'.pc.ahead = s.pc.ahead)
    (hp : s'.pc.pending = s.pc.pending) : PubCount args s' where
  numbered := by rw [hw]; exact h.numbered
  kinds := by rw [hw]; exact h.kinds
  before h0 := by rw [hw, hch]; exact h.before (hph.mp h0)
  seq h0 := by rw [hw, hseq, ha]; exact h.seq (mt hph.mpr h0)
  total h0 := by rw [hw, htot]; exact h.total (mt hph.mpr h0)
  passes h0 := by
    have := h.passes (mt hph.mpr h0)
    unfold PerftestLite.passes at this ⊢
    rw [hw, hch, ht0, hp]
    exact this

/-- A write outside the loop. -/
theorem PubCount.other (h : PubCount args s) {x : PerftestSample} (hx : x.isData = false)
    (hw : s'.writes = s.wrote x ok) (hseq : s'.seq = s.seq)
    (htot : s'.total = s.total) (hch : s'.checks = s.checks) (ht0 : s'.t0 = s.t0)
    (hph : s'.pc.phase = 0 ↔ s.pc.phase = 0) (ha : s'.pc.ahead = s.pc.ahead)
    (hp : s'.pc.pending = s.pc.pending) : PubCount args s' := by
  have hl : loopWrites s'.writes = loopWrites s.writes := by
    rw [hw]; exact loopWrites_append_other hx
  refine ⟨by rw [hl]; exact h.numbered, by rw [hl]; exact h.kinds, ?_, ?_, ?_, ?_⟩
  · intro h0; rw [hl, hch]; exact h.before (hph.mp h0)
  · intro h0; rw [hl, hseq, ha]; exact h.seq (mt hph.mpr h0)
  · intro h0; rw [hl, htot]; exact h.total (mt hph.mpr h0)
  · intro h0
    have := h.passes (mt hph.mpr h0)
    unfold PerftestLite.passes at this ⊢
    rw [hl, hch, ht0, hp]
    exact this

/-- The write of the loop. -/
theorem PubCount.data (h : PubCount args s) (ho : PubOrder args s) (hpc : s.pc = .write)
    (hw : s'.writes = s.wrote s.sample ok) (hseq : s'.seq = s.seq)
    (htot : s'.total = if ok then s.total + 1 else s.total) (hch : s'.checks = s.checks)
    (ht0 : s'.t0 = s.t0) (hph : s'.pc.phase = 1) (ha : s'.pc.ahead = 0) (hp : s'.pc.pending = 0) :
    PubCount args s' := by
  have hph0 : s.pc.phase ≠ 0 := by simp [hpc, PubPc.phase]
  obtain ⟨hkind, hnum⟩ := ho.write hpc
  have hdata : s.sample.isData = true := by
    rw [PerftestSample.isData_eq hkind]
    exact loopKind_isData args s.seq
  have hl : loopWrites s'.writes = loopWrites s.writes ++ [(s.sample, ok)] := by
    rw [hw]; exact loopWrites_append_data hdata
  have hs := h.seq hph0
  rw [hpc, show PubPc.write.ahead = 1 from rfl] at hs
  refine ⟨?_, ?_, fun h0 => by omega, fun _ => ?_, fun _ => ?_, fun _ => ?_⟩
  · rw [hl, List.map_append, h.numbered, List.length_append, List.length_singleton,
      List.range_succ, List.map_append, List.map_singleton, List.map_singleton, hnum, hs]
  · intro w hm
    rw [hl] at hm
    rcases List.mem_append.mp hm with hm | hm
    · exact h.kinds w hm
    · rw [List.mem_singleton.mp hm, hnum]
      exact hkind
  · rw [hl, hseq, ha, hs]
    simp
  · rw [htot, hl, h.total hph0]
    cases ok <;> simp
  · have := h.passes hph0
    unfold PerftestLite.passes at this ⊢
    rw [hl, hch, ht0, hp, this, hpc]
    simp [PubPc.pending]

theorem pubCount_main (ho : PubOrder args s) (h : PubCount args s)
    (hs : PubMain T cfg args now ok s s') : PubCount args s' := by
  cases hs with
  | warmup hpc | settle hpc | reset hpc | burstEnd _ hpc _ =>
    exact h.still rfl rfl rfl rfl rfl (by simp [hpc, PubPc.phase]) (by simp [hpc, PubPc.ahead])
      (by simp [hpc, PubPc.pending])
  | taken _ hpc _ _ | expired _ hpc _ _ _ | sleep hpc | tick hpc _ | tickLine hpc _ _ | line _ _ hpc _
  | lineEnd _ hpc _ | finish _ _ hpc _ | finishEnd _ hpc _ | report hpc | finalEnd _ hpc _ | finalSleep _ hpc
  | shutdown hpc =>
    exact h.still rfl rfl rfl rfl rfl (by simp [hpc, PubPc.phase]) (by simp [hpc, PubPc.ahead])
      (by simp [hpc, PubPc.pending])
  | burst i hpc hi =>
    exact h.other (x := { s.sample with timestampUs := now })
      (PerftestSample.isData_eq (ho.burst i hpc)) rfl rfl rfl rfl rfl (by simp [hpc, PubPc.phase])
      (by simp [hpc, PubPc.ahead]) (by simp [hpc, PubPc.pending])
  | final k hpc hk hf =>
    have hk := ho.final (by simp [hpc, PubPc.phase])
    exact h.other (x := s.sample) (PerftestSample.isData_eq hk) rfl rfl rfl rfl rfl
      (by simp [hpc, PubPc.phase]) (by simp [hpc, PubPc.ahead]) (by simp [hpc, PubPc.pending])
  | writeWait hpc hok hp hl => exact h.data ho hpc rfl rfl rfl rfl rfl rfl rfl rfl
  | writeOn hpc hw => exact h.data ho hpc rfl rfl rfl rfl rfl rfl rfl rfl
  | begin hpc =>
    obtain ⟨hl, hc⟩ := h.before (by simp [hpc, PubPc.phase])
    refine ⟨h.numbered, h.kinds, by simp [PubPc.phase], ?_, ?_, ?_⟩
    · simp [hl, PubPc.ahead, i32]
    · simp [hl]
    · simp [hl, hc, PubPc.pending, PerftestLite.passes]
  | again hpc ht =>
    have hph0 : s.pc.phase ≠ 0 := by simp [hpc, PubPc.phase]
    have hs := h.seq hph0
    have hp := h.passes hph0
    rw [hpc] at hs hp
    refine ⟨h.numbered, h.kinds, by simp [PubPc.phase], fun _ => hs, fun _ => h.total hph0, ?_⟩
    intro _
    unfold PerftestLite.passes at hp ⊢
    simp [List.filter_append, ht, hp, PubPc.pending]
  | leave hpc ht =>
    have hph0 : s.pc.phase ≠ 0 := by simp [hpc, PubPc.phase]
    have hs := h.seq hph0
    have hp := h.passes hph0
    rw [hpc] at hs hp
    refine ⟨h.numbered, h.kinds, by simp [PubPc.phase], fun _ => hs, fun _ => h.total hph0, ?_⟩
    intro _
    unfold PerftestLite.passes at hp ⊢
    simp [List.filter_append, ht, hp, PubPc.pending]
  | prepare hpc =>
    have hph0 : s.pc.phase ≠ 0 := by simp [hpc, PubPc.phase]
    have hs := h.seq hph0
    have hp := h.passes hph0
    rw [hpc] at hs hp
    refine ⟨h.numbered, h.kinds, by simp [PubPc.phase], fun _ => ?_, fun _ => h.total hph0,
      fun _ => hp⟩
    change i32 (s.seq + 1) = _
    rw [hs]
    exact i32_add_one _

/-! ## The finalization loop -/

/-- How many `FINALIZATION` samples may have been written. -/
def PubPc.finals : PubPc → ℕ
  | .final k => min k 10
  | .finalSleep k => min (k + 1) 10
  | .shutdown | .done => 10
  | _ => 0

/-- The statistics of the size have been filled in. -/
def PubPc.measured : PubPc → Bool
  | .report => true
  | pc => decide (pc.phase = 2)

theorem PubPc.measured_of_phase {pc : PubPc} (h : pc.phase = 2) : pc.measured = true := by
  cases pc with
  | report => rfl
  | _ => simp [measured, h]

/-- The counters of the loop have been stored in the result. -/
def PubPc.tallied : PubPc → Bool
  | .finish .sort | .finish .percentiles | .finish .elapsed => false
  | .finish _ => true
  | pc => pc.measured

theorem PubPc.tallied_of_measured {pc : PubPc} (h : pc.measured = true) : pc.tallied = true := by
  cases pc with
  | finish f => cases h
  | _ => exact h

/-- They have been since their statement. -/
theorem FinishPc.tallied_of_next {c : PubCtx} {f f' : FinishPc} (hf : f.next c = some f')
    (h : (PubPc.finish f').tallied = true) : f = .elapsed ∨ (PubPc.finish f).tallied = true := by
  cases f with
  | sort =>
    simp only [FinishPc.next, Option.some.injEq] at hf
    subst hf
    split_ifs at h <;> cases h
  | percentiles =>
    cases hf
    cases h
  | elapsed => exact .inl rfl
  | received | count | average sum | minimum | maximum => exact .inr rfl

/-- The number of latencies has been stored in the result. -/
def PubPc.reported : PubPc → Bool
  | .finish .sort | .finish .percentiles | .finish .elapsed | .finish .received => false
  | .finish _ => true
  | pc => pc.measured

theorem PubPc.reported_of_measured {pc : PubPc} (h : pc.measured = true) : pc.reported = true := by
  cases pc with
  | finish f => cases h
  | _ => exact h

theorem PubPc.tallied_of_reported {pc : PubPc} (h : pc.reported = true) : pc.tallied = true := by
  cases pc with
  | finish f =>
    cases f with
    | sort | percentiles | elapsed | received => cases h
    | _ => rfl
  | _ => exact h

/-- It has been since its statement. -/
theorem FinishPc.reported_of_next {c : PubCtx} {f f' : FinishPc} (hf : f.next c = some f')
    (h : (PubPc.finish f').reported = true) : f = .received ∨ (PubPc.finish f).reported = true := by
  cases f with
  | sort =>
    simp only [FinishPc.next, Option.some.injEq] at hf
    subst hf
    split_ifs at h <;> cases h
  | percentiles | elapsed =>
    cases hf
    cases h
  | received => exact .inl rfl
  | count | average sum | minimum | maximum => exact .inr rfl

/-- The place of a statement in a line. -/
def LinePc.index : LinePc → ℕ
  | .count _ => 0
  | .average _ _ => 1
  | .minimum _ _ => 2
  | .range _ _ _ => 3

theorem LinePc.index_lt_of_next {c : PubCtx} {l l' : LinePc} (hl : l.next c = some l') :
    l.index < l'.index := by
  cases l with
  | count now =>
    simp only [LinePc.next, Option.some.injEq] at hl
    subst hl
    split_ifs <;> simp [LinePc.index]
  | average now sum | minimum now avg =>
    cases hl
    simp [LinePc.index]
  | range now avg mn => cases hl

/-- The place of a statement. -/
def FinishPc.index : FinishPc → ℕ
  | .sort => 0
  | .percentiles => 1
  | .elapsed => 2
  | .received => 3
  | .count => 4
  | .average _ => 5
  | .minimum => 6
  | .maximum => 7

theorem FinishPc.index_lt_of_next {c : PubCtx} {f f' : FinishPc} (hf : f.next c = some f') :
    f.index < f'.index := by
  cases f with
  | sort | count =>
    simp only [FinishPc.next, Option.some.injEq] at hf
    subst hf
    split_ifs <;> simp [FinishPc.index]
  | percentiles | elapsed | received | average sum | minimum =>
    cases hf
    simp [FinishPc.index]
  | maximum => cases hf

theorem FinishPc.eq_maximum {c : PubCtx} {f : FinishPc} (hf : f.next c = none) : f = .maximum := by
  cases f with
  | maximum => rfl
  | _ => cases hf

/-- Sorting leaves the buffer where it is. -/
theorem FinishPc.isSome_sorted (h : Option (List ℕ)) (f : FinishPc) : (f.sorted h).isSome = h.isSome := by
  cases f with
  | sort => exact Option.isSome_map
  | _ => rfl

/-- Only its statement stores the time. -/
theorem FinishPc.assign_elapsed (f : FinishPc) (args : InputArgs) (now : ℕ) (s : PubState) :
    (f.assign args now s).elapsedUs = if f = .elapsed then u64Sub now s.t0 else s.tmp.elapsedUs := by
  cases f with
  | sort | count =>
    rw [if_neg (by simp)]
    unfold FinishPc.assign
    dsimp only
    split_ifs <;> rfl
  | _ => rfl

/-- Only its statement stores the count. -/
theorem FinishPc.assign_received {args : InputArgs} {now : ℕ} {s : PubState} (f : FinishPc) :
    (f.assign args now s).latencySamplesReceived =
      if f = .received then s.ctx.latCount else s.tmp.latencySamplesReceived := by
  cases f with
  | sort | count =>
    rw [if_neg (by simp)]
    unfold FinishPc.assign
    dsimp only
    split_ifs <;> rfl
  | _ => rfl

/-- The last data number, kept from the end of the loop and stamped on every `FINALIZATION`. -/
structure PubFinal (s : PubState) : Prop where
  lastSeq : s.pc.tallied = true → s.ctx.lastSeq = s.seq ∧ s.tmp.totalSamples = s.total
  stamp : s.pc.phase = 2 → s.sample.sequenceNumber = s.seq
  stamped : ∀ w ∈ finalWrites s.writes, w.1.sequenceNumber = s.seq
  budget : (finalWrites s.writes).length ≤ s.pc.finals

theorem finalWrites_eq_nil {ws : List (PerftestSample × Bool)}
    (h : ∀ w ∈ ws, w.1.kind.phase ≤ 1) : finalWrites ws = [] := by
  refine List.filter_eq_nil_iff.mpr fun w hw => ?_
  have := h w hw
  intro hk
  rw [of_decide_eq_true hk] at this
  simp [PerftestTypeKind.phase] at this

/-- Before the finalization loop nothing is to be shown of the writes. -/
theorem PubFinal.early (ho : PubOrder args s') (hph : s'.pc.phase ≤ 1)
    (hm : s'.pc.tallied = true → s'.ctx.lastSeq = s'.seq ∧ s'.tmp.totalSamples = s'.total) :
    PubFinal s' := by
  have hnil := finalWrites_eq_nil fun w hw => (ho.bounded w hw).trans hph
  refine ⟨hm, fun h => by omega, ?_, ?_⟩
  · rw [hnil]; simp
  · rw [hnil]; simp

/-- The statements of the result keep the counters once they are stored. -/
theorem PubFinal.finish (h : PubFinal s) {f : FinishPc} (hpc : s.pc = .finish f)
    (hstored : f = .elapsed ∨ s.pc.tallied = true) :
    f.stored s.seq s.ctx.lastSeq = s.seq ∧ (f.assign args now s).totalSamples = s.total := by
  rcases hstored with rfl | hst
  · exact ⟨rfl, rfl⟩
  · obtain ⟨hlast, htotal⟩ := h.lastSeq hst
    rw [hpc] at hst
    cases f with
    | sort | percentiles | elapsed => cases hst
    | count =>
      refine ⟨hlast, ?_⟩
      unfold FinishPc.assign
      dsimp only
      split_ifs <;> exact htotal
    | received | average sum | minimum | maximum => exact ⟨hlast, htotal⟩

theorem pubFinal_main (ho : PubOrder args s) (h : PubFinal s)
    (hs : PubMain T cfg args now ok s s') : PubFinal s' := by
  have ho' := pubOrder_main ho hs
  cases hs with
  | warmup hpc | settle hpc | reset hpc | begin hpc | again hpc _ | prepare hpc | writeWait hpc _ _ _
  | writeOn hpc _ | sleep hpc | tick hpc _ | tickLine hpc _ _ | line _ _ hpc _ | lineEnd _ hpc _ =>
    exact .early ho' (by simp [PubPc.phase]) (by simp [PubPc.tallied, PubPc.measured, PubPc.phase])
  | burst _ hpc _ | burstEnd _ hpc _ | taken _ hpc _ _ | expired _ hpc _ _ _ =>
    exact .early ho' (by simp [PubPc.phase]) (by simp [PubPc.tallied, PubPc.measured, PubPc.phase])
  | leave hpc _ => exact .early ho' (by simp [PubPc.phase]) fun hst => by cases hst
  | finish f f' hpc hf =>
    refine .early ho' (by simp [PubPc.phase]) fun hst => h.finish hpc ?_
    rw [hpc]
    exact FinishPc.tallied_of_next hf hst
  | finishEnd f hpc hf =>
    refine .early ho' (by simp [PubPc.phase]) fun _ => h.finish hpc (.inr ?_)
    rw [hpc, FinishPc.eq_maximum hf]
    rfl
  | report hpc =>
    have hm := h.lastSeq (by simp [hpc, PubPc.tallied, PubPc.measured])
    have hnil := finalWrites_eq_nil fun w hw => (ho.bounded w hw).trans (by simp [hpc, PubPc.phase])
    exact ⟨fun _ => hm, fun _ => hm.1, h.stamped, by simp [hnil, PubPc.finals]⟩
  | final k hpc hk hf =>
    have hph : s.pc.phase = 2 := by simp [hpc, PubPc.phase]
    have hkind := ho.final hph
    have hwr : finalWrites (s.wrote s.sample ok) = finalWrites s.writes ++ [(s.sample, ok)] :=
      finalWrites_append_final hkind
    refine ⟨fun _ => h.lastSeq (PubPc.tallied_of_measured (PubPc.measured_of_phase hph)),
      fun _ => h.stamp hph, ?_, ?_⟩
    · change ∀ w ∈ finalWrites (s.wrote s.sample ok), _
      rw [hwr]
      intro w hw
      rcases List.mem_append.mp hw with hw | hw
      · exact h.stamped w hw
      · rw [List.mem_singleton.mp hw]
        exact h.stamp hph
    · change (finalWrites (s.wrote s.sample ok)).length ≤ min (k + 1) 10
      have hb := h.budget
      rw [hpc, show (PubPc.final k).finals = min k 10 from rfl] at hb
      rw [hwr, List.length_append, List.length_singleton]
      omega
  | finalEnd k hpc _ | finalSleep k hpc | shutdown hpc =>
    have hph : s.pc.phase = 2 := by simp [hpc, PubPc.phase]
    have hb := h.budget
    rw [hpc] at hb
    refine ⟨fun _ => h.lastSeq (PubPc.tallied_of_measured (PubPc.measured_of_phase hph)),
      fun _ => h.stamp hph, h.stamped, hb.trans ?_⟩
    simp [PubPc.finals]

/-! ## Whole runs -/

/-- The three together. -/
structure PubInv (args : InputArgs) (s : PubState) : Prop where
  order : PubOrder args s
  count : PubCount args s
  final : PubFinal s

@[simp] theorem pubOnPongSample_lastSeq (now : ℕ) (x : PerftestSample) (c : PubCtx) :
    (pubOnPongSample cfg now x c).lastSeq = c.lastSeq := by
  by_cases hx : x.isData = true
  · rw [pubOnPongSample_data cfg now hx]
    rfl
  · obtain ⟨b, hb⟩ := pubOnPongSample_other cfg now hx c
    rw [hb]

@[simp] theorem pubOnReaderMatched_lastSeq (change : ℤ) (c : PubCtx) :
    (pubOnReaderMatched change c).lastSeq = c.lastSeq := by
  unfold pubOnReaderMatched
  split_ifs <;> rfl

/-- The callbacks touch the context and the records only, and never `last_seq`. -/
theorem PubInv.callback (h : PubInv args s) {c : PubCtx} {r : List (ℕ × PerftestSample)}
    (hc : c.lastSeq = s.ctx.lastSeq) : PubInv args { s with ctx := c, records := r } where
  order := ⟨h.order.ordered, h.order.bounded, h.order.burst, h.order.write, h.order.final⟩
  count := h.count.still rfl rfl rfl rfl rfl Iff.rfl rfl rfl
  final := ⟨fun hm => ⟨hc.trans (h.final.lastSeq hm).1, (h.final.lastSeq hm).2⟩, h.final.stamp,
    h.final.stamped, h.final.budget⟩

theorem pubInv_step {e : ℕ × PubAction} (h : PubInv args s)
    (hs : pubStep T cfg args s e = some s') : PubInv args s' := by
  obtain ⟨now, act⟩ := e
  cases act with
  | main ok =>
    have hm := pubMain_cases hs
    exact ⟨pubOrder_main h.order hm, pubCount_main h.order h.count hm, pubFinal_main h.order h.final hm⟩
  | pong x =>
    simp only [pubStep, Option.ite_none_left_eq_some, Option.some.injEq] at hs
    rw [← hs.2]
    exact h.callback (by simp)
  | matched change =>
    simp only [pubStep, Option.ite_none_left_eq_some, Option.some.injEq] at hs
    rw [← hs.2]
    exact h.callback (r := s.records) (by simp)

theorem pubInv_init (T : TypeInterface) (args : InputArgs) (history : Bool) (matchedPubs : ℤ)
    (results : Option Results) : PubInv args (pubInit T args history matchedPubs results) where
  order := ⟨List.Pairwise.nil, by simp [pubInit], by simp [pubInit], by simp [pubInit],
    by simp [pubInit, PubPc.phase]⟩
  count := ⟨rfl, by simp [pubInit, loopWrites], fun _ => ⟨rfl, rfl⟩, by simp [pubInit, PubPc.phase],
    by simp [pubInit, PubPc.phase], by simp [pubInit, PubPc.phase]⟩
  final := ⟨by simp [pubInit, PubPc.tallied, PubPc.measured, PubPc.phase], by simp [pubInit, PubPc.phase],
    by simp [pubInit, finalWrites], Nat.le_refl 0⟩

/-- **Every run of the publisher** keeps the order, the numbering and the finalization stamp. -/
theorem pubInv_exec {history : Bool} {matchedPubs : ℤ} {results : Option Results}
    {es : List (ℕ × PubAction)} {p : PubState}
    (hrun : exec (pubStep T cfg args) (pubInit T args history matchedPubs results) es = some p) :
    PubInv args p :=
  exec_invariant (I := PubInv args) (fun _ _ _ h hs => pubInv_step h hs) hrun
    (pubInv_init T args history matchedPubs results)

/-! ## What the writes look like -/

section Writes

variable {p : PubState}

/-- The outcomes of the writes of the loop, in order. -/
def outcomes (p : PubState) : List Bool := (loopWrites p.writes).map fun w => w.2

theorem outcomes_length (p : PubState) : (outcomes p).length = (loopWrites p.writes).length :=
  List.length_map _

theorem i32_succ_of_le {n i : ℕ} (hn : (n : ℤ) ≤ int32Max) (hi : i < n) :
    i32 ((i + 1 : ℕ) : ℤ) = i + 1 := by
  rw [i32_of_range ⟨by omega, by omega⟩]
  push_cast
  rfl

/-- **As long as the counter does not wrap around, the loop writes `1, 2, 3, …`.** -/
theorem PubCount.numbers (h : PubCount args p) (hn : ((loopWrites p.writes).length : ℤ) ≤ int32Max) :
    (loopWrites p.writes).map (fun w => w.1.sequenceNumber) =
      oneTo (loopWrites p.writes).length := by
  rw [h.numbered]
  exact List.map_congr_left fun i hi => i32_succ_of_le hn (List.mem_range.mp hi)

/-- A `FINALIZATION` is written in the finalization loop only. -/
theorem PubOrder.phase_of_final (h : PubOrder args p) {w : PerftestSample × Bool} (hw : w ∈ p.writes)
    (hk : w.1.kind = .finalization) : p.pc.phase = 2 := by
  have hle := h.bounded w hw
  rw [hk] at hle
  have hup : p.pc.phase ≤ 2 := by cases p.pc <;> simp [PubPc.phase]
  exact le_antisymm hup hle

/-- A `FINALIZATION` that went out carries the number of iterations of the loop. -/
theorem PubInv.finalization (h : PubInv args p)
    (hn : ((loopWrites p.writes).length : ℤ) ≤ int32Max) {x : PerftestSample} (hx : x ∈ sent p.writes)
    (hk : x.kind = .finalization) :
    p.pc.phase = 2 ∧ x.sequenceNumber = (loopWrites p.writes).length := by
  obtain ⟨⟨y, ok⟩, hw, rfl⟩ := List.mem_map.mp hx
  have hmem := (List.mem_filter.mp hw).1
  have hph := h.order.phase_of_final hmem hk
  have hstamp := h.final.stamped (y, ok) (List.mem_filter.mpr ⟨hmem, decide_eq_true hk⟩)
  have hseq := h.count.seq (by omega)
  have ha : p.pc.ahead = 0 := by
    revert hph
    cases p.pc <;> simp [PubPc.phase, PubPc.ahead]
  rw [ha, Nat.add_zero, i32_of_range ⟨by omega, hn⟩] at hseq
  exact ⟨hph, hstamp.trans hseq⟩

end Writes

end PerftestLite
