import PerftestLite.Core.Args
import PerftestLite.Core.Throughput
import PerftestLite.Loss.Gap

/-!
# Samples sent, received and lost

Every data sample of a run is received, counted as lost, or was lost before the first one received:
the guard `last_seq != 0` keeps the samples missing at the front out of the count.

* `loss_conservation`: the three add up to the samples written, for every run of the publisher and
  every subset of its samples that survives.
-/

set_option autoImplicit false

namespace PerftestLite

open Word Missing Machine

/-- The data samples lost before the first one received; none where nothing was received. -/
def leadingLoss (data : List (ℕ × PerftestSample)) : ℕ := ((numbers data).head?.getD 1 - 1).toNat

section

variable {T : TypeInterface} {cfg : Config} {args : InputArgs} {p : PubState}
  {data : List (ℕ × PerftestSample)}

theorem loopWrites_data {ws : List (PerftestSample × Bool)} {x : PerftestSample}
    (h : x ∈ (loopWrites ws).map Prod.fst) : x.isData = true := by
  obtain ⟨w, hw, rfl⟩ := List.mem_map.mp h
  exact (List.mem_filter.mp hw).2

/-- A subset of the samples of the loop, in the order they were written. -/
theorem data_of_sublist (hdata : (data.map Prod.snd).Sublist ((loopWrites p.writes).map Prod.fst)) :
    ∀ d ∈ data, d.2.isData = true := fun _ hd =>
  loopWrites_data (hdata.subset (List.mem_map_of_mem hd))

theorem numbers_eq_map (hd : ∀ d ∈ data, d.2.isData = true) :
    numbers data = data.map fun d => d.2.sequenceNumber := by
  unfold numbers
  rw [List.filter_eq_self.mpr hd]

/-- The numbers received are a sublist of `1, 2, …, N`. -/
theorem numbers_sublist (h : PubCount args p)
    (hn : ((loopWrites p.writes).length : ℤ) ≤ int32Max)
    (hdata : (data.map Prod.snd).Sublist ((loopWrites p.writes).map Prod.fst)) :
    (numbers data).Sublist (oneTo (loopWrites p.writes).length) := by
  rw [numbers_eq_map (data_of_sublist hdata), ← h.numbers hn]
  simpa [Function.comp_def] using hdata.map PerftestSample.sequenceNumber

theorem inOrder_of_sublist {r : List ℤ} {n : ℕ} (hn : (n : ℤ) ≤ int32Max)
    (h : r.Sublist (oneTo n)) : InOrder r := by
  refine ⟨(oneTo_pairwise n).sublist h, fun m hm => ?_⟩
  have := mem_oneTo.mp (h.subset hm)
  omega

/-- **Loss conservation.** Whatever part of the data samples of a run survives (one whose write fails
does not): the samples received, the samples counted as lost and the samples lost before the first
one received add up to the samples written. -/
theorem loss_conservation {history : Bool} {matchedPubs : ℤ} {results : Option Results}
    {es : List (ℕ × PubAction)} (c : SubCtx) {warm fins : List (ℕ × PerftestSample)}
    (hrun : exec (pubStep T cfg args) (pubInit T args history matchedPubs results) es = some p)
    (hpos : 1 ≤ (loopWrites p.writes).length)
    (hmax : ((loopWrites p.writes).length : ℤ) ≤ int32Max)
    (hwarm : ∀ d ∈ warm, d.2.kind = .initialization)
    (hdata : (data.map Prod.snd).Sublist ((loopWrites p.writes).map Prod.fst))
    (hne : fins ≠ [])
    (hfins : ∀ d ∈ fins, d.2 ∈ sent p.writes ∧ d.2.kind = .finalization) :
    let s := subReceive T (subReset c) (warm ++ data ++ fins)
    s.totalReceived + s.lostSamples + leadingLoss data = (loopWrites p.writes).length := by
  have hinv := pubInv_exec hrun
  have hnum : numbers (warm ++ data) = numbers data := by
    rw [numbers_append, numbers_other, List.nil_append]
    exact fun d hd => PerftestSample.isData_eq (hwarm d hd)
  have hsub := numbers_sublist hinv.count hmax hdata
  have hkinds : ∀ d ∈ warm ++ data, d.2.kind ≠ .finalization := by
    intro d hd hk
    rcases List.mem_append.mp hd with hd | hd
    · rw [hwarm d hd] at hk
      cases hk
    · have := data_of_sublist hdata d hd
      rw [PerftestSample.isData_eq hk] at this
      cases this
  have hclosed : Closed (subReceive T (subReset c) (warm ++ data ++ fins)) (numbers (warm ++ data))
      (loopWrites p.writes).length := closed_receive c hkinds (by rw [hnum]; exact inOrder_of_sublist hmax hsub)
    (by rw [hnum]; exact fun m hm => (mem_oneTo.mp (hsub.subset hm)).2) (by omega) hmax
    (ending_of_finals hne fun d hd =>
      ⟨(hfins d hd).2, (hinv.finalization hmax (hfins d hd).1 (hfins d hd).2).2⟩)
  rw [hnum] at hclosed
  have hsum := length_add_missing_head hsub
  intro s
  rw [hclosed.total, hclosed.lost]
  exact hsum

end

/-! ## Two samples, the first one lost -/

/-- A run of two iterations. -/
def twoSamples : List (ℕ × PubAction) :=
  throughputRun defaultConfig 1000000 [(2000000, true), (3000000, true)] 12000000

/-- The publisher after `twoSamples`. -/
def twoSamplesEnd : PubState :=
  (exec (pubStep sequenceType defaultConfig publisherDefaults)
    (pubInit sequenceType publisherDefaults false 1 none) twoSamples).getD
      (pubInit sequenceType publisherDefaults false 1 none)

/-- Only the second data sample arrives. -/
def secondSample : List (ℕ × PerftestSample) :=
  ((loopWrites twoSamplesEnd.writes).drop 1).map fun w => (3000050, w.1)

/-- The `FINALIZATION` arrives. -/
def twoSamplesFinal : List (ℕ × PerftestSample) :=
  (finalWrites twoSamplesEnd.writes).map fun w => (12000050, w.1)

theorem exec_twoSamples :
    exec (pubStep sequenceType defaultConfig publisherDefaults)
      (pubInit sequenceType publisherDefaults false 1 none) twoSamples = some twoSamplesEnd := by
  decide +kernel

theorem loss_conservation_two :
    let s := subReceive sequenceType (subReset .zero) ([] ++ secondSample ++ twoSamplesFinal)
    s.totalReceived + s.lostSamples + leadingLoss secondSample =
      (loopWrites twoSamplesEnd.writes).length :=
  loss_conservation (T := sequenceType) .zero exec_twoSamples (by decide +kernel)
    (by decide +kernel) (by simp) (by decide +kernel) (by decide +kernel) (by decide +kernel)

/-- Two samples were written and both writes succeeded, but received and lost make one. -/
theorem leading_loss_uncounted :
    exec (pubStep sequenceType defaultConfig publisherDefaults)
        (pubInit sequenceType publisherDefaults false 1 none) twoSamples = some twoSamplesEnd ∧
      outcomes twoSamplesEnd = [true, true] ∧
      (secondSample.map Prod.snd).Sublist ((loopWrites twoSamplesEnd.writes).map Prod.fst) ∧
      twoSamplesFinal ≠ [] ∧
      (∀ d ∈ twoSamplesFinal, d.2 ∈ sent twoSamplesEnd.writes ∧ d.2.kind = .finalization) ∧
      (let s := subReceive sequenceType (subReset .zero) (secondSample ++ twoSamplesFinal)
       s.totalReceived + s.lostSamples = 1) := by
  decide +kernel

end PerftestLite
