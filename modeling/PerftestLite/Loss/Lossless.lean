import PerftestLite.Lib.Count
import PerftestLite.Loss.Conservation

/-!
# A network that loses nothing

The publisher counts the writes that succeed, the subscriber infers loss from numbers that advance
on every iteration. Over a network that loses nothing they agree exactly when no write fails once
one has succeeded, and one does succeed if the loop runs at all: a number used up by a failed write
looks like a lost sample.

* `SteadyWrites`: the pattern of outcomes;
* `lossless_iff`: no loss shown, and the same totals on both sides, exactly for these patterns.
-/

set_option autoImplicit false

namespace PerftestLite

open Word Missing Machine Count

/-- No write fails after one that succeeded; if there are writes, one succeeds. -/
def SteadyWrites (bs : List Bool) : Prop :=
  bs.Pairwise (fun b b' => b = true → b' = true) ∧ (bs ≠ [] → true ∈ bs)

section

variable {T : TypeInterface} {cfg : Config} {args : InputArgs} {p : PubState}
  {ds : List (ℕ × PerftestSample)}

/-- What went out, the `FINALIZATION` samples last. -/
theorem PubOrder.split (h : PubOrder args p) (hds : ds.map Prod.snd = sent p.writes) :
    ds = ds.filter (fun d => decide (d.2.kind ≠ .finalization)) ++
      ds.filter fun d => decide (d.2.kind = .finalization) := by
  have hsent : (sent p.writes).Pairwise fun x y => x.kind.phase ≤ y.kind.phase :=
    List.pairwise_map.mpr (h.ordered.sublist List.filter_sublist)
  rw [← hds, List.pairwise_map] at hsent
  have := filter_append_rest (q := fun d : ℕ × PerftestSample =>
    decide (d.2.kind ≠ .finalization)) (hsent.imp fun {x y} hxy => by
      simp only [decide_eq_true_eq]
      intro hy hx
      rw [hx] at hxy
      revert hy hxy
      cases y.2.kind <;> simp [PerftestTypeKind.phase])
  simpa using this

/-- The numbers received are those of the writes that succeeded. -/
theorem numbers_sent (hds : ds.map Prod.snd = sent p.writes) :
    numbers ds = ((loopWrites p.writes).filter fun w => w.2).map fun w => w.1.sequenceNumber := by
  have h1 : numbers ds =
      ((ds.map Prod.snd).filter PerftestSample.isData).map PerftestSample.sequenceNumber := by
    simp [numbers, List.filter_map, Function.comp_def]
  rw [h1, hds]
  simp [sent, loopWrites, List.filter_map, Function.comp_def, List.filter_filter, Bool.and_comm]

theorem numbers_sent_sublist (h : PubCount args p)
    (hmax : ((loopWrites p.writes).length : ℤ) ≤ int32Max) (hds : ds.map Prod.snd = sent p.writes) :
    (numbers ds).Sublist (oneTo (loopWrites p.writes).length) := by
  rw [numbers_sent hds, ← h.numbers hmax]
  exact List.filter_sublist.map _

/-- Number `i + 1` is received exactly when write `i` succeeded. -/
theorem mem_numbers_sent (h : PubCount args p)
    (hmax : ((loopWrites p.writes).length : ℤ) ≤ int32Max) (hds : ds.map Prod.snd = sent p.writes)
    {n : ℤ} : n ∈ numbers ds ↔ ∃ i : ℕ, (outcomes p)[i]? = some true ∧ n = i + 1 := by
  have hnum : ∀ i (hi : i < (loopWrites p.writes).length),
      (loopWrites p.writes)[i].1.sequenceNumber = i + 1 := by
    intro i hi
    have := congrArg (fun l : List ℤ => l[i]?) (h.numbers hmax)
    simpa [oneTo, hi] using this
  rw [numbers_sent hds, List.mem_map]
  constructor
  · rintro ⟨w, hw, rfl⟩
    obtain ⟨hmem, hok⟩ := List.mem_filter.mp hw
    obtain ⟨i, hi, rfl⟩ := List.getElem_of_mem hmem
    exact ⟨i, by simp [outcomes, hi, hok], hnum i hi⟩
  · rintro ⟨i, hi, rfl⟩
    obtain ⟨hlt, hok⟩ := List.getElem?_eq_some_iff.mp hi
    have hlt' : i < (loopWrites p.writes).length := by rwa [outcomes_length] at hlt
    exact ⟨(loopWrites p.writes)[i], List.mem_filter.mpr ⟨List.getElem_mem hlt', by
      simpa [outcomes] using hok⟩, hnum i hlt'⟩

/-- Nothing is missing from the first success on exactly when no write fails from there on. -/
theorem missing_eq_zero_iff_steady {r : List ℤ} {bs : List Bool} (hr : r.Pairwise (· < ·))
    (hmem : ∀ n, n ∈ r ↔ ∃ i : ℕ, bs[i]? = some true ∧ n = i + 1) :
    missing r (r.head?.getD 1) bs.length = 0 ↔ SteadyWrites bs := by
  have hidx : ∀ i (hi : i < bs.length), (i : ℤ) + 1 ∈ r ↔ bs[i] = true := by
    intro i hi
    rw [hmem]
    constructor
    · rintro ⟨j, hj, hij⟩
      obtain rfl : i = j := by omega
      exact (List.getElem?_eq_some_iff.mp hj).2
    · exact fun h => ⟨i, List.getElem?_eq_some_iff.mpr ⟨hi, h⟩, rfl⟩
  rw [missing_eq_zero_iff]
  constructor
  · intro h
    have hfrom : ∀ i (hi : i < bs.length), r.head?.getD 1 ≤ (i : ℤ) + 1 → bs[i] = true :=
      fun i hi ha => (hidx i hi).mp (h _ ha (by omega))
    refine ⟨List.pairwise_iff_getElem.mpr fun i j hi hj hij hbi => hfrom j hj ?_, fun hne => ?_⟩
    · have hmi := (hidx i hi).mpr hbi
      have hhead : r.head?.getD 1 ≤ (i : ℤ) + 1 := by
        cases r with
        | nil => cases hmi
        | cons a r => exact head_le hr rfl hmi
      omega
    · cases r with
      | nil =>
        have hpos := List.length_pos_iff.mpr hne
        have := hfrom 0 hpos (by simp)
        rw [← this]
        exact List.getElem_mem hpos
      | cons a r =>
        obtain ⟨i, hi, -⟩ := (hmem a).mp List.mem_cons_self
        exact List.mem_of_getElem? hi
  · rintro ⟨hpair, hsome⟩ x hax hxn
    by_cases hbs : bs = []
    · subst hbs
      cases r with
      | nil => simp at hax hxn; omega
      | cons a r =>
        obtain ⟨i, hi, -⟩ := (hmem a).mp List.mem_cons_self
        simp at hi
    · obtain ⟨k, hk, hbk⟩ := List.getElem_of_mem (hsome hbs)
      have hkr := (hidx k hk).mpr hbk
      cases hr' : r with
      | nil => rw [hr'] at hkr; cases hkr
      | cons a r' =>
        rw [hr'] at hax
        change a ≤ x at hax
        have har : a ∈ r := by rw [hr']; exact List.mem_cons_self
        rw [← hr']
        obtain ⟨i, hi, hia⟩ := (hmem a).mp har
        obtain ⟨hilt, hbi⟩ := List.getElem?_eq_some_iff.mp hi
        rcases hax.eq_or_lt with rfl | hlt
        · exact har
        · have hj : (x - 1).toNat < bs.length := by omega
          have := (hidx _ hj).mpr (List.pairwise_iff_getElem.mp hpair i _ hilt hj (by omega) hbi)
          rwa [show (((x - 1).toNat : ℕ) : ℤ) + 1 = x by omega] at this

/-- **A network that loses nothing shows no loss, and the two sides agree, exactly for the steady
patterns of outcomes.** -/
theorem lossless_iff {history : Bool} {matchedPubs : ℤ} {results : Option Results}
    {es : List (ℕ × PubAction)} (c : SubCtx)
    (hrun : exec (pubStep T cfg args) (pubInit T args history matchedPubs results) es = some p)
    (hmax : ((loopWrites p.writes).length : ℤ) ≤ int32Max)
    (hds : ds.map Prod.snd = sent p.writes) (hfin : ∃ x ∈ sent p.writes, x.kind = .finalization) :
    let s := subReceive T (subReset c) ds
    (s.lostSamples = 0 ∧ s.totalReceived = p.tmp.totalSamples) ↔ SteadyWrites (outcomes p) := by
  have hinv := pubInv_exec hrun
  have hsub := numbers_sent_sublist hinv.count hmax hds
  have hsplit := hinv.order.split hds
  have hfins : ∀ d ∈ ds.filter (fun d => decide (d.2.kind = .finalization)),
      d.2.kind = .finalization ∧ d.2.sequenceNumber = (loopWrites p.writes).length := by
    intro d hd
    obtain ⟨hmem, hk⟩ := List.mem_filter.mp hd
    have hk' := of_decide_eq_true hk
    have hx : d.2 ∈ sent p.writes := by rw [← hds]; exact List.mem_map_of_mem hmem
    exact ⟨hk', (hinv.finalization hmax hx hk').2⟩
  have hnum : numbers (ds.filter fun d => decide (d.2.kind ≠ .finalization)) = numbers ds := by
    conv_rhs => rw [hsplit]
    rw [numbers_append, numbers_other (ds.filter fun d => decide (d.2.kind = .finalization)),
      List.append_nil]
    exact fun d hd => PerftestSample.isData_eq (hfins d hd).1
  obtain ⟨x, hx, hk⟩ := hfin
  have hne : ds.filter (fun d => decide (d.2.kind = .finalization)) ≠ [] := by
    rw [← hds] at hx
    obtain ⟨d, hd, rfl⟩ := List.mem_map.mp hx
    exact List.ne_nil_of_mem (List.mem_filter.mpr ⟨hd, decide_eq_true hk⟩)
  have hclosed := closed_receive (T := T) c (n := (loopWrites p.writes).length)
    (fun d hd => of_decide_eq_true (List.mem_filter.mp hd).2)
    (by rw [hnum]; exact inOrder_of_sublist hmax hsub)
    (by rw [hnum]; exact fun m hm => (mem_oneTo.mp (hsub.subset hm)).2) (by omega) hmax
    (ending_of_finals hne hfins)
  rw [hnum, ← hsplit] at hclosed
  have hph := (hinv.finalization hmax hx hk).1
  have htotal : p.tmp.totalSamples = (numbers ds).length := by
    rw [(hinv.final.lastSeq (PubPc.tallied_of_measured (PubPc.measured_of_phase hph))).2,
      hinv.count.total (by omega), numbers_sent hds, List.length_map]
  intro s
  have hlost : s.lostSamples = missing (numbers ds) ((numbers ds).head?.getD 1)
      (outcomes p).length := by
    rw [outcomes_length]
    exact hclosed.lost
  rw [hlost, show s.totalReceived = p.tmp.totalSamples from hclosed.total.trans htotal.symm,
    ← missing_eq_zero_iff_steady ((oneTo_pairwise _).sublist hsub) fun n =>
      mem_numbers_sent hinv.count hmax hds]
  exact and_iff_left rfl

end

/-! ## A write that fails at the end of the loop -/

/-- A run of two iterations; the write of the second fails. -/
def lastWriteFails : List (ℕ × PubAction) :=
  throughputRun defaultConfig 1000000 [(2000000, true), (3000000, false)] 12000000

/-- The publisher after `lastWriteFails`. -/
def lastWriteFailsEnd : PubState :=
  (exec (pubStep sequenceType defaultConfig publisherDefaults)
    (pubInit sequenceType publisherDefaults false 1 none) lastWriteFails).getD
      (pubInit sequenceType publisherDefaults false 1 none)

theorem exec_lastWriteFails :
    exec (pubStep sequenceType defaultConfig publisherDefaults)
      (pubInit sequenceType publisherDefaults false 1 none) lastWriteFails =
        some lastWriteFailsEnd := by
  decide +kernel

/-- Everything that went out arrives. -/
def allArrive : List (ℕ × PerftestSample) :=
  (sent lastWriteFailsEnd.writes).map fun x => (12000050, x)

theorem lossless_iff_last :
    let s := subReceive sequenceType (subReset .zero) allArrive
    (s.lostSamples = 0 ∧ s.totalReceived = lastWriteFailsEnd.tmp.totalSamples) ↔
      SteadyWrites (outcomes lastWriteFailsEnd) :=
  lossless_iff (T := sequenceType) .zero exec_lastWriteFails (by decide +kernel)
    (by decide +kernel) (by decide +kernel)

/-- Nothing that went out is lost, and one sample is shown as lost. -/
theorem failed_write_shown_as_loss :
    exec (pubStep sequenceType defaultConfig publisherDefaults)
        (pubInit sequenceType publisherDefaults false 1 none) lastWriteFails =
          some lastWriteFailsEnd ∧
      allArrive.map Prod.snd = sent lastWriteFailsEnd.writes ∧
      (∃ x ∈ sent lastWriteFailsEnd.writes, x.kind = .finalization) ∧
      (subReceive sequenceType (subReset .zero) allArrive).lostSamples = 1 := by
  decide +kernel

end PerftestLite
