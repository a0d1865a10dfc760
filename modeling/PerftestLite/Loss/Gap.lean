import PerftestLite.Core.Subscriber
import PerftestLite.Lib.Missing

/-!
# Loss counted on traffic that arrives in order

The subscriber finds a loss in two ways: a gap between two data numbers, and the correction that the
first `FINALIZATION` carries. On numbers that only go up the two together count what is missing from
the first number received on.

* `Tally`: the counters after the data numbers `r`;
* `tally_receive`: any deliveries in order, warm-up samples anywhere between them;
* `Closed`, `closed_receive`: the counters once `FINALIZATION` samples have followed.
-/

set_option autoImplicit false

namespace PerftestLite

open Word Missing

/-- The data numbers among the deliveries. -/
def numbers (ds : List (ℕ × PerftestSample)) : List ℤ :=
  (ds.filter fun d => d.2.isData).map fun d => d.2.sequenceNumber

theorem numbers_append (ds es : List (ℕ × PerftestSample)) :
    numbers (ds ++ es) = numbers ds ++ numbers es := by
  simp [numbers]

theorem numbers_data {d : ℕ × PerftestSample} (h : d.2.isData = true) :
    numbers [d] = [d.2.sequenceNumber] := by
  simp [numbers, h]

theorem numbers_other (ds : List (ℕ × PerftestSample)) (h : ∀ d ∈ ds, d.2.isData = false) :
    numbers ds = [] := by
  simp only [numbers, List.map_eq_nil_iff, List.filter_eq_nil_iff]
  intro d hd
  simp [h d hd]

/-- Data numbers as a publisher that does not wrap around produces them. -/
def InOrder (r : List ℤ) : Prop := r.Pairwise (· < ·) ∧ ∀ n ∈ r, 0 < n ∧ n ≤ int32Max

theorem InOrder.of_append {r s : List ℤ} (h : InOrder (r ++ s)) : InOrder r :=
  ⟨(List.pairwise_append.mp h.1).1, fun n hn => h.2 n (List.mem_append_left s hn)⟩

/-- The counters before the end of the test, `r` being the data numbers received so far. -/
structure Tally (c : SubCtx) (r : List ℤ) : Prop where
  finished : c.finished = false
  total : c.totalReceived = r.length
  last : c.lastSeq = r.getLast?.getD 0
  lost : c.lostSamples = r.head?.elim 0 fun a => missing r a c.lastSeq

variable {T : TypeInterface} {c : SubCtx} {r : List ℤ} {x : PerftestSample} {now : ℕ}

theorem tally_reset (c : SubCtx) : Tally (subReset c) [] := ⟨rfl, rfl, rfl, rfl⟩

/-- The first data number is remembered and nothing is counted as lost. -/
theorem Tally.first (h : Tally c []) (hx : x.isData = true) :
    Tally (subOnSample T now x c).1 [x.sequenceNumber] := by
  obtain ⟨hf, ht, hl, hlost⟩ := h
  rw [subOnSample_data hx]
  refine ⟨hf, by simp [ht], rfl, ?_⟩
  have hl0 : c.lastSeq = 0 := hl
  have hlost0 : c.lostSamples = 0 := hlost
  have hm : missing [x.sequenceNumber] x.sequenceNumber x.sequenceNumber = 0 := by
    refine missing_eq_zero_iff.mpr fun y h1 h2 => ?_
    rw [List.mem_singleton]
    omega
  simp [hl0, hlost0, hm]

/-- A later data number adds the numbers skipped since the one before it. -/
theorem Tally.next (h : Tally c r) (hr : r ≠ []) (hx : x.isData = true)
    (ho : InOrder (r ++ [x.sequenceNumber])) :
    Tally (subOnSample T now x c).1 (r ++ [x.sequenceNumber]) := by
  obtain ⟨hf, ht, hl, hlost⟩ := h
  obtain ⟨a, ha⟩ : ∃ a, r.head? = some a := by
    cases r with
    | nil => exact absurd rfl hr
    | cons a r => exact ⟨a, rfl⟩
  obtain ⟨l, hlast⟩ : ∃ l, r.getLast? = some l := ⟨r.getLast hr, List.getLast?_eq_some_getLast hr⟩
  have hc : c.lastSeq = l := by rw [hl, hlast]; rfl
  have hlm : l ∈ r := List.mem_of_getLast? hlast
  have hls : l < x.sequenceNumber :=
    (List.pairwise_append.mp ho.1).2.2 l hlm _ (List.mem_singleton_self _)
  have hl0 := ho.2 l (List.mem_append_left _ hlm)
  have hx0 := ho.2 x.sequenceNumber (List.mem_append_right r (List.mem_singleton_self _))
  unfold int32Max at hl0 hx0
  have hsnoc := missing_snoc ho.1 ha hlast
  have hbound : missing (r ++ [x.sequenceNumber]) a x.sequenceNumber
      ≤ (x.sequenceNumber + 1 - a).toNat := by
    rw [← Int.card_Icc]
    exact Finset.card_filter_le _ _
  have ha0 := (ho.2 a (List.mem_append_left _ (List.mem_of_head? ha))).1
  rw [subOnSample_data hx]
  refine ⟨hf, by simp [ht], by simp, ?_⟩
  have hmiss : c.lostSamples = missing r a l := by rw [hlost, ha, hc]; rfl
  have hne : c.lastSeq ≠ 0 := by omega
  have e1 : i32 (c.lastSeq + 1) = l + 1 := by
    rw [hc]
    exact i32_of_range ⟨by omega, by unfold int32Max; omega⟩
  have e2 : i32 (i32 (x.sequenceNumber - c.lastSeq) - 1) = x.sequenceNumber - l - 1 := by
    rw [hc, i32_of_range (x := x.sequenceNumber - l) ⟨by omega, by unfold int32Max; omega⟩]
    exact i32_of_range ⟨by omega, by unfold int32Max; omega⟩
  have hhead : (r ++ [x.sequenceNumber]).head? = some a := by simp [ha]
  rw [hhead]
  change (if c.lastSeq ≠ 0 ∧ x.sequenceNumber > i32 (c.lastSeq + 1) then _ else _) =
    missing (r ++ [x.sequenceNumber]) a x.sequenceNumber
  rw [e1, e2, hmiss]
  split_ifs with hgap
  · rw [toU64_of_nonneg (by omega) (by omega), u64_of_lt (by omega)]
    omega
  · omega

/-- **Any deliveries in order.** After data numbers that only go up, with warm-up samples anywhere
between them, the counters are those of the numbers received. -/
theorem tally_receive (c : SubCtx) {ds : List (ℕ × PerftestSample)}
    (hk : ∀ d ∈ ds, d.2.kind ≠ .finalization) (ho : InOrder (numbers ds)) :
    Tally (subReceive T (subReset c) ds) (numbers ds) := by
  induction ds using List.reverseRecOn with
  | nil => exact tally_reset c
  | append_singleton ds d ih =>
    rw [numbers_append] at ho ⊢
    have ht := ih (fun e he => hk e (List.mem_append_left _ he)) ho.of_append
    rw [subReceive_append]
    change Tally (subOnSample T d.1 d.2 (subReceive T (subReset c) ds)).1 _
    by_cases hd : d.2.isData = true
    · rw [numbers_data hd] at ho ⊢
      by_cases hnil : numbers ds = []
      · rw [hnil] at ht ⊢
        exact ht.first hd
      · exact ht.next hnil hd ho
    · have hinit : d.2.kind = .initialization :=
        (PerftestSample.kind_of_not_isData hd).resolve_right (hk d (by simp))
      rw [numbers_other [d] (by simpa using hd), List.append_nil,
        subOnSample_initialization hinit]
      exact ht

/-! ## The end of the test -/

/-- The counters once a `FINALIZATION` numbered `n` has been processed. -/
structure Closed (c : SubCtx) (r : List ℤ) (n : ℤ) : Prop where
  finished : c.finished = true
  total : c.totalReceived = r.length
  lost : c.lostSamples = missing r (r.head?.getD 1) n

/-- The first `FINALIZATION` adds what is missing behind the last number received. -/
theorem Tally.close (h : Tally c r) (ho : InOrder r) (hx : x.kind = .finalization)
    (hle : ∀ n ∈ r, n ≤ x.sequenceNumber) (h0 : 0 ≤ x.sequenceNumber)
    (hmax : x.sequenceNumber ≤ int32Max) :
    Closed (subOnSample T now x c).1 r x.sequenceNumber := by
  obtain ⟨hf, ht, hl, hlost⟩ := h
  rw [subOnSample_finalization hx hf]
  refine ⟨rfl, ht, ?_⟩
  change (if x.sequenceNumber > c.lastSeq then _ else _) = _
  unfold int32Max at hmax
  cases hr : r with
  | nil =>
    subst hr
    have hl0 : c.lastSeq = 0 := hl
    have hlost0 : c.lostSamples = 0 := hlost
    have hfull : (missing ([] : List ℤ) 1 x.sequenceNumber : ℤ) = x.sequenceNumber := by
      rw [missing_nil, Int.card_Icc]
      omega
    rw [hl0, hlost0, sub_zero, i32_of_range ⟨by omega, by unfold int32Max; omega⟩]
    change _ = missing [] 1 x.sequenceNumber
    split_ifs with hgap
    · rw [toU64_of_nonneg (by omega) (by omega), u64_of_lt (by omega)]
      omega
    · omega
  | cons a r' =>
    rw [← hr]
    have hne : r ≠ [] := by simp [hr]
    have ha : r.head? = some a := by simp [hr]
    have hlast : r.getLast? = some (r.getLast hne) := List.getLast?_eq_some_getLast hne
    have hc : c.lastSeq = r.getLast hne := by rw [hl, hlast]; rfl
    have hlm : c.lastSeq ∈ r := by rw [hc]; exact List.getLast_mem hne
    have hl0 := ho.2 _ hlm
    have ha0 := ho.2 a (List.mem_of_head? ha)
    have hal : a ≤ c.lastSeq := head_le ho.1 ha hlm
    have hlx := hle _ hlm
    unfold int32Max at hl0 ha0
    have hup : ∀ y ∈ r, y ≤ c.lastSeq := by
      intro y hy
      rw [hc]
      exact (List.Pairwise.rel_getLast (ho.1.imp fun h => h.le) hy)
    have h1 := missing_eq ho.1.nodup (fun y hy => ⟨head_le ho.1 ha hy, hup y hy⟩) (by omega)
    have h2 := missing_eq ho.1.nodup (fun y hy => ⟨head_le ho.1 ha hy, hle y hy⟩) (by omega)
    have hmiss : c.lostSamples = missing r a c.lastSeq := by rw [hlost, ha]; rfl
    have hb := List.length_pos_iff.mpr hne
    rw [hmiss, ha, i32_of_range ⟨by omega, by unfold int32Max; omega⟩]
    change _ = missing r a x.sequenceNumber
    split_ifs with hgap
    · rw [toU64_of_nonneg (by omega) (by omega), u64_of_lt (by omega)]
      omega
    · omega

/-- Once the test has ended only data samples change anything. -/
theorem subReceive_ended {ds : List (ℕ × PerftestSample)} (hf : c.finished = true)
    (hk : ∀ d ∈ ds, d.2.isData = false) : subReceive T c ds = c := by
  induction ds with
  | nil => rfl
  | cons d ds ih =>
    have hd : (subOnSample T d.1 d.2 c).1 = c := by
      rcases PerftestSample.kind_of_not_isData (by
        rw [hk d List.mem_cons_self]
        exact Bool.false_ne_true) with hi | hfin
      · rw [subOnSample_initialization hi]
      · rw [subOnSample_finished hfin hf]
    rw [subReceive_cons, hd]
    exact ih fun e he => hk e (List.mem_cons_of_mem d he)

/-- The end of a test: warm-up samples, and one or more `FINALIZATION` samples that carry `n`. -/
structure Ending (n : ℤ) (ds : List (ℕ × PerftestSample)) : Prop where
  other : ∀ d ∈ ds, d.2.isData = false
  final : ∃ d ∈ ds, d.2.kind = .finalization
  number : ∀ d ∈ ds, d.2.kind = .finalization → d.2.sequenceNumber = n

/-- **The ending is its first `FINALIZATION`**, however many there are. -/
theorem Ending.receive {n : ℤ} {ds : List (ℕ × PerftestSample)} (h : Ending n ds)
    (hf : c.finished = false) : ∃ now x, x.kind = .finalization ∧ x.sequenceNumber = n ∧
      subReceive T c ds = (subOnSample T now x c).1 := by
  obtain ⟨hother, ⟨x, hx, hk⟩, hnum⟩ := h
  induction ds with
  | nil => cases hx
  | cons d ds ih =>
    have hrest : ∀ e ∈ ds, e.2.isData = false := fun e he => hother e (List.mem_cons_of_mem d he)
    rw [subReceive_cons]
    rcases PerftestSample.kind_of_not_isData (by
      rw [hother d List.mem_cons_self]
      exact Bool.false_ne_true) with hd | hd
    · rw [subOnSample_initialization hd]
      rcases List.mem_cons.mp hx with rfl | hx
      · rw [hd] at hk
        cases hk
      · exact ih hrest (fun e he => hnum e (List.mem_cons_of_mem d he)) hx
    · refine ⟨d.1, d.2, hd, hnum d List.mem_cons_self hd, subReceive_ended ?_ hrest⟩
      rw [subOnSample_finalization hd hf]

/-- **A whole test in order**: warm-up and data, then its ending. -/
theorem closed_receive (c : SubCtx) {n : ℤ} {ds tail : List (ℕ × PerftestSample)}
    (hk : ∀ d ∈ ds, d.2.kind ≠ .finalization) (ho : InOrder (numbers ds))
    (hle : ∀ m ∈ numbers ds, m ≤ n) (h0 : 0 ≤ n) (hmax : n ≤ int32Max) (hend : Ending n tail) :
    Closed (subReceive T (subReset c) (ds ++ tail)) (numbers ds) n := by
  have ht : Tally (subReceive T (subReset c) ds) (numbers ds) := tally_receive c hk ho
  obtain ⟨now, x, hx, rfl, heq⟩ := hend.receive (T := T) ht.finished
  rw [subReceive_append, heq]
  exact ht.close ho hx hle h0 hmax

/-- An ending of `FINALIZATION` samples alone. -/
theorem ending_of_finals {n : ℤ} {fins : List (ℕ × PerftestSample)} (hne : fins ≠ [])
    (hfin : ∀ d ∈ fins, d.2.kind = .finalization ∧ d.2.sequenceNumber = n) : Ending n fins := by
  obtain ⟨d, hd⟩ := List.exists_mem_of_ne_nil fins hne
  exact ⟨fun e he => PerftestSample.isData_eq (hfin e he).1, ⟨d, hd, (hfin d hd).1⟩,
    fun e he _ => (hfin e he).2⟩

end PerftestLite
