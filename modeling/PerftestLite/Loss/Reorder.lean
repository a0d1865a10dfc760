import PerftestLite.Lib.Steps
import PerftestLite.Loss.Overflow

/-!
# Loss counted on traffic in any order

The subscriber compares each data number with the one received just before it, so what it counts are
the numbers that the upward steps of the traffic jump over, the last step being the one past the
number of the `FINALIZATION`. On traffic that goes back the same number may be jumped over again.

* `Jumped`, `jumped_receive`: the counters after any deliveries;
* `lost_any_order`: the exact count, and when it is at most what was never delivered.
-/

set_option autoImplicit false

namespace PerftestLite

open Word Missing Steps

/-- The counters before the end of the test, `r` being the data numbers in the order they came. -/
structure Jumped (c : SubCtx) (r : List ℤ) : Prop where
  finished : c.finished = false
  last : c.lastSeq = r.getLast?.getD 0
  lost : c.lostSamples = u64 (skipped r)

variable {T : TypeInterface} {c : SubCtx} {r : List ℤ} {x : PerftestSample} {now : ℕ}

/-- The numbers a run of `n` iterations can produce. -/
def InRun (n : ℤ) (r : List ℤ) : Prop := ∀ m ∈ r, 1 ≤ m ∧ m ≤ n

/-- One data number more is one step more. -/
theorem Jumped.next (h : Jumped c r) (hx : x.isData = true) {n : ℤ} (hmax : n ≤ int32Max)
    (hr : InRun n (r ++ [x.sequenceNumber])) (hlt : ∀ m ∈ r, m ≠ int32Max) :
    Jumped (subOnSample T now x c).1 (r ++ [x.sequenceNumber]) := by
  obtain ⟨hf, hl, hlost⟩ := h
  have hx1 := hr x.sequenceNumber (by simp)
  unfold int32Max at hmax hlt
  rw [subOnSample_data hx]
  refine ⟨hf, by simp, ?_⟩
  cases hlast : r.getLast? with
  | none =>
    obtain rfl : r = [] := List.getLast?_eq_none_iff.mp hlast
    rw [hlast] at hl
    have hl0 : c.lastSeq = 0 := hl
    simp [hl0, hlost, skipped, overSteps]
  | some l =>
    have hlm := hr l (List.mem_append_left _ (List.mem_of_getLast? hlast))
    have hne := hlt l (List.mem_of_getLast? hlast)
    have hc : c.lastSeq = l := by rw [hl, hlast]; rfl
    have hstep : skipped (r ++ [x.sequenceNumber]) = skipped r + (x.sequenceNumber - l - 1).toNat :=
      overSteps_snoc hlast
    have e1 : i32 (l + 1) = l + 1 := i32_of_range ⟨by omega, by unfold int32Max; omega⟩
    have e2 : i32 (i32 (x.sequenceNumber - l) - 1) = x.sequenceNumber - l - 1 := by
      rw [i32_of_range (x := x.sequenceNumber - l) ⟨by omega, by unfold int32Max; omega⟩]
      exact i32_of_range ⟨by omega, by unfold int32Max; omega⟩
    rw [hstep, hc, hlost, e1, e2]
    dsimp only
    split_ifs with hgap
    · rw [toU64_of_nonneg (by omega) (by omega), u64, u64, u64, Nat.mod_add_mod]
    · have hz : (x.sequenceNumber - l - 1).toNat = 0 := by omega
      rw [hz, Nat.add_zero]

/-- No number in front of a data sample is the largest one. -/
theorem MaxIsLast.ne {ds : List (ℕ × PerftestSample)} {d : ℕ × PerftestSample}
    (h : MaxIsLast (ds ++ [d])) (hd : d.2.isData = true) : ∀ m ∈ numbers ds, m ≠ int32Max := by
  intro m hm hmax
  obtain ⟨e, he, rfl⟩ := List.mem_map.mp hm
  obtain ⟨hmem, hdata⟩ := List.mem_filter.mp he
  have hd' := (List.pairwise_append.mp h).2.2 e hmem d (List.mem_singleton_self d) hdata hmax
  rw [hd] at hd'
  cases hd'

/-- **Any deliveries.** The loss counted is what the upward steps jump over. -/
theorem jumped_receive (c : SubCtx) {n : ℤ} (hmax : n ≤ int32Max) {ds : List (ℕ × PerftestSample)}
    (hk : ∀ d ∈ ds, d.2.kind ≠ .finalization) (hr : InRun n (numbers ds)) (hlast : MaxIsLast ds) :
    Jumped (subReceive T (subReset c) ds) (numbers ds) := by
  induction ds using List.reverseRecOn with
  | nil => exact ⟨rfl, rfl, rfl⟩
  | append_singleton ds d ih =>
    rw [numbers_append] at hr ⊢
    have hj := ih (fun e he => hk e (List.mem_append_left _ he))
      (fun m hm => hr m (List.mem_append_left _ hm)) (List.pairwise_append.mp hlast).1
    rw [subReceive_append]
    change Jumped (subOnSample T d.1 d.2 (subReceive T (subReset c) ds)).1 _
    by_cases hd : d.2.isData = true
    · rw [numbers_data hd] at hr ⊢
      exact hj.next hd hmax hr (hlast.ne hd)
    · have hinit : d.2.kind = .initialization :=
        (PerftestSample.kind_of_not_isData hd).resolve_right (hk d (by simp))
      rw [numbers_other [d] (by simpa using hd), List.append_nil, subOnSample_initialization hinit]
      exact hj

/-- The first `FINALIZATION` is one step more, past the number it carries; it counts all of them
where nothing was received. -/
theorem Jumped.close (h : Jumped c r) {n : ℤ} (hr : InRun n r) (h0 : 0 ≤ n) (hmax : n ≤ int32Max)
    (hx : x.kind = .finalization) (hn : x.sequenceNumber = n) :
    (subOnSample T now x c).1.lostSamples =
      if r = [] then n.toNat else u64 (skipped (r ++ [n + 1])) := by
  obtain ⟨hf, hl, hlost⟩ := h
  unfold int32Max at hmax
  rw [subOnSample_finalization hx hf, hn]
  dsimp only
  cases hlast : r.getLast? with
  | none =>
    obtain rfl : r = [] := List.getLast?_eq_none_iff.mp hlast
    have hl0 : c.lastSeq = 0 := hl
    have hlost0 : c.lostSamples = 0 := hlost
    rw [if_pos rfl, hl0, hlost0, sub_zero, i32_of_range ⟨by omega, by unfold int32Max; omega⟩]
    split_ifs with hgap
    · rw [toU64_of_nonneg h0 (by omega), Nat.zero_add, u64_of_lt (by omega)]
    · omega
  | some l =>
    have hlm := hr l (List.mem_of_getLast? hlast)
    have hne : r ≠ [] := by
      rintro rfl
      cases hlast
    have hc : c.lastSeq = l := by rw [hl, hlast]; rfl
    have hstep : skipped (r ++ [n + 1]) = skipped r + (n + 1 - l - 1).toNat := overSteps_snoc hlast
    rw [if_neg hne, hc, hlost, hstep, i32_of_range ⟨by omega, by unfold int32Max; omega⟩]
    split_ifs with hgap
    · rw [toU64_of_nonneg (by omega) (by omega), u64, u64, u64, Nat.mod_add_mod]
      congr 2
      omega
    · have hz : (n + 1 - l - 1).toNat = 0 := by omega
      rw [hz, Nat.add_zero]

/-- What was never delivered. -/
theorem missing_any_order {n : ℤ} (h0 : 0 ≤ n) (hr : InRun n r) :
    (missing r 1 n : ℤ) = n - r.dedup.length := by
  have hsame : missing r 1 n = missing r.dedup 1 n := by
    unfold missing
    simp only [List.mem_dedup]
  rw [hsame, missing_eq (List.nodup_dedup r) (fun m hm => hr m (List.mem_dedup.mp hm)) (by omega)]
  omega

/-- What is counted in the end. -/
theorem lost_closed (c : SubCtx) {n : ℤ} (h0 : 0 ≤ n) (hmax : n ≤ int32Max)
    {ds tail : List (ℕ × PerftestSample)} (hk : ∀ d ∈ ds, d.2.kind ≠ .finalization)
    (hr : InRun n (numbers ds)) (hlast : MaxIsLast ds) (hend : Ending n tail) :
    (subReceive T (subReset c) (ds ++ tail)).lostSamples =
      if numbers ds = [] then n.toNat else u64 (skipped (numbers ds ++ [n + 1])) := by
  have hj : Jumped (subReceive T (subReset c) ds) (numbers ds) := jumped_receive c hmax hk hr hlast
  obtain ⟨now, x, hx, hn, heq⟩ := hend.receive (T := T) hj.finished
  rw [subReceive_append, heq]
  exact hj.close hr h0 hmax hx hn

/-- The walk along the numbers received and past the last one sent. -/
theorem InRun.walk {n a : ℤ} (hr : InRun n r) (ha : r.head? = some a) :
    (skipped (r ++ [n + 1]) : ℤ) + rises (r ++ [n + 1]) + a = fallen r + (n + 1) := by
  have hne : r ≠ [] := by
    rintro rfl
    cases ha
  have hl := List.getLast?_eq_some_getLast hne
  have hle := (hr _ (List.mem_of_getLast? hl)).2
  have hfall : fallen (r ++ [n + 1]) = fallen r + (r.getLast hne - (n + 1)).toNat := overSteps_snoc hl
  have hend : (r ++ [n + 1]).getLast? = some (n + 1) := List.getLast?_concat
  have hhead : (r ++ [n + 1]).head? = some a := by
    rw [List.head?_append, ha]
    rfl
  rw [skipped_add_rises hhead hend, hfall]
  omega

/-- On a walk that never goes down there is nothing jumped over that was not missed. -/
theorem InRun.skipped_le {n a : ℤ} (hr : InRun n r) (h0 : 0 ≤ n) (ha : r.head? = some a)
    (hup : r.Pairwise (· ≤ ·)) : skipped (r ++ [n + 1]) ≤ missing r 1 n := by
  have hwalk := hr.walk ha
  have hmiss := missing_any_order h0 hr
  have hfall := fallen_eq_zero hup
  have hdistinct := dedup_length_le hup
  have ha1 : 1 ≤ a := (hr a (List.mem_of_head? ha)).1
  have hne : r ≠ [] := by
    rintro rfl
    cases ha
  have hl := List.getLast?_eq_some_getLast hne
  have hle := (hr _ (List.mem_of_getLast? hl)).2
  have hrise : rises (r ++ [n + 1]) = rises r + 1 := by
    unfold rises
    rw [overSteps_snoc hl, if_pos (by omega)]
  omega

/-- **Loss on traffic in any order.** What is counted in the end are the numbers that the upward steps
jump over, the step past `n` included, and `n` if nothing was received. As long as it fits its
counter, the count is at most the number of samples never delivered exactly when the traffic does not
fall back too far; it always is when the traffic never goes back. -/
theorem lost_any_order (c : SubCtx) {n : ℤ} (h0 : 0 ≤ n) (hmax : n ≤ int32Max)
    {ds tail : List (ℕ × PerftestSample)} (hk : ∀ d ∈ ds, d.2.kind ≠ .finalization)
    (hr : InRun n (numbers ds)) (hlast : MaxIsLast ds) (hend : Ending n tail) :
    let lost := (subReceive T (subReset c) (ds ++ tail)).lostSamples
    let r := numbers ds
    (r = [] → lost = missing r 1 n) ∧
    (∀ a, r.head? = some a → lost = u64 (skipped (r ++ [n + 1])) ∧
      (skipped (r ++ [n + 1]) < 18446744073709551616 → (lost ≤ missing r 1 n ↔
        (fallen r + r.dedup.length + 1 : ℤ) ≤ a + rises (r ++ [n + 1])))) ∧
    (r.Pairwise (· ≤ ·) → lost ≤ missing r 1 n) := by
  intro lost r
  have hlost : lost = if r = [] then n.toNat else u64 (skipped (r ++ [n + 1])) :=
    lost_closed c h0 hmax hk hr hlast hend
  have hmiss : (missing r 1 n : ℤ) = n - r.dedup.length := missing_any_order h0 hr
  have hempty : r = [] → lost = missing r 1 n := by
    intro he
    rw [hlost, if_pos he]
    rw [he] at hmiss ⊢
    simp only [List.dedup_nil, List.length_nil] at hmiss
    omega
  have hfirst : ∀ a, r.head? = some a → lost = u64 (skipped (r ++ [n + 1])) := by
    intro a ha
    have hne : r ≠ [] := by
      intro he
      rw [he] at ha
      cases ha
    rw [hlost, if_neg hne]
  refine ⟨hempty, fun a ha => ⟨hfirst a ha, fun hfit => ?_⟩, fun hup => ?_⟩
  · have hwalk : (skipped (r ++ [n + 1]) : ℤ) + rises (r ++ [n + 1]) + a = fallen r + (n + 1) :=
      InRun.walk hr ha
    rw [hfirst a ha, u64_of_lt hfit]
    omega
  · cases ha : r.head? with
    | none => exact (hempty (List.head?_eq_none_iff.mp ha)).le
    | some a =>
      have hle : skipped (r ++ [n + 1]) ≤ missing r 1 n := InRun.skipped_le hr h0 ha hup
      rw [hfirst a ha]
      exact (Nat.mod_le _ _).trans hle

/-- Three samples, the second of them late. -/
def oneThreeTwo : List (ℕ × PerftestSample) :=
  [(1000, ⟨1, .data, 900, ⟨64000, 72⟩⟩), (1100, ⟨3, .data, 920, ⟨64000, 72⟩⟩),
    (1200, ⟨2, .data, 910, ⟨64000, 72⟩⟩)]

/-- A `FINALIZATION` that carries `3`. -/
def threeOnce : List (ℕ × PerftestSample) := [(2000, ⟨3, .finalization, 1900, ⟨64000, 72⟩⟩)]

/-- All three samples arrive, and two are counted as lost. -/
theorem late_sample_overcounts :
    (∀ m ∈ numbers oneThreeTwo, 1 ≤ m ∧ m ≤ 3) ∧ missing (numbers oneThreeTwo) 1 3 = 0 ∧
      (subReceive sequenceType (subReset .zero) (oneThreeTwo ++ threeOnce)).lostSamples = 2 := by
  decide

/-- The first sample twice, and not the second. -/
def oneOneThree : List (ℕ × PerftestSample) :=
  [(1000, ⟨1, .data, 900, ⟨64000, 72⟩⟩), (1100, ⟨1, .data, 900, ⟨64000, 72⟩⟩),
    (1200, ⟨3, .data, 920, ⟨64000, 72⟩⟩)]

theorem lost_any_order_twice :
    (subReceive sequenceType (subReset .zero) (oneOneThree ++ threeOnce)).lostSamples =
        u64 (skipped [1, 1, 3, 4]) ∧
      (subReceive sequenceType (subReset .zero) (oneOneThree ++ threeOnce)).lostSamples ≤
        missing (numbers oneOneThree) 1 3 := by
  have hr : InRun 3 (numbers oneOneThree) := by
    unfold InRun
    decide
  have hlast : MaxIsLast oneOneThree := by
    unfold MaxIsLast
    decide
  have hend : Ending 3 threeOnce := ⟨by decide, by decide, by decide⟩
  have h := lost_any_order (T := sequenceType) .zero (by decide) (by decide) (by decide) hr hlast hend
  exact ⟨(h.2.1 1 rfl).1, h.2.2 (by decide)⟩

end PerftestLite
