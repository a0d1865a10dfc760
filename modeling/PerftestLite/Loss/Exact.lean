import PerftestLite.Loss.Gap

/-!
# The count of losses in order

What `lost_samples` is at every moment of a test whose data numbers only go up: the numbers missing
between the first and the latest one received, and in the end up to the number the `FINALIZATION`
carries.

* `prefix_tally`: the counters after every prefix of the data;
* `gap_detection_exact`: during the test and after it.
-/

set_option autoImplicit false

namespace PerftestLite

open Word Missing

variable {T : TypeInterface}

/-- **During the test**: after a prefix of deliveries in order, at least one of them data. -/
theorem prefix_tally (c : SubCtx) {pre ds : List (ℕ × PerftestSample)} (hpre : ds <+: pre)
    (hk : ∀ d ∈ pre, d.2.kind ≠ .finalization) (ho : InOrder (numbers pre)) {a l : ℤ}
    (ha : (numbers ds).head? = some a) (hl : (numbers ds).getLast? = some l) :
    (subReceive T (subReset c) ds).lostSamples = missing (numbers ds) a l ∧
      (subReceive T (subReset c) ds).totalReceived = (numbers ds).length := by
  obtain ⟨rest, rfl⟩ := hpre
  rw [numbers_append] at ho
  have ht : Tally (subReceive T (subReset c) ds) (numbers ds) :=
    tally_receive c (fun d hd => hk d (List.mem_append_left rest hd)) ho.of_append
  have hlast : (subReceive T (subReset c) ds).lastSeq = l := by
    rw [ht.last, hl]
    rfl
  refine ⟨?_, ht.total⟩
  rw [ht.lost, ha, hlast]
  rfl

/-- **Gap detection is exact on traffic in order.** After every prefix of the data `lost_samples` is
what is missing between the first and the latest number received; in the end it is what is missing
from the first number to `n`, and `n` if nothing was received, however many `FINALIZATION` samples
follow. -/
theorem gap_detection_exact (c : SubCtx) {pre tail : List (ℕ × PerftestSample)} {n : ℤ}
    (hk : ∀ d ∈ pre, d.2.kind ≠ .finalization) (ho : InOrder (numbers pre))
    (hle : ∀ m ∈ numbers pre, m ≤ n) (h0 : 0 ≤ n) (hmax : n ≤ int32Max) (hend : Ending n tail) :
    (∀ ds a l, ds <+: pre → (numbers ds).head? = some a → (numbers ds).getLast? = some l →
      (subReceive T (subReset c) ds).lostSamples = missing (numbers ds) a l ∧
        (subReceive T (subReset c) ds).totalReceived = (numbers ds).length) ∧
    (∀ a, (numbers pre).head? = some a →
      (subReceive T (subReset c) (pre ++ tail)).lostSamples = missing (numbers pre) a n) ∧
    (numbers pre = [] → (subReceive T (subReset c) (pre ++ tail)).lostSamples = n) ∧
    (subReceive T (subReset c) (pre ++ tail)).totalReceived = (numbers pre).length := by
  have hclosed : Closed (subReceive T (subReset c) (pre ++ tail)) (numbers pre) n :=
    closed_receive c hk ho hle h0 hmax hend
  refine ⟨fun ds a l hpre ha hl => prefix_tally c hpre hk ho ha hl, fun a ha => ?_, fun hnil => ?_,
    hclosed.total⟩
  · rw [hclosed.lost, ha]
    rfl
  · rw [hclosed.lost, hnil, missing_nil, Int.card_Icc]
    change (((n + 1 - 1).toNat : ℕ) : ℤ) = n
    omega

/-- Deliveries `2`, `5` with a warm-up sample between them. -/
def twoAndFive : List (ℕ × PerftestSample) :=
  [(1000, ⟨2, .data, 900, ⟨64000, 72⟩⟩), (1100, ⟨0, .initialization, 800, ⟨64000, 72⟩⟩),
    (1200, ⟨5, .dataPing, 1150, ⟨64000, 72⟩⟩)]

/-- Two `FINALIZATION` samples that carry `7`. -/
def sevenTwice : List (ℕ × PerftestSample) :=
  [(2000, ⟨7, .finalization, 1900, ⟨64000, 72⟩⟩), (2100, ⟨7, .finalization, 1900, ⟨64000, 72⟩⟩)]

theorem gap_detection_two_five :
    (subReceive (typeDefault growingCalls 64000 100) (subReset .zero)
        (twoAndFive ++ sevenTwice)).lostSamples = 4 ∧
      missing (numbers twoAndFive) 2 7 = 4 := by
  have hend : Ending 7 sevenTwice := ⟨by decide, by decide, by decide⟩
  have h := gap_detection_exact (T := typeDefault growingCalls 64000 100) .zero (by decide)
    (show InOrder (numbers twoAndFive) from ⟨by decide, by decide⟩) (by decide) (by decide) (by decide)
    hend
  exact ⟨by decide, (h.2.1 2 rfl).symm.trans (by decide)⟩

end PerftestLite
