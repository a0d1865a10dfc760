import PerftestLite.Core.Args
import PerftestLite.Core.Publisher
import PerftestLite.Lib.OrderStat
import Mathlib.Data.List.GetD

/-!
# Percentiles as order statistics

The place of a percentile in the sorted history is computed in `uint32_t`, the product first. As long as
`99 * n` fits, the places are the right ones; above that a place wraps around, still inside the history,
and the value found there is right only if few enough values are smaller than the percentile.

* `OrderStatistics`: what the three percentiles claim to be;
* `percentile_hasRank`: what stands at the place computed;
* `percentiles_iff`: the exact condition, for one history and for all histories of one length.
-/

set_option autoImplicit false

namespace PerftestLite

open Word Machine OrderStat

/-- The percentiles of `r` are the elements of the sorted history at `50`, `90` and `99` hundredths. -/
structure OrderStatistics (h : List ℕ) (r : SizeResult) : Prop where
  p50 : h.mergeSort[50 * h.length / 100]? = some r.p50LatencyUs
  p90 : h.mergeSort[90 * h.length / 100]? = some r.p90LatencyUs
  p99 : h.mergeSort[99 * h.length / 100]? = some r.p99LatencyUs
  p50_le_p90 : r.p50LatencyUs ≤ r.p90LatencyUs
  p90_le_p99 : r.p90LatencyUs ≤ r.p99LatencyUs

variable {h : List ℕ} {p : ℕ}

/-- The place computed is never past the right one. -/
theorem place_le (n p : ℕ) : u32 (n * p) / 100 ≤ p * n / 100 := by
  rw [Nat.mul_comm p n]
  exact Nat.div_le_div_right (Nat.mod_le _ _)

theorem place_lt {n : ℕ} (hn : 0 < n) (hp : p < 100) : p * n / 100 < n := by
  rw [Nat.div_lt_iff_lt_mul (by decide), Nat.mul_comm n 100]
  exact Nat.mul_lt_mul_of_pos_right hp hn

/-- The percentile found stands at the place computed. -/
theorem percentile_hasRank (h0 : h ≠ []) (hp : p < 100) :
    HasRank h (u32 (h.length * p) / 100) (percentile h.mergeSort p) := by
  have hlen : h.mergeSort.length = h.length := List.length_mergeSort h
  have hlt : u32 (h.mergeSort.length * p) / 100 < h.mergeSort.length := by
    rw [hlen]
    exact (place_le _ p).trans_lt (place_lt (List.length_pos_iff.mpr h0) hp)
  have hget : h.mergeSort[u32 (h.mergeSort.length * p) / 100]? = some (percentile h.mergeSort p) := by
    unfold percentile
    rw [List.getD_eq_getElem _ _ hlt]
    exact List.getElem?_eq_getElem hlt
  rw [hlen] at hget
  exact getElem?_mergeSort_iff.mp hget

/-- **One percentile.** It is the right one exactly when no more values than the place computed are
smaller than the right one. -/
theorem percentile_iff (h0 : h ≠ []) (hp : p < 100) :
    h.mergeSort[p * h.length / 100]? = some (percentile h.mergeSort p) ↔
      ∀ x, HasRank h (p * h.length / 100) x → h.countP (· < x) ≤ u32 (h.length * p) / 100 := by
  have hfound := percentile_hasRank h0 hp
  refine Iff.trans getElem?_mergeSort_iff ⟨fun hright x hx => ?_, fun hall => ?_⟩
  · rw [hx.unique hright]
    exact hfound.below
  · have hlt : p * h.length / 100 < h.mergeSort.length := by
      rw [List.length_mergeSort]
      exact place_lt (List.length_pos_iff.mpr h0) hp
    have hx : HasRank h (p * h.length / 100) h.mergeSort[p * h.length / 100] :=
      getElem?_mergeSort_iff.mp (List.getElem?_eq_getElem hlt)
    rw [hfound.unique (hx.between (place_le _ p) (hall _ hx))]
    exact hx

/-- The percentiles of one history, sorted. -/
theorem orderStatistics_iff {r : SizeResult} (h50 : r.p50LatencyUs = percentile h.mergeSort 50)
    (h90 : r.p90LatencyUs = percentile h.mergeSort 90) (h99 : r.p99LatencyUs = percentile h.mergeSort 99)
    (h0 : h ≠ []) :
    OrderStatistics h r ↔ ∀ p ∈ [50, 90, 99], ∀ x,
      HasRank h (p * h.length / 100) x → h.countP (· < x) ≤ u32 (h.length * p) / 100 := by
  constructor
  · rintro ⟨hp50, hp90, hp99, -, -⟩
    rw [h50, percentile_iff h0 (by decide)] at hp50
    rw [h90, percentile_iff h0 (by decide)] at hp90
    rw [h99, percentile_iff h0 (by decide)] at hp99
    simp only [List.forall_mem_cons, List.not_mem_nil, IsEmpty.forall_iff, implies_true, and_true]
    exact ⟨hp50, hp90, hp99⟩
  · intro hall
    have hp50 := (percentile_iff h0 (by decide)).mpr (hall 50 (by decide))
    have hp90 := (percentile_iff h0 (by decide)).mpr (hall 90 (by decide))
    have hp99 := (percentile_iff h0 (by decide)).mpr (hall 99 (by decide))
    rw [← h50] at hp50
    rw [← h90] at hp90
    rw [← h99] at hp99
    refine ⟨hp50, hp90, hp99, ?_, ?_⟩
    · exact (getElem?_mergeSort_iff.mp hp50).le_of_le (getElem?_mergeSort_iff.mp hp90) (by omega)
    · exact (getElem?_mergeSort_iff.mp hp90).le_of_le (getElem?_mergeSort_iff.mp hp99) (by omega)

/-! ## The two statements -/

/-- `qsort` and the percentiles, no pong between them. -/
def ranking (now now' : ℕ) (ok ok' : Bool) : List (ℕ × PubAction) := [(now, .main ok), (now', .main ok')]

/-- They look up the percentiles in the sorted history. -/
theorem exec_ranking (T : TypeInterface) (cfg : Config) (args : InputArgs) (now now' : ℕ) (ok ok' : Bool)
    {s : PubState} (hpc : s.pc = .finish .sort) (hs : s.ctx.latHistory = some h)
    (h0 : h ≠ []) :
    ∃ s', exec (pubStep T cfg args) s (ranking now now' ok ok') = some s' ∧
      s'.tmp.p50LatencyUs = percentile h.mergeSort 50 ∧ s'.tmp.p90LatencyUs = percentile h.mergeSort 90 ∧
      s'.tmp.p99LatencyUs = percentile h.mergeSort 99 := by
  have hsome : s.ctx.noHistory = false := by
    unfold PubCtx.noHistory
    rw [hs]
    cases h with
    | nil => exact absurd rfl h0
    | cons v h => rfl
  have hsort : pubStep T cfg args s (now, .main ok) = some { s with
      pc := .finish .percentiles
      ctx := { s.ctx with latHistory := some h.mergeSort } } := by
    simp [pubStep, pubMain, hpc, hs, hsome, FinishPc.next, FinishPc.sorted, FinishPc.stored, FinishPc.assign]
  exact ⟨_, exec_cons.mpr ⟨_, hsort, exec_cons.mpr ⟨_, rfl, rfl⟩⟩, rfl, rfl, rfl⟩

/-! ## A history of `n` different values -/

/-- The publisher at the end of the loop, with a history. -/
def measured (T : TypeInterface) (args : InputArgs) (h : List ℕ) : PubState :=
  { pubInit T args true 1 none with
    pc := .finish .sort
    ctx := { pubCtxInit args true 1 with latHistory := some h } }

theorem mergeSort_range (n : ℕ) : (List.range n).mergeSort = List.range n := by
  apply List.mergeSort_of_pairwise
  exact List.pairwise_le_range.imp fun hab => decide_eq_true hab

/-- On `0, 1, 2, …` a percentile is its place. -/
theorem percentile_range {n : ℕ} (hn : 0 < n) (hp : p < 100) :
    percentile (List.range n) p = u32 (n * p) / 100 := by
  have hlt : u32 (n * p) / 100 < n := (place_le n p).trans_lt (place_lt hn hp)
  unfold percentile
  rw [List.length_range, List.getD_eq_getElem _ _ (by rwa [List.length_range]), List.getElem_range]

/-- Where `99 * n` does not fit, the last place is too small. -/
theorem place_wraps {n : ℕ} (hn : 4294967296 ≤ 99 * n) : u32 (n * 99) / 100 < 99 * n / 100 := by
  unfold u32
  omega

/-- **Percentiles.** In the statements that sort and look up, the percentiles of one history are its order
statistics exactly when no more values than the place computed are smaller than each of them; they
are so for every history of `n` values exactly when `99 * n` fits a `uint32_t`. -/
theorem percentiles_iff (T : TypeInterface) {cfg : Config} (args : InputArgs) (now now' : ℕ) (ok ok' : Bool)
    {n : ℕ} (hcfg : cfg.latencyHistorySize < 4294967296) (h1 : 1 ≤ n)
    (hn : n ≤ cfg.latencyHistorySize) :
    (∀ (s s' : PubState) (h : List ℕ), s.pc = .finish .sort → s.ctx.latHistory = some h → h.length = n →
      exec (pubStep T cfg args) s (ranking now now' ok ok') = some s' →
      (OrderStatistics h s'.tmp ↔ ∀ p ∈ [50, 90, 99], ∀ x,
        HasRank h (p * n / 100) x → h.countP (· < x) ≤ u32 (n * p) / 100)) ∧
    ((∀ (s s' : PubState) (h : List ℕ), s.pc = .finish .sort → s.ctx.latHistory = some h → h.length = n →
      (∀ v ∈ h, v < 4294967296) → exec (pubStep T cfg args) s (ranking now now' ok ok') = some s' →
      OrderStatistics h s'.tmp) ↔ 99 * n < 4294967296) := by
  have hone : ∀ (s s' : PubState) (h : List ℕ), s.pc = .finish .sort → s.ctx.latHistory = some h →
      h.length = n → exec (pubStep T cfg args) s (ranking now now' ok ok') = some s' →
      (OrderStatistics h s'.tmp ↔ ∀ p ∈ [50, 90, 99], ∀ x,
        HasRank h (p * n / 100) x → h.countP (· < x) ≤ u32 (n * p) / 100) := by
    intro s s' h hpc hs hlen hrun
    have h0 : h ≠ [] := by
      rintro rfl
      rw [List.length_nil] at hlen
      omega
    obtain ⟨t, ht, h50, h90, h99⟩ := exec_ranking T cfg args now now' ok ok' hpc hs h0
    obtain rfl := Option.some.inj (hrun.symm.trans ht)
    rw [← hlen]
    exact orderStatistics_iff h50 h90 h99 h0
  refine ⟨hone, fun hall => ?_, fun hfit s s' h hpc hs hlen _ hrun => ?_⟩
  · by_contra hwrap
    have h0 : List.range n ≠ [] := List.ne_nil_of_length_pos (by rw [List.length_range]; exact h1)
    obtain ⟨s', hrun, -, -, hp99⟩ := exec_ranking T cfg args now now' ok ok'
      (s := measured T args (List.range n)) rfl rfl h0
    have hstat := hall (measured T args (List.range n)) s' (List.range n) rfl rfl List.length_range
      (fun v hv => (List.mem_range.mp hv).trans (hn.trans_lt hcfg)) hrun
    have h99 := hstat.p99
    rw [hp99, mergeSort_range, List.length_range, List.getElem?_range (place_lt h1 (by decide)),
      percentile_range h1 (by decide)] at h99
    exact absurd (Option.some.inj h99) (place_wraps (not_lt.mp hwrap)).ne'
  · rw [hone s s' h hpc hs hlen hrun]
    intro p hp x hx
    have hle : p ≤ 99 := by
      simp only [List.mem_cons, List.not_mem_nil, or_false] at hp
      omega
    have hsmall : n * p < 4294967296 := by
      rw [Nat.mul_comm]
      exact (Nat.mul_le_mul_right n hle).trans_lt hfit
    rw [show u32 (n * p) = p * n by rw [u32, Nat.mod_eq_of_lt hsmall, Nat.mul_comm]]
    exact hx.below

/-- A build with the smallest history that can go wrong. -/
def wideHistory : Config := { defaultConfig with latencyHistorySize := 43383509 }

theorem percentiles_iff_wide :
    ¬ ∀ (s s' : PubState) (h : List ℕ), s.pc = .finish .sort → s.ctx.latHistory = some h →
      h.length = 43383509 → (∀ v ∈ h, v < 4294967296) →
      exec (pubStep sequenceType wideHistory publisherDefaults) s (ranking 0 0 true true) = some s' →
      OrderStatistics h s'.tmp := by
  have hsize : wideHistory.latencyHistorySize < 4294967296 := by decide
  have hroom : 43383509 ≤ wideHistory.latencyHistorySize := by decide
  have hiff := percentiles_iff sequenceType publisherDefaults 0 0 true true hsize (by decide) hroom
  rw [hiff.2]
  decide

/-- A full history of the latencies `0, 1, 2, …`: the value at 99 hundredths is `42949673`, the one
reported is `0` and below the median. -/
theorem percentile_wraps :
    ∃ s', exec (pubStep sequenceType wideHistory publisherDefaults)
        (measured sequenceType publisherDefaults (List.range 43383509)) (ranking 0 0 true true) = some s' ∧
      (List.range 43383509).mergeSort[99 * 43383509 / 100]? = some 42949673 ∧
      s'.tmp.p99LatencyUs = 0 ∧ s'.tmp.p50LatencyUs = 21691754 := by
  have h0 : List.range 43383509 ≠ [] :=
    List.ne_nil_of_length_pos (by rw [List.length_range]; decide)
  obtain ⟨s', hrun, h50, -, h99⟩ := exec_ranking sequenceType wideHistory publisherDefaults 0 0 true true
    (s := measured sequenceType publisherDefaults (List.range 43383509)) rfl rfl h0
  rw [mergeSort_range, percentile_range (by decide) (by decide)] at h50 h99
  refine ⟨s', hrun, ?_, h99.trans (by decide), h50.trans (by decide)⟩
  rw [mergeSort_range]
  exact List.getElem?_range (by decide)

end PerftestLite
