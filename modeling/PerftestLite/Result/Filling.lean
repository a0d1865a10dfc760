import PerftestLite.Latency.Provenance
import PerftestLite.Result.Percentile

/-!
# The result, one reading after the other

The statements that fill the result read the statistics one by one, and a pong may be counted between any two of
them. Each field is right for the pongs counted at its own reading; the readings are in order.

* `Cuts`: how many pongs had been counted at each reading;
* `rankedHistory`, `replayed`: the latency columns, from the latencies and the cuts;
* `Filling`, `filling_main`: the result so far, statement by statement;
* `Filling.replayed_eq`: the result.
-/

set_option autoImplicit false

namespace PerftestLite

open Word Machine OrderStat

/-! ## Sentinels -/

/-- Half of a round trip is far below the sentinel. -/
theorem pongLatency_lt {now ts : ℕ} (h : now < 18446744073709551616) :
    pongLatency now ts < noLatency := by
  unfold pongLatency noLatency
  split_ifs <;> omega

/-- A minimum that starts at a sentinel above all. -/
theorem foldl_min_eq {l : List ℕ} {b : ℕ} (hb : ∀ x ∈ l, x < b) : l.foldl min b = l.min?.getD b := by
  cases h : l.min? with
  | none =>
    rw [List.min?_eq_none_iff.mp h]
    rfl
  | some m =>
    obtain ⟨hm, hle⟩ := List.min?_eq_some_iff.mp h
    have hall : (b :: l).min? = some m := by
      rw [List.min?_eq_some_iff]
      refine ⟨List.mem_cons_of_mem b hm, fun x hx => ?_⟩
      rcases List.mem_cons.mp hx with rfl | hx
      · exact (hb m hm).le
      · exact hle x hx
    exact Option.some.inj (List.min?_cons'.symm.trans hall)

/-- A maximum that starts at zero. -/
theorem foldl_max_eq (l : List ℕ) : l.foldl max 0 = l.max?.getD 0 := by
  cases h : l.max? with
  | none =>
    rw [List.max?_eq_none_iff.mp h]
    rfl
  | some m =>
    obtain ⟨hm, hle⟩ := List.max?_eq_some_iff.mp h
    have hall : (0 :: l).max? = some m := by
      rw [List.max?_eq_some_iff]
      refine ⟨List.mem_cons_of_mem 0 hm, fun x hx => ?_⟩
      rcases List.mem_cons.mp hx with rfl | hx
      · exact Nat.zero_le m
      · exact hle x hx
    exact Option.some.inj (List.max?_cons'.symm.trans hall)

/-! ## The readings -/

/-- How many of `n` pongs had been counted when the history was sorted, when the percentiles were looked up, the
clock was read, the count taken over, the sum read and divided, and when the two extremes were read. -/
structure Cuts (n : ℕ) where
  sorted : ℕ
  ranked : ℕ
  timed : ℕ
  received : ℕ
  summed : ℕ
  divided : ℕ
  minimum : ℕ
  maximum : ℕ
  ordered : sorted ≤ ranked ∧ ranked ≤ timed ∧ timed ≤ received ∧ received ≤ summed ∧ summed ≤ divided ∧
    divided ≤ minimum ∧ minimum ≤ maximum ∧ maximum ≤ n

/-- The place of the next statement that fills the result. -/
def PubPc.filled : PubPc → ℕ
  | .finish f => f.index
  | pc => if pc.measured then 8 else 0

namespace Cuts

variable {n m : ℕ}

/-- All readings at once. -/
def all (n : ℕ) : Cuts n := ⟨n, n, n, n, n, n, n, n, by omega⟩

/-- More pongs. -/
def weaken (c : Cuts n) (h : n ≤ m) : Cuts m where
  sorted := c.sorted
  ranked := c.ranked
  timed := c.timed
  received := c.received
  summed := c.summed
  divided := c.divided
  minimum := c.minimum
  maximum := c.maximum
  ordered := by
    have := c.ordered
    omega

/-- A reading now: the readings from the `k`th on are not before it. -/
def mark (c : Cuts n) (k : ℕ) : Cuts n where
  sorted := if 0 < k then c.sorted else n
  ranked := if 1 < k then c.ranked else n
  timed := if 2 < k then c.timed else n
  received := if 3 < k then c.received else n
  summed := if 4 < k then c.summed else n
  divided := if 5 < k then c.divided else n
  minimum := if 6 < k then c.minimum else n
  maximum := if 7 < k then c.maximum else n
  ordered := by
    have := c.ordered
    split_ifs <;> omega

/-- Where no pong was counted since, the readings are where they were. -/
theorem mark_all (n k : ℕ) : (all n).mark k = all n := by
  simp [mark, all]

end Cuts

/-! ## The columns -/

/-- What the history holds. -/
def recorded (cfg : Config) (lats : List ℕ) : List ℕ := (lats.take cfg.latencyHistorySize).map saturated

/-- The history in which the percentiles are looked up: `first` was sorted, what else `second` has came after.
Without a buffer, or with nothing to sort, there is none. -/
def rankedHistory (cfg : Config) (history : Bool) (first second : List ℕ) : List ℕ :=
  if history = true ∧ recorded cfg first ≠ [] then
    (recorded cfg first).mergeSort ++ (recorded cfg second).drop first.length
  else []

/-- The latency columns of a result, from the latencies. -/
def replayed (cfg : Config) (history : Bool) (lats : List ℕ) {n : ℕ} (c : Cuts n) (r : SizeResult) :
    SizeResult :=
  let h := rankedHistory cfg history (lats.take c.sorted) (lats.take c.ranked)
  { r with
    latencySamplesReceived := c.received
    avgLatencyUs := u64 (lats.take c.summed).sum / c.divided
    minLatencyUs := (lats.take c.minimum).min?.getD 0
    maxLatencyUs := (lats.take c.maximum).max?.getD 0
    p50LatencyUs := percentile h 50
    p90LatencyUs := percentile h 90
    p99LatencyUs := percentile h 99 }

/-- The percentiles have been looked up. -/
def Ranked (cfg : Config) (history : Bool) (lats : List ℕ) {n : ℕ} (c : Cuts n) (r : SizeResult) : Prop :=
  ∀ h, h = rankedHistory cfg history (lats.take c.sorted) (lats.take c.ranked) →
    r.p50LatencyUs = percentile h 50 ∧ r.p90LatencyUs = percentile h 90 ∧ r.p99LatencyUs = percentile h 99

/-- The first `k` statements have filled their columns. -/
structure Filled (cfg : Config) (history : Bool) (lats : List ℕ) {n : ℕ} (c : Cuts n) (k : ℕ)
    (r : SizeResult) : Prop where
  percentiles : 2 ≤ k → Ranked cfg history lats c r
  received : 4 ≤ k → r.latencySamplesReceived = c.received
  average : 6 ≤ k → r.avgLatencyUs = u64 (lats.take c.summed).sum / c.divided
  minimum : 7 ≤ k → r.minLatencyUs = (lats.take c.minimum).min?.getD 0
  maximum : 8 ≤ k → r.maxLatencyUs = (lats.take c.maximum).max?.getD 0

/-- The result so far, and what has been read for the next column. -/
structure Filling (cfg : Config) (history : Bool) {n : ℕ} (c : Cuts n) (p : PubState) : Prop where
  length : n = p.latencies.length
  buffer : p.ctx.latHistory.isSome = history
  filled : Filled cfg history p.latencies c p.pc.filled p.tmp
  ranking : p.pc = .finish .percentiles → recorded cfg (p.latencies.take c.sorted) ≠ [] ∧
    p.ctx.latHistory.getD [] = rankedHistory cfg history (p.latencies.take c.sorted) p.latencies
  sum : ∀ sum, p.pc = .finish (.average sum) → sum = u64 (p.latencies.take c.summed).sum

section

variable {T : TypeInterface} {cfg : Config} {args : InputArgs} {history : Bool} {n now : ℕ} {ok : Bool}
  {c : Cuts n} {p p' : PubState} {lats first second : List ℕ} {r : SizeResult}

theorem recorded_length (cfg : Config) (lats : List ℕ) :
    (recorded cfg lats).length = min cfg.latencyHistorySize lats.length := by
  rw [recorded, List.length_map, List.length_take]

/-- Everything read at once. -/
theorem rankedHistory_self (cfg : Config) (history : Bool) (lats : List ℕ) :
    rankedHistory cfg history lats lats = if history then (recorded cfg lats).mergeSort else [] := by
  have hdrop : (recorded cfg lats).drop lats.length = [] := by
    apply List.drop_eq_nil_of_le
    rw [recorded_length]
    omega
  unfold rankedHistory
  rw [hdrop, List.append_nil]
  by_cases hnil : recorded cfg lats = []
  · simp [hnil]
  · simp [hnil]

/-- A pong behind the sorted part. -/
theorem rankedHistory_record (hle : first.length ≤ second.length) (hne : recorded cfg first ≠ [])
    (hh : history = true) (latency : ℕ) :
    recordHistory cfg latency (rankedHistory cfg history first second) =
      rankedHistory cfg history first (second ++ [latency]) := by
  unfold rankedHistory
  rw [if_pos ⟨hh, hne⟩, if_pos ⟨hh, hne⟩]
  have hlen : ((recorded cfg first).mergeSort ++ (recorded cfg second).drop first.length).length =
      (recorded cfg second).length := by
    rw [List.length_append, List.length_mergeSort, List.length_drop, recorded_length, recorded_length]
    omega
  have hmore : recorded cfg (second ++ [latency]) = recordHistory cfg latency (recorded cfg second) :=
    (recordHistory_take cfg second latency).symm
  rw [hmore]
  unfold recordHistory
  rw [hlen]
  by_cases hroom : (recorded cfg second).length < cfg.latencyHistorySize
  · have hin : first.length ≤ (recorded cfg second).length := by
      rw [recorded_length] at hroom ⊢
      omega
    rw [if_pos hroom, if_pos hroom, List.drop_append_of_le_length hin, List.append_assoc]
  · rw [if_neg hroom, if_neg hroom]

/-! ## What the statements read -/

/-- The average of the counted pongs. -/
theorem PubStats.average (h : PubStats cfg p) :
    (if p.ctx.latCount ≠ 0 then p.ctx.latSumUs / p.ctx.latCount else 0) =
      u64 p.latencies.sum / p.latencies.length := by
  rw [h.sum, h.count]
  split_ifs with hc
  · rfl
  · rw [not_not.mp hc, Nat.div_zero]

/-- Their minimum, and zero without any. -/
theorem PubStats.minimum (h : PubStats cfg p) (hlat : ∀ x ∈ p.latencies, x < noLatency) :
    (if p.ctx.latMinUs = noLatency then 0 else p.ctx.latMinUs) = p.latencies.min?.getD 0 := by
  rw [h.min, foldl_min_eq hlat]
  cases hm : p.latencies.min? with
  | none => rfl
  | some m => exact if_neg (hlat m (List.min?_mem hm)).ne

theorem PubStats.maximum (h : PubStats cfg p) : p.ctx.latMaxUs = p.latencies.max?.getD 0 := by
  rw [h.max, foldl_max_eq]

/-- The history, sorted. -/
theorem PubStats.sorted (h : PubStats cfg p) (hbuf : p.ctx.latHistory.isSome = history) :
    ((p.ctx.latHistory.map List.mergeSort).getD [] : List ℕ) =
      rankedHistory cfg history p.latencies p.latencies ∧
    (p.ctx.noHistory = true ↔ ¬ (history = true ∧ recorded cfg p.latencies ≠ [])) := by
  rw [rankedHistory_self, ← hbuf]
  unfold PubCtx.noHistory
  cases hh : p.ctx.latHistory with
  | none => exact ⟨rfl, by simp⟩
  | some v =>
    have hperm : v.Perm (recorded cfg p.latencies) := h.history v hh
    refine ⟨?_, ?_⟩
    · simpa using mergeSort_congr hperm
    · rw [Option.getD_some, List.isEmpty_iff]
      constructor
      · rintro rfl ⟨-, hne⟩
        exact hne (List.nil_perm.mp hperm)
      · intro hno
        by_contra hv
        exact hno ⟨rfl, fun hnil => hv (List.perm_nil.mp (hnil ▸ hperm))⟩

/-! ## One statement, one pong -/

/-- Before the result is filled. -/
theorem Filling.idle (hlen : n = p.latencies.length) (hbuf : p.ctx.latHistory.isSome = history)
    (hpc : p.pc.filled = 0) : Filling cfg history c p := by
  refine ⟨hlen, hbuf, ?_, fun h => ?_, fun sum h => ?_⟩
  · rw [hpc]
    exact ⟨by omega, by omega, by omega, by omega, by omega⟩
  · rw [h] at hpc
    cases hpc
  · rw [h] at hpc
    cases hpc

/-- What leaves the statistics and the result alone. -/
theorem Filling.still (h : Filling cfg history c p) (hrec : p'.records = p.records)
    (hhist : p'.ctx.latHistory = p.ctx.latHistory) (htmp : p'.tmp = p.tmp)
    (hfilled : p'.pc.filled = p.pc.filled) (hpc : ∀ f, p'.pc = .finish f → p.pc = .finish f) :
    Filling cfg history c p' := by
  have hl : p'.latencies = p.latencies := by
    unfold PubState.latencies
    rw [hrec]
  refine ⟨h.length.trans (congrArg List.length hl.symm), by rw [hhist]; exact h.buffer, ?_, fun hp => ?_,
    fun sum hp => ?_⟩
  · rw [hl, hfilled, htmp]
    exact h.filled
  · rw [hl, hhist]
    exact h.ranking (hpc _ hp)
  · rw [hl]
    exact h.sum sum (hpc _ hp)

/-- A pong is counted. -/
theorem Filling.pong (h : Filling cfg history c p) {x : PerftestSample} (hx : x.isData = true) :
    Filling cfg history (c.weaken (Nat.le_succ n)) (p.pong cfg now x) := by
  have hl : (p.pong cfg now x).latencies = p.latencies ++ [pongLatency now x.timestampUs] := by
    rw [latencies_pong, if_pos hx]
  have hctx : (p.pong cfg now x).ctx.latHistory =
      p.ctx.latHistory.map (recordHistory cfg (pongLatency now x.timestampUs)) := by
    change (pubOnPongSample cfg now x p.ctx).latHistory = _
    rw [pubOnPongSample_data cfg now hx]
    rfl
  have hcut : ∀ i ≤ n, (p.pong cfg now x).latencies.take i = p.latencies.take i := by
    intro i hi
    rw [hl, List.take_append_of_le_length (by rw [← h.length]; exact hi)]
  have hord := c.ordered
  refine ⟨?_, ?_, ?_, fun hpc => ?_, fun sum hpc => ?_⟩
  · rw [hl, List.length_append, ← h.length]
    rfl
  · rw [hctx, Option.isSome_map]
    exact h.buffer
  · obtain ⟨h1, h2, h3, h4, h5⟩ := h.filled
    refine ⟨fun hk v hv => h1 hk v ?_, h2, fun hk => ?_, fun hk => ?_, fun hk => ?_⟩
    · rw [hv]
      change rankedHistory cfg history ((p.pong cfg now x).latencies.take c.sorted)
        ((p.pong cfg now x).latencies.take c.ranked) = _
      rw [hcut _ (by omega), hcut _ (by omega)]
    · change p.tmp.avgLatencyUs = u64 ((p.pong cfg now x).latencies.take c.summed).sum / c.divided
      rw [hcut _ (by omega)]
      exact h3 hk
    · change p.tmp.minLatencyUs = ((p.pong cfg now x).latencies.take c.minimum).min?.getD 0
      rw [hcut _ (by omega)]
      exact h4 hk
    · change p.tmp.maxLatencyUs = ((p.pong cfg now x).latencies.take c.maximum).max?.getD 0
      rw [hcut _ (by omega)]
      exact h5 hk
  · obtain ⟨hne, hrank⟩ := h.ranking hpc
    change recorded cfg ((p.pong cfg now x).latencies.take c.sorted) ≠ [] ∧
      (p.pong cfg now x).ctx.latHistory.getD [] =
        rankedHistory cfg history ((p.pong cfg now x).latencies.take c.sorted) (p.pong cfg now x).latencies
    rw [hcut _ (by omega), hctx, hl]
    refine ⟨hne, ?_⟩
    cases hh : p.ctx.latHistory with
    | none =>
      rw [hh, Option.getD_none] at hrank
      have hbuf := h.buffer
      rw [hh] at hbuf
      rw [← hbuf]
      simp [rankedHistory]
    | some v =>
      have hbuf := h.buffer
      rw [hh] at hrank hbuf
      rw [Option.getD_some] at hrank
      rw [Option.map_some, Option.getD_some, hrank]
      exact rankedHistory_record (List.length_take_le' _ _) hne hbuf.symm _
  · change sum = u64 ((p.pong cfg now x).latencies.take c.summed).sum
    rw [hcut _ (by omega)]
    exact h.sum sum hpc

/-! ### What is known after a statement -/

section Stages

variable {k : ℕ}

theorem Filled.none (hk : k ≤ 1) : Filled cfg history lats c k r :=
  ⟨by omega, by omega, by omega, by omega, by omega⟩

theorem Filled.ranked (hk : k ≤ 3) (hp : Ranked cfg history lats c r) : Filled cfg history lats c k r :=
  ⟨fun _ => hp, by omega, by omega, by omega, by omega⟩

theorem Filled.counted (hk : k ≤ 5) (hp : Ranked cfg history lats c r)
    (hr : r.latencySamplesReceived = c.received) : Filled cfg history lats c k r :=
  ⟨fun _ => hp, fun _ => hr, by omega, by omega, by omega⟩

theorem Filled.averaged (hk : k ≤ 6) (hp : Ranked cfg history lats c r)
    (hr : r.latencySamplesReceived = c.received)
    (ha : r.avgLatencyUs = u64 (lats.take c.summed).sum / c.divided) : Filled cfg history lats c k r :=
  ⟨fun _ => hp, fun _ => hr, fun _ => ha, by omega, by omega⟩

/-- Where nothing has been read for the next column. -/
theorem Filling.of_filled (hlen : n = p.latencies.length) (hbuf : p.ctx.latHistory.isSome = history)
    (hfilled : Filled cfg history p.latencies c p.pc.filled p.tmp) (hrank : p.pc ≠ .finish .percentiles)
    (hsum : ∀ sum, p.pc ≠ .finish (.average sum)) : Filling cfg history c p :=
  ⟨hlen, hbuf, hfilled, fun h => absurd h hrank, fun sum h => absurd h (hsum sum)⟩

end Stages

/-- **A statement fills its columns** from the pongs counted so far. -/
theorem Filling.finish {f : FinishPc} (h : Filling cfg history c p) (hstats : PubStats cfg p)
    (hlat : ∀ x ∈ p.latencies, x < noLatency) (hpc : p.pc = .finish f)
    (hpc' : p'.pc = (f.next p.ctx).elim .report .finish) (hrec : p'.records = p.records)
    (hhist : p'.ctx.latHistory = f.sorted p.ctx.latHistory) (htmp : p'.tmp = f.assign args now p) :
    Filling cfg history (c.mark f.index) p' := by
  have hl : p'.latencies = p.latencies := by
    unfold PubState.latencies
    rw [hrec]
  have hall : p.latencies.take n = p.latencies := List.take_of_length_le h.length.ge
  have hlen : n = p'.latencies.length := h.length.trans (congrArg List.length hl.symm)
  have hbuf : p'.ctx.latHistory.isSome = history := by
    rw [hhist, FinishPc.isSome_sorted]
    exact h.buffer
  obtain ⟨h1, h2, h3, h4, h5⟩ := h.filled
  rw [hpc] at h1 h2 h3 h4 h5
  cases f with
  | sort =>
    obtain ⟨hsorted, hno⟩ := hstats.sorted h.buffer
    by_cases hnone : p.ctx.noHistory = true
    · have hnext : p'.pc = .finish .elapsed := by rw [hpc', FinishPc.next, if_pos hnone]; rfl
      refine .of_filled hlen hbuf ?_ (by simp [hnext]) (by simp [hnext])
      rw [hnext, htmp, hl, FinishPc.assign, if_pos hnone]
      refine .ranked (by decide) fun v hv => ?_
      have hv' : v = [] := by
        rw [hv]
        change rankedHistory cfg history (p.latencies.take n) (p.latencies.take n) = []
        rw [hall]
        exact if_neg (hno.mp hnone)
      rw [hv']
      exact ⟨rfl, rfl, rfl⟩
    · have hnext : p'.pc = .finish .percentiles := by rw [hpc', FinishPc.next, if_neg hnone]; rfl
      refine ⟨hlen, hbuf, ?_, fun _ => ?_, by simp [hnext]⟩
      · rw [hnext]
        exact .none (by decide)
      · rw [hl]
        change recorded cfg (p.latencies.take n) ≠ [] ∧
          p'.ctx.latHistory.getD [] = rankedHistory cfg history (p.latencies.take n) p.latencies
        rw [hall, hhist]
        exact ⟨(not_not.mp (mt hno.mpr hnone)).2, hsorted⟩
  | percentiles =>
    have hnext : p'.pc = .finish .elapsed := hpc'
    refine .of_filled hlen hbuf ?_ (by simp [hnext]) (by simp [hnext])
    rw [hnext, htmp, hl]
    refine .ranked (by decide) fun v hv => ?_
    have hv' : v = p.ctx.latHistory.getD [] := by
      rw [hv, (h.ranking hpc).2]
      change rankedHistory cfg history (p.latencies.take c.sorted) (p.latencies.take n) = _
      rw [hall]
    rw [hv']
    exact ⟨rfl, rfl, rfl⟩
  | elapsed =>
    have hnext : p'.pc = .finish .received := hpc'
    refine .of_filled hlen hbuf ?_ (by simp [hnext]) (by simp [hnext])
    rw [hnext, htmp, hl]
    exact .ranked (by decide) (h1 (by decide))
  | received =>
    have hnext : p'.pc = .finish .count := hpc'
    refine .of_filled hlen hbuf ?_ (by simp [hnext]) (by simp [hnext])
    rw [hnext, htmp, hl]
    exact .counted (by decide) (h1 (by decide)) (hstats.count.trans h.length.symm)
  | count =>
    by_cases hcount : p.ctx.latCount ≠ 0
    · have hnext : p'.pc = .finish (.average p.ctx.latSumUs) := by
        rw [hpc', FinishPc.next, if_pos hcount]
        rfl
      refine ⟨hlen, hbuf, ?_, by simp [hnext], fun sum hr => ?_⟩
      · rw [hnext, htmp, hl, FinishPc.assign, if_pos hcount]
        exact .counted (Nat.le_refl 5) (h1 (by decide)) (h2 (by decide))
      · rw [hnext] at hr
        cases hr
        rw [hl]
        change p.ctx.latSumUs = u64 (p.latencies.take n).sum
        rw [hall]
        exact hstats.sum
    · have hnext : p'.pc = .finish .minimum := by rw [hpc', FinishPc.next, if_neg hcount]; rfl
      refine .of_filled hlen hbuf ?_ (by simp [hnext]) (by simp [hnext])
      rw [hnext, htmp, hl, FinishPc.assign, if_neg hcount]
      refine .averaged (by decide) (h1 (by decide)) (h2 (by decide)) ?_
      change 0 = u64 (p.latencies.take n).sum / n
      have havg := hstats.average
      rw [if_neg hcount] at havg
      rw [hall, havg, h.length]
  | average sum =>
    have hnext : p'.pc = .finish .minimum := hpc'
    refine .of_filled hlen hbuf ?_ (by simp [hnext]) (by simp [hnext])
    rw [hnext, htmp, hl]
    refine .averaged (by decide) (h1 (Nat.le_add_left 2 3)) (h2 (Nat.le_add_left 4 1)) ?_
    change sum / p.ctx.latCount = u64 (p.latencies.take c.summed).sum / n
    rw [h.sum sum hpc, show p.ctx.latCount = n from hstats.count.trans h.length.symm]
  | minimum =>
    have hnext : p'.pc = .finish .maximum := hpc'
    refine .of_filled hlen hbuf ?_ (by simp [hnext]) (by simp [hnext])
    rw [hnext, htmp, hl]
    refine ⟨fun _ => h1 (by decide), fun _ => h2 (by decide), fun _ => h3 (by decide), fun _ => ?_,
      fun hk => absurd hk (by decide)⟩
    change (if p.ctx.latMinUs = noLatency then 0 else p.ctx.latMinUs) = (p.latencies.take n).min?.getD 0
    rw [hall]
    exact hstats.minimum hlat
  | maximum =>
    have hnext : p'.pc = .report := hpc'
    refine .of_filled hlen hbuf ?_ (by simp [hnext]) (by simp [hnext])
    rw [hnext, htmp, hl]
    refine ⟨fun _ => h1 (by decide), fun _ => h2 (by decide), fun _ => h3 (by decide), fun _ => h4 (by decide),
      fun _ => ?_⟩
    change p.ctx.latMaxUs = (p.latencies.take n).max?.getD 0
    rw [hall]
    exact hstats.maximum

/-- The reading that a statement makes; behind the last there is none. -/
def PubPc.reading : PubPc → ℕ
  | .finish f => f.index
  | _ => 8

/-- **Every statement but the reset** keeps the columns there are. -/
theorem filling_main (h : Filling cfg history c p) (hstats : PubStats cfg p)
    (hlat : ∀ x ∈ p.latencies, x < noLatency) (hreset : p.pc ≠ .reset) (hs : PubMain T cfg args now ok p p') :
    Filling cfg history (c.mark p.pc.reading) p' := by
  cases hs with
  | reset hpc => exact absurd hpc hreset
  | warmup hpc | burst _ hpc _ | burstEnd _ hpc _ | settle hpc | begin hpc | again hpc _ | leave hpc _
  | prepare hpc | writeWait hpc _ _ _ | writeOn hpc _ | taken _ hpc _ _ | expired _ hpc _ _ _ | sleep hpc
  | tick hpc _ | tickLine hpc _ _ | line _ _ hpc _ | lineEnd _ hpc _ =>
    exact .idle h.length h.buffer rfl
  | finish f f' hpc hf =>
    rw [hpc]
    exact h.finish hstats hlat hpc (by rw [hf]; rfl) rfl rfl rfl
  | finishEnd f hpc hf =>
    rw [hpc]
    exact h.finish hstats hlat hpc (by rw [hf]; rfl) rfl rfl rfl
  | report hpc | final _ hpc _ _ | finalEnd _ hpc _ | finalSleep _ hpc | shutdown hpc =>
    rw [hpc]
    exact h.still rfl rfl rfl (by rw [hpc]; rfl) (by simp)

/-- A callback that counts nothing. -/
theorem Filling.callback (h : Filling cfg history c p) {ctx : PubCtx}
    (hhist : ctx.latHistory = p.ctx.latHistory) :
    Filling cfg history c { p with ctx := ctx } :=
  h.still rfl hhist rfl rfl fun _ hf => hf

theorem PubPc.filled_of_measured {pc : PubPc} (hm : pc.measured = true) : pc.filled = 8 := by
  revert hm
  cases pc with
  | finish f => simp [PubPc.measured, PubPc.phase]
  | _ => simp [PubPc.filled]

/-- **The result**, once it is filled. -/
theorem Filling.replayed_eq (h : Filling cfg history c p) (hm : p.pc.measured = true) :
    p.tmp = replayed cfg history p.latencies c p.tmp := by
  have hk : p.pc.filled = 8 := PubPc.filled_of_measured hm
  obtain ⟨h1, h2, h3, h4, h5⟩ := h.filled
  rw [hk] at h1 h2 h3 h4 h5
  obtain ⟨h50, h90, h99⟩ := h1 (by decide) _ rfl
  unfold replayed
  rw [← h2 (by decide), ← h3 (by decide), ← h4 (by decide), ← h5 (by decide)]
  dsimp only
  rw [← h50, ← h90, ← h99]

end

end PerftestLite
