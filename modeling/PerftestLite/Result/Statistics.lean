import PerftestLite.Core.Throughput
import PerftestLite.Result.Filling
import Mathlib.Algebra.Group.Action.Defs
import Mathlib.Algebra.Order.BigOperators.Group.List
import Mathlib.Algebra.Order.Ring.Nat

/-!
# Latency statistics

From the reset on the accumulators follow the latencies one by one, whatever the main thread does in
between: a sum in 64 bits, a minimum that starts at a sentinel, a history that saturates and stops when
it is full. The result divides and looks up; the bounds between its fields come from the latencies.

* `Accumulated`, `accumulated_run`: the accumulators after any pongs, by induction on the run;
* `Exact`, `Consistent`: the accumulators in terms of the latencies, and the result;
* `statistics_exact`: both, as long as the sum fits.
-/

set_option autoImplicit false

namespace PerftestLite

open Word Machine OrderStat

/-- The pongs delivered, with the clock readings. -/
def pongsOf (es : List (ℕ × PubAction)) : List (ℕ × PerftestSample) :=
  es.filterMap fun e => match e.2 with
    | .pong x => some (e.1, x)
    | _ => none

/-- The latencies of the data samples among pongs. -/
def latenciesOf (ps : List (ℕ × PerftestSample)) : List ℕ :=
  (ps.filter fun e => e.2.isData).map fun e => pongLatency e.1 e.2.timestampUs

/-- From the reset to the end of the loop. -/
def PubPc.counting : PubPc → Bool
  | .begin | .loop | .prepare | .write | .wait _ | .sleep | .tick | .line _ | .finish .sort => true
  | _ => false

/-- Behind the reset. -/
def PubPc.past : PubPc → Bool
  | .warmup | .burst _ | .settle | .reset => false
  | _ => true

/-- The accumulators follow the latencies; until it is sorted the history keeps their order. -/
structure Accumulated (cfg : Config) (lats : List ℕ) (p : PubState) : Prop where
  past : p.pc.past = true
  latencies : p.latencies = lats
  stats : PubStats cfg p
  history : p.pc.counting = true → p.ctx.latHistory = some (recorded cfg lats)

variable {T : TypeInterface} {cfg : Config} {args : InputArgs} {now : ℕ} {lats : List ℕ}
  {s s' p q : PubState}

/-! ## The accumulators -/

theorem latenciesOf_append (ps qs : List (ℕ × PerftestSample)) :
    latenciesOf (ps ++ qs) = latenciesOf ps ++ latenciesOf qs := by
  unfold latenciesOf
  rw [List.filter_append, List.map_append]

theorem latenciesOf_singleton (now : ℕ) (x : PerftestSample) :
    latenciesOf [(now, x)] = if x.isData then [pongLatency now x.timestampUs] else [] := by
  unfold latenciesOf
  split_ifs with hx <;> simp [hx]

theorem pongsOf_append (es fs : List (ℕ × PubAction)) : pongsOf (es ++ fs) = pongsOf es ++ pongsOf fs :=
  List.filterMap_append

/-- One pong more, of any kind. -/
theorem Accumulated.pong (h : Accumulated cfg lats p) (now : ℕ) (x : PerftestSample) :
    Accumulated cfg (lats ++ latenciesOf [(now, x)]) (p.pong cfg now x) := by
  have hl := latencies_pong cfg now x p
  refine ⟨h.past, ?_, pubStats_pong h.stats x, fun hc => ?_⟩
  · rw [hl, latenciesOf_singleton, ← h.latencies]
    split_ifs <;> simp
  · have hhist := h.history hc
    rw [latenciesOf_singleton]
    change (pubOnPongSample cfg now x p.ctx).latHistory = _
    by_cases hx : x.isData = true
    · rw [pubOnPongSample_data cfg now hx, if_pos hx]
      change p.ctx.latHistory.map (recordHistory cfg (pongLatency now x.timestampUs)) = _
      rw [hhist, Option.map_some]
      exact congrArg some (recordHistory_take cfg lats _)
    · obtain ⟨b, hb⟩ := pubOnPongSample_other cfg now hx p.ctx
      rw [hb, if_neg hx, List.append_nil]
      exact hhist

/-- The reset block starts from nothing. -/
theorem accumulated_reset (hh : s.ctx.latHistory.isSome = true) :
    Accumulated cfg [] { s with pc := .begin, ctx := resetStats s.ctx, records := [] } := by
  obtain ⟨h, hh⟩ := Option.isSome_iff_exists.mp hh
  refine ⟨rfl, rfl, pubStats_reset cfg s, fun _ => ?_⟩
  change s.ctx.latHistory.map (fun _ => []) = _
  rw [hh, recorded, List.take_nil]
  rfl

/-- No statement behind the reset counts anything, and counting ends for good. -/
theorem Accumulated.main {ok : Bool} (h : Accumulated cfg lats s) (hs : PubMain T cfg args now ok s s') :
    Accumulated cfg lats s' := by
  have hstats : PubStats cfg s' := pubStats_main h.stats hs
  have hpast := h.past
  cases hs with
  | warmup hpc | burst _ hpc _ | burstEnd _ hpc _ | settle hpc | reset hpc =>
    rw [hpc] at hpast
    cases hpast
  | begin hpc | again hpc _ | leave hpc _ | prepare hpc | writeWait hpc _ _ _ | writeOn hpc _ | taken _ hpc _ _
  | expired _ hpc _ _ _ | sleep hpc | tick hpc _ | tickLine hpc _ _ | line _ _ hpc _ | lineEnd _ hpc _ =>
    exact ⟨rfl, h.latencies, hstats, fun _ => h.history (by rw [hpc]; rfl)⟩
  | finish f f' hpc hf =>
    refine ⟨rfl, h.latencies, hstats, fun hc => ?_⟩
    cases f' with
    | sort => cases f <;> simp [FinishPc.next] at hf <;> split_ifs at hf
    | _ => cases hc
  | finishEnd f hpc hf => exact ⟨rfl, h.latencies, hstats, fun hc => by cases hc⟩
  | report hpc | final _ hpc _ _ | finalEnd _ hpc _ | finalSleep _ hpc | shutdown hpc =>
    exact ⟨rfl, h.latencies, hstats, fun hc => by cases hc⟩

/-- **The accumulators after any run from the reset**, the pongs interleaved in any way. -/
theorem accumulated_run {es : List (ℕ × PubAction)} (h : Accumulated cfg lats s)
    (hrun : exec (pubStep T cfg args) s es = some p) :
    Accumulated cfg (lats ++ latenciesOf (pongsOf es)) p := by
  induction es using List.reverseRecOn generalizing p with
  | nil =>
    cases hrun
    rw [show latenciesOf (pongsOf []) = [] from rfl, List.append_nil]
    exact h
  | append_singleton es e ih =>
    obtain ⟨q, hq, he⟩ := exec_snoc.mp hrun
    have hi := ih hq
    obtain ⟨now, act⟩ := e
    rw [pongsOf_append, latenciesOf_append, ← List.append_assoc]
    cases act with
    | main ok =>
      rw [show latenciesOf (pongsOf [(now, PubAction.main ok)]) = [] from rfl, List.append_nil]
      exact hi.main (pubMain_cases he)
    | pong x =>
      simp only [pubStep, Option.ite_none_left_eq_some, Option.some.injEq] at he
      rw [← he.2]
      exact hi.pong now x
    | matched change =>
      simp only [pubStep, Option.ite_none_left_eq_some, Option.some.injEq] at he
      rw [← he.2, show latenciesOf (pongsOf [(now, PubAction.matched change)]) = [] from rfl, List.append_nil]
      refine ⟨hi.past, hi.latencies, hi.stats.matched change, fun hc => ?_⟩
      rw [← hi.history hc]
      unfold pubOnReaderMatched
      split_ifs <;> rfl

/-! ## In terms of the latencies -/

/-- The accumulators are the count, the sum, the minimum and the maximum of the latencies, and the
history their front. -/
structure Exact (cfg : Config) (lats : List ℕ) (c : PubCtx) : Prop where
  count : c.latCount = lats.length
  sum : c.latSumUs = lats.sum
  min : c.latMinUs = lats.min?.getD noLatency
  max : c.latMaxUs = lats.max?.getD 0
  proper : noLatency ∉ lats
  history : c.latHistory = some ((lats.take cfg.latencyHistorySize).map saturated)

/-- What holds between the fields of a result, `n` values being in the history. -/
structure Consistent (n : ℕ) (r : SizeResult) : Prop where
  none : r.latencySamplesReceived = 0 → r.avgLatencyUs = 0 ∧ r.minLatencyUs = 0 ∧ r.maxLatencyUs = 0 ∧
    r.p50LatencyUs = 0 ∧ r.p90LatencyUs = 0 ∧ r.p99LatencyUs = 0
  average : r.latencySamplesReceived ≠ 0 →
    r.minLatencyUs ≤ r.avgLatencyUs ∧ r.avgLatencyUs ≤ r.maxLatencyUs
  place : r.latencySamplesReceived ≠ 0 → ∀ p ∈ [50, 90, 99], u32 (n * p) / 100 < n
  percentile : r.latencySamplesReceived ≠ 0 → ∀ v ∈ [r.p50LatencyUs, r.p90LatencyUs, r.p99LatencyUs],
    min r.minLatencyUs 4294967295 ≤ v ∧ v ≤ r.maxLatencyUs

theorem saturated_le (x : ℕ) : saturated x ≤ x := by
  unfold saturated
  split_ifs <;> omega

theorem min_le_saturated (x : ℕ) : min x 4294967295 ≤ saturated x := by
  unfold saturated
  split_ifs <;> omega

/-- The sum fits and no latency is the sentinel. -/
theorem Accumulated.exact (h : Accumulated cfg lats p) (hc : p.pc.counting = true)
    (hsum : lats.sum < 18446744073709551616) (hlt : ∀ x ∈ lats, x < noLatency) : Exact cfg lats p.ctx := by
  obtain ⟨-, rfl, hstats, hhist⟩ := h
  exact ⟨hstats.count, hstats.sum.trans (u64_of_lt hsum), hstats.min.trans (foldl_min_eq hlt), hstats.maximum,
    fun hm => lt_irrefl noLatency (hlt noLatency hm), hhist hc⟩

/-! ## The result -/

/-- All columns from the same latencies. -/
theorem replayed_all (cfg : Config) (lats : List ℕ) (r : SizeResult) :
    replayed cfg true lats (Cuts.all lats.length) r = { r with
      latencySamplesReceived := lats.length
      avgLatencyUs := u64 lats.sum / lats.length
      minLatencyUs := lats.min?.getD 0
      maxLatencyUs := lats.max?.getD 0
      p50LatencyUs := percentile (recorded cfg lats).mergeSort 50
      p90LatencyUs := percentile (recorded cfg lats).mergeSort 90
      p99LatencyUs := percentile (recorded cfg lats).mergeSort 99 } := by
  unfold replayed Cuts.all
  dsimp only
  rw [List.take_length, rankedHistory_self]
  rfl

/-- Nothing was counted. -/
theorem consistent_empty (cfg : Config) (r : SizeResult) :
    Consistent 0 (replayed cfg true [] (Cuts.all 0) r) := by
  have hnil : (recorded cfg []).mergeSort = [] := by simp [recorded]
  have hall := replayed_all cfg [] r
  rw [hnil] at hall
  change Consistent 0 (replayed cfg true [] (Cuts.all ([] : List ℕ).length) r)
  rw [hall]
  exact ⟨fun _ => ⟨rfl, rfl, rfl, rfl, rfl, rfl⟩, fun h0 => absurd rfl h0, fun h0 => absurd rfl h0,
    fun h0 => absurd rfl h0⟩

variable {m M : ℕ}

/-- The average lies between the extremes. -/
theorem average_between (h0 : lats ≠ []) (hm : ∀ x ∈ lats, m ≤ x) (hM : ∀ x ∈ lats, x ≤ M) :
    m ≤ lats.sum / lats.length ∧ lats.sum / lats.length ≤ M := by
  have hpos : 0 < lats.length := List.length_pos_iff.mpr h0
  have hlow : lats.length * m ≤ lats.sum := by
    rw [← smul_eq_mul]
    exact List.card_nsmul_le_sum lats m hm
  have hhigh : lats.sum ≤ lats.length * M := by
    rw [← smul_eq_mul]
    exact List.sum_le_card_nsmul lats M hM
  constructor
  · rwa [Nat.le_div_iff_mul_le hpos, Nat.mul_comm]
  · exact Nat.div_le_of_le_mul hhigh

/-- A percentile is one of the values of the history. -/
theorem percentile_between (h0 : lats ≠ []) (hH : 1 ≤ cfg.latencyHistorySize) (hm : ∀ x ∈ lats, m ≤ x)
    (hM : ∀ x ∈ lats, x ≤ M) {p : ℕ} (hp : p < 100) :
    let h := (lats.take cfg.latencyHistorySize).map saturated
    u32 (h.length * p) / 100 < h.length ∧
      min m 4294967295 ≤ percentile h.mergeSort p ∧ percentile h.mergeSort p ≤ M := by
  intro h
  have hne : h ≠ [] := by
    intro hnil
    have hlen := congrArg List.length hnil
    rw [List.length_map, List.length_take, List.length_nil] at hlen
    have hpos := List.length_pos_iff.mpr h0
    omega
  refine ⟨(place_le _ p).trans_lt (place_lt (List.length_pos_iff.mpr hne) hp), ?_⟩
  obtain ⟨x, hx, hxp⟩ := List.mem_map.mp (percentile_hasRank hne hp).mem
  have hxl : x ∈ lats := List.mem_of_mem_take hx
  rw [← hxp]
  constructor
  · exact (min_le_min_right _ (hm x hxl)).trans (min_le_saturated x)
  · exact (saturated_le x).trans (hM x hxl)

/-- Something was counted. -/
theorem consistent_some (h0 : lats ≠ []) (hH : 1 ≤ cfg.latencyHistorySize)
    (hsum : lats.sum < 18446744073709551616) (r : SizeResult) :
    Consistent (lats.take cfg.latencyHistorySize).length (replayed cfg true lats (Cuts.all lats.length) r) := by
  obtain ⟨m, hm⟩ : ∃ m, lats.min? = Option.some m :=
    Option.isSome_iff_exists.mp (List.isSome_min?_of_ne_nil h0)
  obtain ⟨M, hM⟩ : ∃ M, lats.max? = Option.some M :=
    Option.isSome_iff_exists.mp (List.isSome_max?_of_ne_nil h0)
  obtain ⟨-, hle⟩ := List.min?_eq_some_iff.mp hm
  obtain ⟨-, hge⟩ := List.max?_eq_some_iff.mp hM
  have hcount : lats.length ≠ 0 := (List.length_pos_iff.mpr h0).ne'
  have hlen : (recorded cfg lats).length = (lats.take cfg.latencyHistorySize).length := List.length_map _
  rw [replayed_all, hm, hM, u64_of_lt hsum]
  refine ⟨fun hz => absurd hz hcount, fun _ => average_between h0 hle hge, fun _ p hp => ?_, fun _ v hv => ?_⟩
  · rw [← hlen]
    have hp100 : p < 100 := by
      simp only [List.mem_cons, List.not_mem_nil, or_false] at hp
      omega
    exact (percentile_between h0 hH hle hge hp100).1
  · have hv' : ∃ p < 100, v = PerftestLite.percentile (recorded cfg lats).mergeSort p := by
      simp only [List.mem_cons, List.not_mem_nil, or_false] at hv
      rcases hv with rfl | rfl | rfl
      · exact ⟨50, by decide, rfl⟩
      · exact ⟨90, by decide, rfl⟩
      · exact ⟨99, by decide, rfl⟩
    obtain ⟨p, hp, rfl⟩ := hv'
    exact (percentile_between h0 hH hle hge hp).2

/-- Where no pong comes after the last one counted, every column is filled from all of them. -/
theorem filling_run {fs : List (ℕ × PubAction)} (h : Accumulated cfg lats p)
    (hbuf : p.ctx.latHistory.isSome = true) (hpc : p.pc.counting = true) (hlt : ∀ x ∈ lats, x < noLatency)
    (hfs : latenciesOf (pongsOf fs) = []) (hrun : exec (pubStep T cfg args) p fs = some q) :
    Accumulated cfg lats q ∧ Filling cfg true (Cuts.all lats.length) q := by
  induction fs using List.reverseRecOn generalizing q with
  | nil =>
    cases hrun
    refine ⟨h, .idle (by rw [h.latencies]) hbuf ?_⟩
    revert hpc
    cases p.pc with
    | finish f => cases f <;> simp [PubPc.counting, PubPc.filled, FinishPc.index]
    | _ => simp [PubPc.counting, PubPc.filled, PubPc.measured, PubPc.phase]
  | append_singleton fs e ih =>
    obtain ⟨q₀, hq, he⟩ := exec_snoc.mp hrun
    rw [pongsOf_append, latenciesOf_append, List.append_eq_nil_iff] at hfs
    obtain ⟨hacc, hfill⟩ := ih hfs.1 hq
    have hacc' : Accumulated cfg (lats ++ latenciesOf (pongsOf [e])) q :=
      accumulated_run hacc (exec_cons.mpr ⟨q, he, rfl⟩)
    rw [hfs.2, List.append_nil] at hacc'
    refine ⟨hacc', ?_⟩
    obtain ⟨now, act⟩ := e
    cases act with
    | main ok =>
      have hreset : q₀.pc ≠ .reset := fun hr => by
        have := hacc.past
        rw [hr] at this
        cases this
      have hmain := filling_main hfill hacc.stats (by rw [hacc.latencies]; exact hlt) hreset (pubMain_cases he)
      rw [Cuts.mark_all] at hmain
      exact hmain
    | pong x =>
      simp only [pubStep, Option.ite_none_left_eq_some, Option.some.injEq] at he
      have hx : x.isData = false := by
        have hone := hfs.2
        change latenciesOf [(now, x)] = [] at hone
        rw [latenciesOf_singleton] at hone
        cases hxd : x.isData with
        | false => rfl
        | true => simp [hxd] at hone
      obtain ⟨b, hb⟩ := pubOnPongSample_other cfg now (by rw [hx]; exact Bool.false_ne_true) q₀.ctx
      rw [← he.2]
      refine hfill.still ?_ ?_ rfl rfl fun _ hf => hf
      · simp [PubState.pong, hx]
      · simp [PubState.pong, hb]
    | matched change =>
      simp only [pubStep, Option.ite_none_left_eq_some, Option.some.injEq] at he
      rw [← he.2]
      refine hfill.callback ?_
      unfold pubOnReaderMatched
      split_ifs <;> rfl

/-- **Latency statistics.** From the reset of any state with a history buffer, under any pongs and any
interleaving with the main thread: as long as their sum fits, the accumulators are those of the
latencies, and the result filled from them, no pong being counted any more, is consistent. -/
theorem statistics_exact {ok : Bool} {es : List (ℕ × PubAction)} (hH : 1 ≤ cfg.latencyHistorySize)
    (hpc : s.pc = .reset) (hhist : s.ctx.latHistory.isSome = true)
    (hreset : pubMain T cfg args now ok s = some s') (hrun : exec (pubStep T cfg args) s' es = some p)
    (hcounting : p.pc.counting = true) (hclock : ∀ e ∈ pongsOf es, e.1 < 18446744073709551616)
    (hsum : (latenciesOf (pongsOf es)).sum < 18446744073709551616) :
    Exact cfg (latenciesOf (pongsOf es)) p.ctx ∧
      ∀ fs q, latenciesOf (pongsOf fs) = [] → exec (pubStep T cfg args) p fs = some q → q.pc.measured = true →
        Consistent ((latenciesOf (pongsOf es)).take cfg.latencyHistorySize).length q.tmp := by
  simp only [pubMain, hpc, Option.some.injEq] at hreset
  have hacc : Accumulated cfg (latenciesOf (pongsOf es)) p := by
    rw [← hreset] at hrun
    exact accumulated_run (accumulated_reset hhist) hrun
  have hlt : ∀ x ∈ latenciesOf (pongsOf es), x < noLatency := by
    intro x hx
    obtain ⟨e, he, rfl⟩ := List.mem_map.mp hx
    exact pongLatency_lt (hclock e (List.mem_filter.mp he).1)
  refine ⟨hacc.exact hcounting hsum hlt, fun fs q hfs hq hm => ?_⟩
  obtain ⟨haccq, hfill⟩ := filling_run hacc (by rw [hacc.history hcounting]; rfl) hcounting hlt hfs hq
  rw [hfill.replayed_eq hm, haccq.latencies]
  by_cases h0 : latenciesOf (pongsOf es) = []
  · rw [h0, List.take_nil]
    exact consistent_empty cfg _
  · exact consistent_some h0 hH hsum _

/-- A build that keeps two latencies. -/
def keepTwo : Config := { defaultConfig with latencyHistorySize := 2 }

/-- The publisher before the reset, its history allocated. -/
def resetNext : PubState := { pubInit sequenceType publisherDefaults true 1 none with pc := .reset }

/-- The publisher after the reset. -/
def resetDone : PubState :=
  (pubMain sequenceType keepTwo publisherDefaults 0 true resetNext).getD resetNext

/-- Three pongs around the start of the loop; the clock is behind the stamp of the last one. -/
def threePongs : List (ℕ × PubAction) :=
  [(1000, .pong ⟨1, .dataPing, 900, ⟨64000, 72⟩⟩), (1100, .main true),
    (1200, .pong ⟨2, .data, 1190, ⟨64000, 72⟩⟩), (1300, .pong ⟨3, .dataPing, 1400, ⟨64000, 72⟩⟩)]

/-- The publisher after them. -/
def threePongsEnd : PubState :=
  (exec (pubStep sequenceType keepTwo publisherDefaults) resetDone threePongs).getD resetDone

theorem statistics_exact_three :
    ∃ fs q, exec (pubStep sequenceType keepTwo publisherDefaults) resetDone threePongs = some threePongsEnd ∧
      exec (pubStep sequenceType keepTwo publisherDefaults) threePongsEnd fs = some q ∧
      q.pc = .report ∧ Exact keepTwo [50, 5, 0] threePongsEnd.ctx ∧ Consistent 2 q.tmp := by
  have hroom : 1 ≤ keepTwo.latencyHistorySize := by decide
  have hreset : pubMain sequenceType keepTwo publisherDefaults 0 true resetNext = some resetDone := rfl
  have hrun : exec (pubStep sequenceType keepTwo publisherDefaults) resetDone threePongs =
      some threePongsEnd := by
    decide +kernel
  have hleave : pubStep sequenceType keepTwo publisherDefaults threePongsEnd (10000002000, .main true) =
      some { threePongsEnd with pc := .finish .sort, checks := threePongsEnd.checks ++ [10000002000] } :=
    pubStep_leave (by decide +kernel) (by decide +kernel)
  obtain ⟨fs, q, hfill, hpc, hmain⟩ : ∃ fs q, exec (pubStep sequenceType keepTwo publisherDefaults)
      { threePongsEnd with pc := .finish .sort, checks := threePongsEnd.checks ++ [10000002000] } fs = some q ∧
      q.pc = .report ∧ ∀ e ∈ fs, e = (10000002000, .main true) :=
    exec_finish sequenceType keepTwo 10000002000 8 rfl (Nat.le_add_left 8 0)
  have hquiet : pongsOf ((10000002000, .main true) :: fs) = [] := by
    refine List.filterMap_eq_nil_iff.mpr fun e he => ?_
    rcases List.mem_cons.mp he with rfl | he
    · rfl
    · rw [hmain e he]
  have h := statistics_exact hroom rfl rfl hreset hrun rfl (by decide +kernel) (by decide +kernel)
  exact ⟨_, q, hrun, exec_cons.mpr ⟨_, hleave, hfill⟩, hpc, h.1,
    h.2 _ q (congrArg latenciesOf hquiet) (exec_cons.mpr ⟨_, hleave, hfill⟩) (by rw [hpc]; rfl)⟩

end PerftestLite
