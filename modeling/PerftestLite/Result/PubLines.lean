import PerftestLite.Core.Throughput
import PerftestLite.Lib.Observer
import PerftestLite.Result.LogFile

/-!
# A line every second, on the other side

While it measures, the publisher prints the statistics of the pongs counted so far. It reads them one by one,
and a pong may be counted between two readings. A log follows the run and remembers, with each line, what had
been counted at each of its readings.

* `pubLine`: the fields of the line; `rangeText_fits`: its last one is not cut off;
* `LineCuts`, `PubLineLog`, `watchPubLines`: the publisher and the log, with a clock that does not go back;
* `Reading`: the line that is being put together; `Behind`: the readings of the result;
* `PubLineInv`, `pubLineInv_step`: the lines against the pongs and the result;
* `pub_lines_lead_to_result`.
-/

set_option autoImplicit false

namespace PerftestLite

open Word Machine Delimited Printf

/-! ## The line -/

/-- `t(s)`, `size(B)`, `totalSamples`, `avgLat(us)` and `min/max(us)`. -/
structure PubLine where
  seconds : ℕ
  sizeBytes : ℤ
  total : ℕ
  avg : ℕ
  range : List Char
  deriving DecidableEq, Repr

/-- `snprintf(range, 32, "%llu/%llu", min, max)`: one of the 32 is for the end of the string. -/
def rangeText (min max : ℕ) : List Char := (decimal min ++ '/' :: decimal max).take 31

/-- Both numbers. -/
def readRange (cs : List Char) : Option (ℕ × ℕ) :=
  match cs.splitOn '/' with
  | [min, max] => do some (← readDecimal min, ← readDecimal max)
  | _ => none

/-- **Fifteen digits each fit.** -/
theorem rangeText_fits {min max : ℕ} (hmin : min < 10 ^ 15) (hmax : max < 10 ^ 15) :
    readRange (rangeText min max) = some (min, max) := by
  have hlength : ∀ {n : ℕ}, n < 10 ^ 15 → (decimal n).length ≤ 15 := fun hn =>
    (Nat.length_toDigits_le_iff (by decide) (by decide)).mpr hn
  have hslash : ∀ n : ℕ, '/' ∉ decimal n := fun n =>
    (plain_decimal n).not_mem rfl (by decide) (by decide)
  have hwhole : rangeText min max = decimal min ++ '/' :: decimal max := by
    apply List.take_of_length_le
    have := hlength hmin
    have := hlength hmax
    rw [List.length_append, List.length_cons]
    omega
  rw [readRange, hwhole, List.splitOn_append_cons_self_of_not_mem (hslash min),
    List.splitOn_eq_singleton (hslash max)]
  simp [readDecimal_decimal]

/-- The line, printed once its last number has been read. -/
def pubLine (args : InputArgs) (now avg mn : ℕ) (s : PubState) : PubLine where
  seconds := u64Sub now s.t0 / 1000000
  sizeBytes := args.datalen
  total := s.total
  avg := avg
  range := rangeText mn s.ctx.latMaxUs

/-! ## The log -/

/-- How many pongs had been counted when the sum was read, when it was divided and when the minimum was read. -/
structure LineCuts where
  summed : ℕ
  divided : ℕ
  minimum : ℕ
  deriving DecidableEq, Repr

/-- The readings are in order, and none is ahead. -/
def LineCuts.Ordered (c : LineCuts) (n : ℕ) : Prop :=
  c.summed ≤ c.divided ∧ c.divided ≤ c.minimum ∧ c.minimum ≤ n

/-- A line, the latencies counted when its last number was read, and the readings of the others. -/
structure Shown where
  time : ℕ
  latencies : List ℕ
  cuts : LineCuts
  total : ℕ
  line : PubLine
  deriving DecidableEq, Repr

/-- The last reading of the clock, the readings of the line that is being put together, and the lines so far. -/
structure PubLineLog where
  clock : ℕ
  cuts : LineCuts
  lines : List Shown
  deriving DecidableEq, Repr

/-- What a statement of a line does to the log; `n` pongs have been counted. -/
def PubLineLog.line (args : InputArgs) (s : PubState) (n : ℕ) (o : PubLineLog) : LinePc → PubLineLog
  | .count _ => { o with cuts := ⟨n, n, n⟩ }
  | .average _ _ => { o with cuts := { o.cuts with divided := n, minimum := n } }
  | .minimum _ _ => { o with cuts := { o.cuts with minimum := n } }
  | .range now avg mn =>
    { o with lines := o.lines ++ [⟨now, s.latencies, o.cuts, s.total, pubLine args now avg mn s⟩] }

/-- What a statement does to the log. -/
def PubLineLog.statement (args : InputArgs) (s : PubState) (o : PubLineLog) : PubLineLog :=
  let n := s.latencies.length
  match s.pc with
  | .line l => o.line args s n l
  | _ => { o with cuts := ⟨n, n, n⟩ }

/-- The clock does not go back, and a second more is still a `uint64_t`. -/
def watchPubLines (args : InputArgs) (s : PubState) (o : PubLineLog) : ℕ × PubAction → Option PubLineLog
  | (now, a) =>
    if o.clock ≤ now ∧ now + 1000000 < 18446744073709551616 then
      some (match a with
        | .main _ => { o.statement args s with clock := now }
        | _ => { o with clock := now })
    else none

/-- The line shows the sum of the latencies counted at one reading over the number of those counted at the next,
then the minimum and the maximum of those counted at two more. -/
structure Shown.Exact (args : InputArgs) (t0 : ℕ) (w : Shown) : Prop where
  ordered : w.cuts.Ordered w.latencies.length
  line : w.line = {
    seconds := (w.time - t0) / 1000000
    sizeBytes := args.datalen
    total := w.total
    avg := u64 (w.latencies.take w.cuts.summed).sum / w.cuts.divided
    range := rangeText ((w.latencies.take w.cuts.minimum).min?.getD 0) (w.latencies.max?.getD 0) }

/-- A second or more later, and none of its readings is before those of the other line. -/
structure Shown.Before (w v : Shown) : Prop where
  time : w.time + 1000000 ≤ v.time
  latencies : w.latencies <+: v.latencies.take v.cuts.summed
  total : w.total ≤ v.total

/-- The result has counted all of it. -/
structure Shown.Within (w : Shown) (r : SizeResult) : Prop where
  total : w.total ≤ r.totalSamples
  count : w.latencies.length ≤ r.latencySamplesReceived
  max : ∀ x ∈ w.latencies, x ≤ r.maxLatencyUs
  min : ∀ x ∈ w.latencies, r.minLatencyUs ≤ x

/-! ## The line that is being put together -/

/-- The reading of the clock that a line shows. -/
def LinePc.now : LinePc → ℕ
  | .count now | .average now _ | .minimum now _ | .range now _ _ => now

/-- What has been read for the line. -/
def LinePc.Value (lats : List ℕ) (c : LineCuts) : LinePc → Prop
  | .count _ => True
  | .average _ sum => sum = u64 (lats.take c.summed).sum
  | .minimum _ avg => avg = u64 (lats.take c.summed).sum / c.divided
  | .range _ avg mn =>
    avg = u64 (lats.take c.summed).sum / c.divided ∧ mn = (lats.take c.minimum).min?.getD 0

/-- The line against the publisher and the lines before it. -/
structure Reading (s : PubState) (o : PubLineLog) (l : LinePc) : Prop where
  started : s.t0 ≤ l.now
  word : l.now < 18446744073709551616
  next : s.tNextPrint = l.now + 1000000
  after : ∀ w ∈ o.lines, w.time + 1000000 ≤ l.now
  behind : ∀ w ∈ o.lines, w.latencies.length ≤ o.cuts.summed
  ordered : o.cuts.Ordered s.latencies.length
  value : l.Value s.latencies o.cuts

/-- The readings of the result are not before those of the lines. -/
def Behind (cfg : Config) (history : Bool) (s : PubState) (lines : List Shown) : Prop :=
  ∃ n, ∃ c : Cuts n, Filling cfg history c s ∧
    (0 < s.pc.filled → ∀ w ∈ lines, w.latencies.length ≤ c.sorted)

/-- The publisher and its log agree. -/
structure PubLineInv (cfg : Config) (args : InputArgs) (history : Bool) (s : PubState) (o : PubLineLog) :
    Prop where
  stats : PubStats cfg s
  behind : Behind cfg history s o.lines
  times : ∀ r ∈ s.records, r.1 ≤ o.clock
  started : s.pc.phase ≠ 0 → s.t0 ≤ o.clock
  idle : s.pc.phase = 0 → o.lines = []
  next : ∀ w ∈ o.lines, w.time + 1000000 ≤ s.tNextPrint
  sofar : ∀ w ∈ o.lines, w.latencies <+: s.latencies ∧ w.total ≤ s.total
  exact : ∀ w ∈ o.lines, w.Exact args s.t0
  spaced : o.lines.Pairwise Shown.Before
  reading : ∀ l, s.pc = .line l → Reading s o l

variable {T : TypeInterface} {cfg : Config} {args : InputArgs} {history : Bool} {s s' : PubState}
  {o o' : PubLineLog} {cuts : LineCuts} {l l' : LinePc} {now : ℕ}

/-- Latencies that were counted before the clock went on. -/
theorem PubLineInv.latencies_le (h : PubLineInv cfg args history s o) : ∀ x ∈ s.latencies, x ≤ o.clock / 2 := by
  intro x hx
  obtain ⟨r, hr, rfl⟩ := List.mem_map.mp hx
  have := h.times r hr
  unfold pongLatency
  split_ifs <;> omega

/-- Pongs that come later change nothing that has been read. -/
theorem LinePc.Value.mono {lats lats' : List ℕ} (h : l.Value lats cuts) (ho : cuts.Ordered lats.length)
    (hpre : lats <+: lats') : l.Value lats' cuts := by
  obtain ⟨rest, rfl⟩ := hpre
  obtain ⟨h1, h2, h3⟩ := ho
  have hsum : (lats ++ rest).take cuts.summed = lats.take cuts.summed :=
    List.take_append_of_le_length (by omega)
  have hmin : (lats ++ rest).take cuts.minimum = lats.take cuts.minimum :=
    List.take_append_of_le_length h3
  cases l with
  | count now => trivial
  | average now sum =>
    unfold LinePc.Value
    rw [hsum]
    exact h
  | minimum now avg =>
    unfold LinePc.Value
    rw [hsum]
    exact h
  | range now avg mn =>
    unfold LinePc.Value
    rw [hsum, hmin]
    exact h

/-- A callback in between. -/
theorem Reading.grow (h : Reading s o l) (ht0 : s'.t0 = s.t0) (hnext : s'.tNextPrint = s.tNextPrint)
    (hpre : s.latencies <+: s'.latencies) : Reading s' { o with clock := now } l := by
  obtain ⟨h1, h2, h3⟩ := h.ordered
  refine ⟨?_, h.word, ?_, h.after, h.behind, ⟨h1, h2, h3.trans hpre.length_le⟩, h.value.mono h.ordered hpre⟩
  · rw [ht0]
    exact h.started
  · rw [hnext]
    exact h.next

/-- **The next reading** of a line. -/
theorem Reading.read (h : Reading s o l) (hstats : PubStats cfg s) (hlat : ∀ x ∈ s.latencies, x < noLatency)
    (hsofar : ∀ w ∈ o.lines, w.latencies <+: s.latencies) (hl : l.next s.ctx = some l') :
    Reading { s with pc := .line l' } { o.line args s s.latencies.length l with clock := now } l' ∧
      (o.line args s s.latencies.length l).lines = o.lines := by
  obtain ⟨h1, h2, h3⟩ := h.ordered
  have hvalue := h.value
  have hall : s.latencies.take s.latencies.length = s.latencies := List.take_length
  have hbehind : ∀ w ∈ o.lines, w.latencies.length ≤ s.latencies.length := fun w hw => (hsofar w hw).length_le
  cases l with
  | count t =>
    simp only [LinePc.next, Option.some.injEq] at hl
    by_cases hcount : s.ctx.latCount ≠ 0
    · rw [if_pos hcount] at hl
      subst hl
      refine ⟨⟨h.started, h.word, h.next, h.after, hbehind, ⟨le_rfl, le_rfl, le_rfl⟩, ?_⟩, rfl⟩
      change s.ctx.latSumUs = u64 (s.latencies.take s.latencies.length).sum
      rw [hall]
      exact hstats.sum
    · rw [if_neg hcount] at hl
      subst hl
      refine ⟨⟨h.started, h.word, h.next, h.after, hbehind, ⟨le_rfl, le_rfl, le_rfl⟩, ?_⟩, rfl⟩
      change 0 = u64 (s.latencies.take s.latencies.length).sum / s.latencies.length
      have havg := hstats.average
      rw [if_neg hcount] at havg
      rw [hall]
      exact havg
  | average t sum =>
    cases hl
    refine ⟨⟨h.started, h.word, h.next, h.after, h.behind, ⟨h1.trans (h2.trans h3), le_rfl, le_rfl⟩, ?_⟩, rfl⟩
    change sum / s.ctx.latCount = u64 (s.latencies.take o.cuts.summed).sum / s.latencies.length
    rw [hstats.count, show sum = u64 (s.latencies.take o.cuts.summed).sum from hvalue]
  | minimum t avg =>
    cases hl
    refine ⟨⟨h.started, h.word, h.next, h.after, h.behind, ⟨h1, h2.trans h3, le_rfl⟩, hvalue, ?_⟩, rfl⟩
    change (if s.ctx.latMinUs = noLatency then 0 else s.ctx.latMinUs) =
      (s.latencies.take s.latencies.length).min?.getD 0
    rw [hall]
    exact hstats.minimum hlat
  | range t avg mn => cases hl

/-- **The line** is exact, and behind the others. -/
theorem Reading.shown (args : InputArgs) {avg mn t : ℕ} (h : Reading s o (.range t avg mn))
    (hstats : PubStats cfg s) (hsofar : ∀ w ∈ o.lines, w.latencies <+: s.latencies ∧ w.total ≤ s.total) :
    Shown.Exact args s.t0 ⟨t, s.latencies, o.cuts, s.total, pubLine args t avg mn s⟩ ∧
      ∀ w ∈ o.lines, w.Before ⟨t, s.latencies, o.cuts, s.total, pubLine args t avg mn s⟩ := by
  obtain ⟨havg, hmn⟩ := h.value
  refine ⟨⟨h.ordered, ?_⟩, fun w hw => ⟨h.after w hw, ?_, (hsofar w hw).2⟩⟩
  · have hsub : u64Sub t s.t0 = t - s.t0 := u64Sub_of_le h.started h.word
    unfold pubLine
    rw [hsub, hstats.maximum, havg, hmn]
  · exact List.prefix_take_iff.mpr ⟨(hsofar w hw).1, h.behind w hw⟩

/-! ## The readings of the result -/

/-- Only the statements of the result, and what follows, come behind a statement of the result. -/
theorem filled_of_main {ok : Bool} (hs : PubMain T cfg args now ok s s') (hk : 0 < s'.pc.filled) :
    s.pc = .finish .sort ∨ (0 < s.pc.reading ∧ 0 < s.pc.filled) := by
  cases hs with
  | finish f f' hpc hf =>
    rw [hpc]
    cases f with
    | sort => exact .inl rfl
    | _ => exact .inr ⟨by simp [PubPc.reading, FinishPc.index], by simp [PubPc.filled, FinishPc.index]⟩
  | finishEnd f hpc hf =>
    rw [hpc, FinishPc.eq_maximum hf]
    exact .inr ⟨by decide, by decide⟩
  | report hpc | final _ hpc _ _ | finalEnd _ hpc _ | finalSleep _ hpc | shutdown hpc =>
    rw [hpc]
    exact .inr ⟨by simp [PubPc.reading], by simp [PubPc.filled, PubPc.measured, PubPc.phase]⟩
  | _ => simp [PubPc.filled, PubPc.measured, PubPc.phase, FinishPc.index] at hk

/-- **A statement**: the first reading of the result is behind all lines. -/
theorem behind_main {ok : Bool} (h : PubLineInv cfg args history s o)
    (hlat : ∀ x ∈ s.latencies, x < noLatency) (hreset : s.pc ≠ .reset) (hs : PubMain T cfg args now ok s s') :
    Behind cfg history s' o.lines := by
  obtain ⟨n, c, hfill, hbehind⟩ := h.behind
  refine ⟨n, _, filling_main hfill h.stats hlat hreset hs, fun hk w hw => ?_⟩
  change w.latencies.length ≤ if 0 < s.pc.reading then c.sorted else n
  rcases filled_of_main hs hk with hsort | ⟨hread, hpos⟩
  · rw [hsort, if_neg (by decide), hfill.length]
    exact (h.sofar w hw).1.length_le
  · rw [if_pos hread]
    exact hbehind hpos w hw

/-- Before the result is filled there is nothing to be behind. -/
theorem Behind.early {lines : List Shown} (h : Behind cfg history s o.lines) (hpc : s.pc.filled = 0) :
    Behind cfg history s lines := by
  obtain ⟨n, c, hfill, -⟩ := h
  exact ⟨n, c, hfill, fun hk => by omega⟩

/-- Nothing is counted before the loop. -/
theorem Behind.idle (hbuf : s.ctx.latHistory.isSome = history) (hpc : s.pc.filled = 0) (lines : List Shown) :
    Behind cfg history s lines :=
  ⟨_, Cuts.all _, .idle rfl hbuf hpc, fun hk => by omega⟩

theorem Behind.buffer {lines : List Shown} (h : Behind cfg history s lines) :
    s.ctx.latHistory.isSome = history := by
  obtain ⟨n, c, hfill, -⟩ := h
  exact hfill.buffer

/-! ## Step by step -/

/-- Nothing is printed before the loop. -/
theorem PubLineInv.quiet (hstats : PubStats cfg s') (hbehind : Behind cfg history s' [])
    (htimes : ∀ r ∈ s'.records, r.1 ≤ now) (hstart : s'.pc.phase ≠ 0 → s'.t0 ≤ now)
    (hpc : ∀ l, s'.pc ≠ .line l) : PubLineInv cfg args history s' ⟨now, cuts, []⟩ :=
  ⟨hstats, hbehind, htimes, hstart, fun _ => rfl, fun w hw => (by cases hw), fun w hw => (by cases hw),
    fun w hw => (by cases hw), .nil, fun l hl => absurd hl (hpc l)⟩

/-- What prints nothing and forgets nothing. -/
theorem PubLineInv.still (h : PubLineInv cfg args history s o) (hstats : PubStats cfg s')
    (hbehind : Behind cfg history s' o.lines) (hclock : o.clock ≤ now)
    (hph : s'.pc.phase = 0 ↔ s.pc.phase = 0) (ht0 : s'.t0 = s.t0) (hnext : s.tNextPrint ≤ s'.tNextPrint)
    (htimes : ∀ r ∈ s'.records, r.1 ≤ now) (hlat : s.latencies <+: s'.latencies) (htotal : s.total ≤ s'.total)
    (hread : ∀ l, s'.pc = .line l → Reading s' ⟨now, cuts, o.lines⟩ l) :
    PubLineInv cfg args history s' ⟨now, cuts, o.lines⟩ := by
  refine ⟨hstats, hbehind, htimes, fun hp => ?_, fun hp => ?_, fun w hw => ?_, fun w hw => ?_,
    fun w hw => ?_, h.spaced, hread⟩
  · rw [ht0]
    exact (h.started (mt hph.mpr hp)).trans hclock
  · exact h.idle (hph.mp hp)
  · exact (h.next w hw).trans hnext
  · exact ⟨(h.sofar w hw).1.trans hlat, (h.sofar w hw).2.trans htotal⟩
  · rw [ht0]
    exact h.exact w hw

/-- **A line begins**, a second or more behind the one before. -/
theorem PubLineInv.begin (h : PubLineInv cfg args history s o) (hpc : s.pc = .tick) (hclock : o.clock ≤ now)
    (hnow : now + 1000000 < 18446744073709551616) (hle : now ≥ s.tNextPrint)
    {s' : PubState} (hs' : s' = { s with pc := .line (.count now), tNextPrint := u64 (now + 1000000) })
    (hstats : PubStats cfg s') (hbehind : Behind cfg history s' o.lines) :
    PubLineInv cfg args history s'
      ⟨now, ⟨s.latencies.length, s.latencies.length, s.latencies.length⟩, o.lines⟩ := by
  have hph : s.pc.phase = 1 := by rw [hpc]; rfl
  have ht0 : s.t0 ≤ now := (h.started (by omega)).trans hclock
  have hword : u64 (now + 1000000) = now + 1000000 := u64_of_lt hnow
  subst hs'
  refine h.still hstats hbehind hclock (by simp [hpc, PubPc.phase]) rfl ?_
    (fun r hr => (h.times r hr).trans hclock) List.prefix_rfl le_rfl fun l hl => ?_
  · change s.tNextPrint ≤ u64 (now + 1000000)
    rw [hword]
    omega
  · cases hl
    exact ⟨ht0, (Nat.lt_of_le_of_lt (Nat.le_add_right _ _) hnow), hword, fun w hw => (h.next w hw).trans hle,
      fun w hw => (h.sofar w hw).1.length_le, ⟨le_rfl, le_rfl, le_rfl⟩, trivial⟩

/-- **The line is printed.** -/
theorem PubLineInv.print (h : PubLineInv cfg args history s o) (hclock : o.clock ≤ now) {t avg mn : ℕ}
    (hpc : s.pc = .line (.range t avg mn)) (hstats : PubStats cfg { s with pc := .loop })
    (hbehind : Behind cfg history { s with pc := .loop } o.lines) :
    PubLineInv cfg args history { s with pc := .loop }
      ⟨now, o.cuts, o.lines ++ [⟨t, s.latencies, o.cuts, s.total, pubLine args t avg mn s⟩]⟩ := by
  have hph : s.pc.phase = 1 := by rw [hpc]; rfl
  have hreading := h.reading _ hpc
  obtain ⟨hexact, hbefore⟩ := hreading.shown args h.stats h.sofar
  refine ⟨hstats, hbehind.early rfl, fun r hr => (h.times r hr).trans hclock,
    fun _ => (h.started (by omega)).trans hclock, fun h0 => (by cases h0), fun w hw => ?_, fun w hw => ?_,
    fun w hw => ?_, ?_, fun l hl => (by cases hl)⟩
  · rcases List.mem_append.mp hw with hw | hw
    · exact h.next w hw
    · rw [List.mem_singleton.mp hw]
      exact hreading.next.ge
  · rcases List.mem_append.mp hw with hw | hw
    · exact h.sofar w hw
    · rw [List.mem_singleton.mp hw]
      exact ⟨List.prefix_rfl, le_rfl⟩
  · rcases List.mem_append.mp hw with hw | hw
    · exact h.exact w hw
    · rw [List.mem_singleton.mp hw]
      exact hexact
  · refine List.pairwise_append.mpr ⟨h.spaced, List.pairwise_singleton _ _, fun w hw v hv => ?_⟩
    rw [List.mem_singleton.mp hv]
    exact hbefore w hw

/-- **A statement.** -/
theorem pubLineInv_main {ok : Bool} (h : PubLineInv cfg args history s o) (hclock : o.clock ≤ now)
    (hnow : now + 1000000 < 18446744073709551616) (hs : PubMain T cfg args now ok s s') :
    PubLineInv cfg args history s' { o.statement args s with clock := now } := by
  have hstats : PubStats cfg s' := pubStats_main h.stats hs
  have htimes : ∀ r ∈ s.records, r.1 ≤ now := fun r hr => (h.times r hr).trans hclock
  have hlat : ∀ x ∈ s.latencies, x < noLatency := by
    intro x hx
    have := h.latencies_le x hx
    unfold noLatency
    omega
  have hother : (∀ l, s.pc ≠ .line l) → ∃ cuts, ({ o.statement args s with clock := now } : PubLineLog) =
      ⟨now, cuts, o.lines⟩ := by
    intro hpc
    unfold PubLineLog.statement
    cases hp : s.pc with
    | line l => exact absurd hp (hpc l)
    | _ => exact ⟨_, rfl⟩
  have hbuf := h.behind.buffer
  by_cases hreset : s.pc = .reset
  · obtain ⟨cuts, hcuts⟩ := hother (by simp [hreset])
    rw [hcuts, h.idle (by rw [hreset]; rfl)]
    cases hs with
    | reset hpc =>
      exact .quiet hstats (.idle (Option.isSome_map.trans hbuf) rfl _) (fun r hr => by cases hr)
        (fun h0 => absurd rfl h0) (by simp)
    | _ => simp_all
  have hbehind : Behind cfg history s' o.lines := behind_main h hlat hreset hs
  cases hs with
  | reset hpc => exact absurd hpc hreset
  | warmup hpc | burst _ hpc _ | burstEnd _ hpc _ | settle hpc =>
    obtain ⟨cuts, hcuts⟩ := hother (by simp [hpc])
    have hnil : o.lines = [] := h.idle (by rw [hpc]; rfl)
    rw [hnil] at hbehind
    rw [hcuts, hnil]
    exact .quiet hstats hbehind htimes (fun h0 => absurd rfl h0) (by simp)
  | begin hpc =>
    obtain ⟨cuts, hcuts⟩ := hother (by simp [hpc])
    have hnil : o.lines = [] := h.idle (by rw [hpc]; rfl)
    rw [hnil] at hbehind
    rw [hcuts, hnil]
    exact .quiet hstats hbehind htimes (fun _ => le_rfl) (by simp)
  | again hpc _ | leave hpc _ | prepare hpc | taken _ hpc _ _ | expired _ hpc _ _ _ | sleep hpc | tick hpc _ =>
    obtain ⟨cuts, hcuts⟩ := hother (by simp [hpc])
    rw [hcuts]
    exact h.still hstats hbehind hclock (by simp [hpc, PubPc.phase]) rfl le_rfl htimes List.prefix_rfl le_rfl
      fun l hl => by cases hl
  | finish _ _ hpc _ | finishEnd _ hpc _ =>
    obtain ⟨cuts, hcuts⟩ := hother (by simp [hpc])
    rw [hcuts]
    exact h.still hstats hbehind hclock (by simp [hpc, PubPc.phase]) rfl le_rfl htimes List.prefix_rfl le_rfl
      fun l hl => by cases hl
  | report hpc | final _ hpc _ _ | finalEnd _ hpc _ | finalSleep _ hpc | shutdown hpc =>
    obtain ⟨cuts, hcuts⟩ := hother (by simp [hpc])
    rw [hcuts]
    exact h.still hstats hbehind hclock (by simp [hpc, PubPc.phase]) rfl le_rfl htimes List.prefix_rfl le_rfl
      fun l hl => by cases hl
  | writeWait hpc _ _ _ =>
    obtain ⟨cuts, hcuts⟩ := hother (by simp [hpc])
    rw [hcuts]
    exact h.still hstats hbehind hclock (by simp [hpc, PubPc.phase]) rfl le_rfl htimes List.prefix_rfl
      (Nat.le_succ _) fun l hl => by cases hl
  | writeOn hpc _ =>
    obtain ⟨cuts, hcuts⟩ := hother (by simp [hpc])
    rw [hcuts]
    refine h.still hstats hbehind hclock (by simp [hpc, PubPc.phase]) rfl le_rfl htimes List.prefix_rfl ?_
      fun l hl => by cases hl
    dsimp only
    split_ifs <;> omega
  | tickLine hpc hprint hle =>
    have hlog : ({ o.statement args s with clock := now } : PubLineLog) =
        ⟨now, ⟨s.latencies.length, s.latencies.length, s.latencies.length⟩, o.lines⟩ := by
      unfold PubLineLog.statement
      rw [hpc]
    rw [hlog]
    exact h.begin hpc hclock hnow hle rfl hstats hbehind
  | line l l' hpc hl =>
    have hlog : o.statement args s = o.line args s s.latencies.length l := by
      unfold PubLineLog.statement
      rw [hpc]
    obtain ⟨hread, hlines⟩ : Reading { s with pc := .line l' }
        { o.line args s s.latencies.length l with clock := now } l' ∧ _ :=
      (h.reading l hpc).read h.stats hlat (fun w hw => (h.sofar w hw).1) hl
    have hnew : ({ o.line args s s.latencies.length l with clock := now } : PubLineLog) =
        ⟨now, (o.line args s s.latencies.length l).cuts, o.lines⟩ := by
      rw [← hlines]
    rw [hlog]
    rw [hnew] at hread ⊢
    refine h.still hstats hbehind hclock (by simp [hpc, PubPc.phase]) rfl le_rfl htimes List.prefix_rfl le_rfl
      fun k hk => ?_
    cases hk
    exact hread
  | lineEnd l hpc hl =>
    obtain ⟨t, avg, mn, rfl⟩ : ∃ t avg mn, l = .range t avg mn := by
      cases l with
      | range t avg mn => exact ⟨t, avg, mn, rfl⟩
      | _ => cases hl
    have hlog : o.statement args s = o.line args s s.latencies.length (.range t avg mn) := by
      unfold PubLineLog.statement
      rw [hpc]
    rw [hlog]
    exact h.print hclock hpc hstats hbehind

/-- **A callback**, which may count a pong. -/
theorem PubLineInv.callback (h : PubLineInv cfg args history s o) (hclock : o.clock ≤ now)
    (hstats : PubStats cfg s') (hbehind : Behind cfg history s' o.lines) (hpc : s'.pc = s.pc)
    (ht0 : s'.t0 = s.t0) (hnext : s'.tNextPrint = s.tNextPrint) (htotal : s'.total = s.total)
    (htimes : ∀ r ∈ s'.records, r.1 ≤ now) (hlat : s.latencies <+: s'.latencies) :
    PubLineInv cfg args history s' { o with clock := now } := by
  refine h.still hstats hbehind hclock (by rw [hpc]) ht0 hnext.ge htimes hlat htotal.ge fun l hl => ?_
  exact (h.reading l (hpc.symm.trans hl)).grow ht0 hnext hlat

/-- **One step**, the callbacks included. -/
theorem pubLineInv_step {e : ℕ × PubAction} (h : PubLineInv cfg args history s o)
    (hs : observed (pubStep T cfg args) (watchPubLines args) (s, o) e = some (s', o')) :
    PubLineInv cfg args history s' o' := by
  obtain ⟨now, act⟩ := e
  obtain ⟨hp, hw⟩ := observed_eq_some.mp hs
  unfold watchPubLines at hw
  rw [Option.ite_none_right_eq_some] at hw
  obtain ⟨⟨hclock, hnow⟩, hw⟩ := hw
  cases hw
  have hstats : PubStats cfg s' := pubStats_step h.stats hp
  have htimes : ∀ r ∈ s.records, r.1 ≤ now := fun r hr => (h.times r hr).trans hclock
  obtain ⟨n, c, hfill, hbehind⟩ := h.behind
  cases act with
  | main ok => exact pubLineInv_main h hclock hnow (pubMain_cases hp)
  | pong x =>
    simp only [pubStep, Option.ite_none_left_eq_some, Option.some.injEq] at hp
    obtain ⟨-, rfl⟩ := hp
    have hlat := latencies_pong cfg now x s
    by_cases hx : x.isData = true
    · refine h.callback hclock hstats ⟨_, _, hfill.pong hx, hbehind⟩ rfl rfl rfl rfl (fun r hr => ?_) ?_
      · unfold PubState.pong at hr
        rw [if_pos hx] at hr
        rcases List.mem_append.mp hr with hr | hr
        · exact htimes r hr
        · rw [List.mem_singleton.mp hr]
      · rw [hlat, if_pos hx]
        exact List.prefix_append _ _
    · obtain ⟨b, hb⟩ := pubOnPongSample_other cfg now hx s.ctx
      have hrec : (s.pong cfg now x).records = s.records := if_neg hx
      refine h.callback hclock hstats ⟨n, c, hfill.still hrec ?_ rfl rfl fun _ hf => hf, hbehind⟩ rfl rfl rfl
        rfl (hrec ▸ htimes) ?_
      · change (pubOnPongSample cfg now x s.ctx).latHistory = _
        rw [hb]
      · rw [hlat, if_neg hx]
  | matched change =>
    simp only [pubStep, Option.ite_none_left_eq_some, Option.some.injEq] at hp
    obtain ⟨-, rfl⟩ := hp
    have hhist : (pubOnReaderMatched change s.ctx).latHistory = s.ctx.latHistory := by
      unfold pubOnReaderMatched
      split_ifs <;> rfl
    exact h.callback hclock hstats ⟨n, c, hfill.callback hhist, hbehind⟩ rfl rfl rfl rfl htimes List.prefix_rfl

theorem pubLineInv_init (T : TypeInterface) (cfg : Config) (args : InputArgs) (history : Bool)
    (matchedPubs : ℤ) (results : Option Results) (clock : ℕ) (cuts : LineCuts) :
    PubLineInv cfg args history (pubInit T args history matchedPubs results) ⟨clock, cuts, []⟩ :=
  .quiet (pubStats_init _ _ _ _ _) (.idle (by cases history <;> rfl) rfl _) (fun r hr => by cases hr)
    (fun h0 => absurd rfl h0) fun l hl => by cases hl

/-- A range that is not cut off. -/
theorem PubLineInv.readRange (h : PubLineInv cfg args history s o) (hclock : o.clock < 2 * 10 ^ 15) {w : Shown}
    (hw : w ∈ o.lines) :
    PerftestLite.readRange w.line.range =
      some ((w.latencies.take w.cuts.minimum).min?.getD 0, w.latencies.max?.getD 0) := by
  have hlt : ∀ x ∈ w.latencies, x < 10 ^ 15 := by
    intro x hx
    have := h.latencies_le x ((h.sofar w hw).1.subset hx)
    omega
  have hline : w.line.range = rangeText _ _ := congrArg PubLine.range (h.exact w hw).line
  rw [hline]
  apply rangeText_fits
  · cases hm : (w.latencies.take w.cuts.minimum).min? with
    | none => decide
    | some m => exact hlt m (List.mem_of_mem_take (List.min?_mem hm))
  · cases hm : w.latencies.max? with
    | none => decide
    | some m => exact hlt m (List.max?_mem hm)

/-- The result is filled from all that the lines have shown. -/
theorem PubLineInv.within (h : PubLineInv cfg args history s o) (hm : s.pc.measured = true)
    (htotal : s.tmp.totalSamples = s.total) : ∀ w ∈ o.lines, w.Within s.tmp := by
  intro w hw
  obtain ⟨hpre, hle⟩ := h.sofar w hw
  obtain ⟨n, c, hfill, hbehind⟩ := h.behind
  have hsorted := hbehind (by rw [PubPc.filled_of_measured hm]; decide) w hw
  have hord := c.ordered
  have hpart : ∀ k, c.sorted ≤ k → w.latencies <+: s.latencies.take k := fun k hk =>
    List.prefix_take_iff.mpr ⟨hpre, hsorted.trans hk⟩
  obtain ⟨-, h2, -, h4, h5⟩ := hfill.filled
  rw [PubPc.filled_of_measured hm] at h2 h4 h5
  refine ⟨htotal ▸ hle, ?_, fun x hx => ?_, fun x hx => ?_⟩
  · rw [h2 (by decide)]
    omega
  · rw [h5 (by decide)]
    exact List.le_max?_getD_of_mem ((hpart c.maximum (by omega)).subset hx)
  · rw [h4 (by decide)]
    exact List.min?_getD_le_of_mem ((hpart c.minimum (by omega)).subset hx)

/-- **The lines against the result.** In every run with a clock that does not go back, pongs coming whenever
they like: each number of a line is that of the pongs counted at its own reading, and the readings of a line are
in order; lines are a second apart, and no reading of a line is before one of the line before; the result has
counted all that the lines have shown; and within the first sixty years of the clock no line has its minimum
and maximum cut off. -/
theorem pub_lines_lead_to_result {matchedPubs : ℤ} {results : Option Results} {clock : ℕ}
    {es : List (ℕ × PubAction)}
    (hrun : exec (observed (pubStep T cfg args) (watchPubLines args))
      (pubInit T args history matchedPubs results, ⟨clock, ⟨0, 0, 0⟩, []⟩) es = some (s, o)) :
    (∀ w ∈ o.lines, w.Exact args s.t0 ∧ w.latencies <+: s.latencies ∧ w.total ≤ s.total) ∧
      o.lines.Pairwise Shown.Before ∧
      (s.pc.measured = true → ∀ w ∈ o.lines, w.Within s.tmp) ∧
      (o.clock < 2 * 10 ^ 15 → ∀ w ∈ o.lines, readRange w.line.range =
        some ((w.latencies.take w.cuts.minimum).min?.getD 0, w.latencies.max?.getD 0)) := by
  have h := exec_invariant (I := fun x => PubLineInv cfg args history x.1 x.2)
    (fun _ _ _ => pubLineInv_step) hrun
    (pubLineInv_init T cfg args history matchedPubs results clock ⟨0, 0, 0⟩)
  have hfinal := (pubInv_exec (exec_observed_fst hrun)).final
  exact ⟨fun w hw => ⟨h.exact w hw, h.sofar w hw⟩, h.spaced, fun hm =>
    h.within hm (hfinal.lastSeq (PubPc.tallied_of_measured hm)).2, fun hclock _ => h.readRange hclock⟩

/-- Three seconds with a line for each. -/
def printingArgs : InputArgs := { publisherDefaults with execSeconds := 3, printEverySecond := true }

/-- A pong after `rtt` microseconds. -/
def pongAt (now seq rtt : ℕ) : ℕ × PubAction := (now, .pong ⟨seq, .dataPing, now - rtt, ⟨64000, 72⟩⟩)

/-- A turn of the loop each second, a pong after the first and one between the sum of the second line and its
count. -/
def printingRun : List (ℕ × PubAction) :=
  [List.replicate (defaultConfig.initBurst + 5) (1000000, .main true), iteration (2000000, true),
    List.replicate 3 (2000000, .main true), [pongAt 2500000 1 100000], iteration (3000000, true),
    [(3000000, .main true), pongAt 3000010 2 200000], List.replicate 3 (3000010, .main true),
    List.replicate 9 (4000000, .main true)].flatten

/-- The publisher and its log at the start. -/
def printingStart : PubState × PubLineLog :=
  (pubInit sequenceType printingArgs false 1 none, ⟨1000000, ⟨0, 0, 0⟩, []⟩)

/-- After `printingRun`. -/
def printingEnd : PubState × PubLineLog :=
  (exec (observed (pubStep sequenceType defaultConfig printingArgs) (watchPubLines printingArgs)) printingStart
    printingRun).getD printingStart

/-- The lines of the two turns. -/
def firstLine : Shown := ⟨2000000, [], ⟨0, 0, 0⟩, 1, ⟨1, 100, 1, 0, "0/0".toList⟩⟩

/-- Its average is that of no set of pongs. -/
def secondLine : Shown := ⟨3000000, [50000, 100000], ⟨1, 2, 2⟩, 2, ⟨2, 100, 2, 25000, "50000/100000".toList⟩⟩

theorem pub_lines_lead_to_result_three : printingEnd.2.lines = [firstLine, secondLine] ∧
    firstLine.Before secondLine ∧ (∀ w ∈ [firstLine, secondLine], w.Within printingEnd.1.tmp) ∧
    readRange secondLine.line.range = some (50000, 100000) := by
  have hrun : exec (observed (pubStep sequenceType defaultConfig printingArgs) (watchPubLines printingArgs))
      printingStart printingRun = some (printingEnd.1, printingEnd.2) := by
    decide +kernel
  have hlines : printingEnd.2.lines = [firstLine, secondLine] := by
    decide +kernel
  have hmeasured : printingEnd.1.pc.measured = true := by
    decide +kernel
  have hclock : printingEnd.2.clock < 2 * 10 ^ 15 := by
    decide +kernel
  obtain ⟨-, hspaced, hwithin, hrange⟩ := pub_lines_lead_to_result hrun
  rw [hlines] at hspaced hwithin hrange
  exact ⟨hlines, (List.pairwise_cons.mp hspaced).1 _ (List.mem_singleton_self _), hwithin hmeasured,
    hrange hclock secondLine (by simp)⟩

end PerftestLite
