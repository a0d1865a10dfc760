import PerftestLite.Lib.Delimited
import PerftestLite.Lib.Printf
import PerftestLite.Render.Dispatch

/-!
# The CSV renderer

One header line and one line for each size. The role is a static variable that `begin` sets and `row`
reads.

* `csvRenderer`: the three callbacks;
* `readCsv`: what a reader makes of the text;
* `csv_round_trip`: the text reads back to the reported columns of every entry.
-/

set_option autoImplicit false

namespace PerftestLite

open Printf Delimited

/-- The static role of a renderer, and everything printed so far. -/
structure PrintState where
  gRole : Role
  out : List Char
  deriving DecidableEq

/-- `PERFTEST_LITE_PRINT`. -/
def PrintState.print (text : List Char) (s : PrintState) : PrintState := { s with out := s.out ++ text }

@[simp] theorem PrintState.print_out (text : List Char) (s : PrintState) :
    (s.print text).out = s.out ++ text := rfl

@[simp] theorem PrintState.print_gRole (text : List Char) (s : PrintState) :
    (s.print text).gRole = s.gRole := rfl

/-! ## The renderer -/

/-- The header line. -/
def csvHeader : Role → String
  | .publisher => "size_bytes,total_samples,avg_latency_us,min_latency_us,max_latency_us," ++
      "p50_latency_us,p90_latency_us,p99_latency_us,elapsed_us"
  | .subscriber => "size_bytes,total_samples,lost_samples,avg_throughput_mbps,elapsed_us"

/-- The fields of one line: `%d`, `%.6f` for the throughput and `%llu` for all others. -/
def csvFields : Role → SizeResult → List (List Char)
  | .publisher, s =>
    [signed s.sizeBytes, decimal s.totalSamples, decimal s.avgLatencyUs, decimal s.minLatencyUs,
      decimal s.maxLatencyUs, decimal s.p50LatencyUs, decimal s.p90LatencyUs, decimal s.p99LatencyUs,
      decimal s.elapsedUs]
  | .subscriber, s =>
    [signed s.sizeBytes, decimal s.totalSamples, decimal s.lostSamples, fixed 6 s.avgThroughputMbps,
      decimal s.elapsedUs]

/-- A line with commas between its fields. -/
def csvLine (fields : List (List Char)) : List Char := [','].intercalate fields ++ ['\n']

def csvBegin (role : Role) (_args : InputArgs) (s : PrintState) : PrintState :=
  { s with gRole := role }.print ((csvHeader role).toList ++ ['\n'])

def csvRow (x : SizeResult) (s : PrintState) : PrintState := s.print (csvLine (csvFields s.gRole x))

def csvEnd (s : PrintState) : PrintState := s

/-- `perftest_lite_renderer_csv`; it has no use for `user`. -/
def csvRenderer {υ : Type*} : Renderer υ PrintState :=
  ⟨some fun _ => csvBegin, some fun _ => csvRow, some fun _ => csvEnd⟩

/-! ## Reading it -/

/-- The columns of the documentation. -/
def csvColumns : Role → List String
  | .publisher => ["size_bytes", "total_samples", "avg_latency_us", "min_latency_us", "max_latency_us",
      "p50_latency_us", "p90_latency_us", "p99_latency_us", "elapsed_us"]
  | .subscriber => ["size_bytes", "total_samples", "lost_samples", "avg_throughput_mbps", "elapsed_us"]

/-- One line, taken apart. -/
def readCsvFields : Role → List (List Char) → Option SizeResult
  | .publisher, [size, total, avg, min, max, p50, p90, p99, elapsed] => do
    some { SizeResult.zero with
      sizeBytes := ← readSigned size
      totalSamples := ← readDecimal total
      avgLatencyUs := ← readDecimal avg
      minLatencyUs := ← readDecimal min
      maxLatencyUs := ← readDecimal max
      p50LatencyUs := ← readDecimal p50
      p90LatencyUs := ← readDecimal p90
      p99LatencyUs := ← readDecimal p99
      elapsedUs := ← readDecimal elapsed }
  | .subscriber, [size, total, lost, mbps, elapsed] => do
    some { SizeResult.zero with
      sizeBytes := ← readSigned size
      totalSamples := ← readDecimal total
      lostSamples := ← readDecimal lost
      avgThroughputMbps := ← readFixed 6 mbps
      elapsedUs := ← readDecimal elapsed }
  | _, _ => none

/-- The header and a record for every line behind it. -/
def readCsv (role : Role) (text : List Char) : Option (List SizeResult) :=
  match lines '\n' text with
  | header :: rows =>
    if header.splitOn ',' = (csvColumns role).map String.toList then
      rows.mapM fun row => readCsvFields role (row.splitOn ',')
    else none
  | [] => none

/-- What the columns of a role tell of a result. -/
def csvReported : Role → SizeResult → SizeResult
  | .publisher, s => { s with latencySamplesReceived := 0, avgThroughputMbps := 0, lostSamples := 0 }
  | .subscriber, s =>
    { SizeResult.zero with
      sizeBytes := s.sizeBytes
      totalSamples := s.totalSamples
      lostSamples := s.lostSamples
      avgThroughputMbps := roundTo 6 s.avgThroughputMbps
      elapsedUs := s.elapsedUs }

/-! ## The round trip -/

theorem csvHeader_columns (role : Role) :
    (csvHeader role).toList.splitOn ',' = (csvColumns role).map String.toList := by
  cases role with
  | publisher => decide +kernel
  | subscriber => decide +kernel

theorem csvHeader_no_newline (role : Role) : '\n' ∉ (csvHeader role).toList := by
  cases role with
  | publisher => decide +kernel
  | subscriber => decide +kernel

theorem csvFields_plain (role : Role) (x : SizeResult) : ∀ f ∈ csvFields role x, Plain f := by
  cases role with
  | publisher => simp [csvFields, plain_signed, plain_decimal]
  | subscriber => simp [csvFields, plain_signed, plain_decimal, plain_fixed]

theorem csvFields_ne_nil (role : Role) (x : SizeResult) : csvFields role x ≠ [] := by
  cases role with
  | publisher => exact List.cons_ne_nil _ _
  | subscriber => exact List.cons_ne_nil _ _

theorem readCsvFields_csvFields (role : Role) (x : SizeResult) :
    readCsvFields role (csvFields role x) = some (csvReported role x) := by
  cases role with
  | publisher =>
    simp [readCsvFields, csvFields, csvReported, readSigned_signed, readDecimal_decimal, SizeResult.zero]
  | subscriber =>
    simp [readCsvFields, csvFields, csvReported, readSigned_signed, readDecimal_decimal, readFixed_fixed]

/-- A record of numbers stands on one line. -/
theorem record_no_newline (role : Role) (x : SizeResult) :
    '\n' ∉ [','].intercalate (csvFields role x) := by
  intro h
  obtain hc | ⟨f, hf, hc⟩ := mem_intercalate h
  · cases List.mem_singleton.mp hc
  · exact (csvFields_plain role x f hf).not_mem rfl (by decide) (by decide) hc

/-- What the renderer prints. -/
theorem renderResults_csv {υ : Type*} (user : υ) (role : Role) (args : InputArgs) (results : Results)
    (s : PrintState) : (renderResults (some csvRenderer) user role args (some results) s).out =
      s.out ++ unlines '\n' ((csvHeader role).toList ::
        results.rows.map fun x => [','].intercalate (csvFields role x)) := by
  rw [csvRenderer, renderResults_eq]
  change (results.rows.foldl (fun s x => csvRow x s) (csvBegin role args s)).out = _
  -- the rows, from any text that was printed after `begin`
  have hrows : ∀ (xs : List SizeResult) (q : PrintState), q.gRole = role →
      (xs.foldl (fun s x => csvRow x s) q).out =
        q.out ++ unlines '\n' (xs.map fun x => [','].intercalate (csvFields role x)) := by
    intro xs
    induction xs with
    | nil => simp [unlines]
    | cons x xs ih =>
      intro q hq
      rw [List.foldl_cons, ih (csvRow x q) hq, List.map_cons, unlines_cons]
      simp [csvRow, csvLine, hq]
  rw [hrows _ _ rfl, unlines_cons]
  simp [csvBegin]

/-- The lines read back one by one. -/
theorem readCsv_lines (role : Role) (xs : List SizeResult) :
    readCsv role (unlines '\n' ((csvHeader role).toList ::
      xs.map fun x => [','].intercalate (csvFields role x))) = some (xs.map (csvReported role)) := by
  have hlines : ∀ l ∈ (csvHeader role).toList ::
      xs.map fun x => [','].intercalate (csvFields role x), '\n' ∉ l := by
    intro l hl
    rcases List.mem_cons.mp hl with rfl | hl
    · exact csvHeader_no_newline role
    · obtain ⟨x, -, rfl⟩ := List.mem_map.mp hl
      exact record_no_newline role x
  rw [readCsv, lines_unlines hlines]
  dsimp only
  rw [if_pos (csvHeader_columns role)]
  refine mapM_map_some fun x => ?_
  rw [List.splitOn_intercalate ',' (fun f hf => (csvFields_plain role x f hf).not_mem rfl (by decide)
    (by decide)) (csvFields_ne_nil role x), readCsvFields_csvFields]

/-- **The text reads back to what its columns tell of every counted entry, in order**, whatever the
renderer was used for before, and a throughput is off by half a unit of its last digit at most. -/
theorem csv_round_trip {υ : Type*} (user : υ) (role : Role) (args : InputArgs) (results : Results)
    (s : PrintState) :
    (∃ text, (renderResults (some csvRenderer) user role args (some results) s).out = s.out ++ text ∧
      readCsv role text = some (results.rows.map (csvReported role))) ∧
    ∀ x : SizeResult, |(csvReported .subscriber x).avgThroughputMbps - x.avgThroughputMbps| ≤
      1 / 2000000 := by
  constructor
  · exact ⟨_, renderResults_csv user role args results s, readCsv_lines role results.rows⟩
  · intro x
    have h := abs_roundTo_sub_le 6 x.avgThroughputMbps
    norm_num at h
    exact h

end PerftestLite
