import PerftestLite.Render.Csv

/-!
# The table renderer

The same results for people: a title, a header and one line for each size, every field padded to the width
of its column, and a closing line.

* `tableRenderer`: the three callbacks;
* `readTable`: the fields between the blanks;
* `table_round_trip`: what the table shows of every entry, and when its lines are of one length.
-/

set_option autoImplicit false

namespace PerftestLite

open Printf Delimited

/-! ## The renderer -/

def tableTitle : List Char := "=== Perftest Lite Final Results ===".toList

def tableFooter : List Char := "===================================".toList

/-- The columns: width and name. -/
def tableColumns : Role → List (ℕ × String)
  | .publisher => [(12, "size(B)"), (14, "samples"), (14, "avgLat(us)"), (12, "min(us)"), (12, "max(us)"),
      (12, "p50(us)"), (12, "p90(us)"), (12, "p99(us)")]
  | .subscriber => [(12, "size(B)"), (14, "samples"), (12, "lost"), (12, "thr(Mbps)")]

/-- The fields of one line: `%d`, `%.2f` for the throughput and `%llu` for all others. -/
def tableFields : Role → SizeResult → List (ℕ × List Char)
  | .publisher, s => [(12, signed s.sizeBytes), (14, decimal s.totalSamples), (14, decimal s.avgLatencyUs),
      (12, decimal s.minLatencyUs), (12, decimal s.maxLatencyUs), (12, decimal s.p50LatencyUs),
      (12, decimal s.p90LatencyUs), (12, decimal s.p99LatencyUs)]
  | .subscriber, s => [(12, signed s.sizeBytes), (14, decimal s.totalSamples), (12, decimal s.lostSamples),
      (12, fixed 2 s.avgThroughputMbps)]

/-- The header line. -/
def tableHeader (role : Role) : List Char := row ' ' ((tableColumns role).map fun c => (c.1, c.2.toList))

def tableBegin (role : Role) (_args : InputArgs) (s : PrintState) : PrintState :=
  ({ s with gRole := role }.print ('\n' :: tableTitle ++ ['\n'])).print (tableHeader role ++ ['\n'])

def tableRow (x : SizeResult) (s : PrintState) : PrintState :=
  s.print (row ' ' (tableFields s.gRole x) ++ ['\n'])

def tableEnd (s : PrintState) : PrintState := s.print (tableFooter ++ ['\n'])

/-- `perftest_lite_renderer_table`; it has no use for `user`. -/
def tableRenderer {υ : Type*} : Renderer υ PrintState :=
  ⟨some fun _ => tableBegin, some fun _ => tableRow, some fun _ => tableEnd⟩

/-! ## Reading it -/

/-- One line, taken apart. -/
def readTableFields : Role → List (List Char) → Option SizeResult
  | .publisher, [size, total, avg, min, max, p50, p90, p99] => do
    some { SizeResult.zero with
      sizeBytes := ← readSigned size
      totalSamples := ← readDecimal total
      avgLatencyUs := ← readDecimal avg
      minLatencyUs := ← readDecimal min
      maxLatencyUs := ← readDecimal max
      p50LatencyUs := ← readDecimal p50
      p90LatencyUs := ← readDecimal p90
      p99LatencyUs := ← readDecimal p99 }
  | .subscriber, [size, total, lost, mbps] => do
    some { SizeResult.zero with
      sizeBytes := ← readSigned size
      totalSamples := ← readDecimal total
      lostSamples := ← readDecimal lost
      avgThroughputMbps := ← readFixed 2 mbps }
  | _, _ => none

/-- The lines between the header and the closing line. -/
def tableBody (text : List Char) : List (List Char) := ((lines '\n' text).drop 3).dropLast

def readTable (role : Role) (text : List Char) : Option (List SizeResult) :=
  (tableBody text).mapM fun l => readTableFields role (words ' ' l)

/-- What the columns of a role tell of a result: no times but latencies, the throughput in hundredths. -/
def tableReported : Role → SizeResult → SizeResult
  | .publisher, s =>
    { s with latencySamplesReceived := 0, avgThroughputMbps := 0, lostSamples := 0, elapsedUs := 0 }
  | .subscriber, s =>
    { SizeResult.zero with
      sizeBytes := s.sizeBytes
      totalSamples := s.totalSamples
      lostSamples := s.lostSamples
      avgThroughputMbps := roundTo 2 s.avgThroughputMbps }

/-- Every field has room in its column. -/
def TableFits (role : Role) (x : SizeResult) : Prop := ∀ f ∈ tableFields role x, f.2.length ≤ f.1

/-! ## The lines -/

theorem tableFields_plain (role : Role) (x : SizeResult) :
    ∀ f ∈ tableFields role x, Plain f.2 ∧ f.2 ≠ [] := by
  cases role with
  | publisher => simp [tableFields, plain_signed, plain_decimal, signed_ne_nil, decimal_ne_nil]
  | subscriber =>
    simp [tableFields, plain_signed, plain_decimal, plain_fixed, signed_ne_nil, decimal_ne_nil, fixed_ne_nil]

theorem tableFields_words (role : Role) (x : SizeResult) :
    words ' ' (row ' ' (tableFields role x)) = (tableFields role x).map Prod.snd :=
  words_row fun f hf => ⟨(tableFields_plain role x f hf).1.not_mem rfl (by decide) (by decide),
    (tableFields_plain role x f hf).2⟩

theorem readTableFields_tableFields (role : Role) (x : SizeResult) :
    readTableFields role ((tableFields role x).map Prod.snd) = some (tableReported role x) := by
  cases role with
  | publisher =>
    simp [readTableFields, tableFields, tableReported, readSigned_signed, readDecimal_decimal,
      SizeResult.zero]
  | subscriber =>
    simp [readTableFields, tableFields, tableReported, readSigned_signed, readDecimal_decimal,
      readFixed_fixed]

/-- A row of numbers stands on one line. -/
theorem tableRow_no_newline (role : Role) (x : SizeResult) : '\n' ∉ row ' ' (tableFields role x) := by
  intro h
  rcases mem_intercalate h with hc | ⟨f, hf, hc⟩
  · cases List.mem_singleton.mp hc
  · obtain ⟨g, hg, rfl⟩ := List.mem_map.mp hf
    rcases List.mem_append.mp hc with hc | hc
    · cases List.eq_of_mem_replicate hc
    · exact (tableFields_plain role x g hg).1.not_mem rfl (by decide) (by decide) hc

theorem tableHeader_no_newline (role : Role) : '\n' ∉ tableHeader role := by
  cases role with
  | publisher => decide +kernel
  | subscriber => decide +kernel

/-- The columns of the header are those of the rows. -/
theorem tableHeader_length (role : Role) (x : SizeResult) (h : TableFits role x) :
    (row ' ' (tableFields role x)).length = (tableHeader role).length := by
  refine length_row_eq ?_ h ?_
  · cases role <;> rfl
  · cases role with
    | publisher => decide +kernel
    | subscriber => decide +kernel

/-- The lines of a table. -/
def tableLines (role : Role) (xs : List SizeResult) : List (List Char) :=
  [] :: tableTitle :: tableHeader role :: (xs.map (fun x => row ' ' (tableFields role x)) ++ [tableFooter])

/-- What the renderer prints. -/
theorem renderResults_table {υ : Type*} (user : υ) (role : Role) (args : InputArgs) (results : Results)
    (s : PrintState) : (renderResults (some tableRenderer) user role args (some results) s).out =
      s.out ++ unlines '\n' (tableLines role results.rows) := by
  rw [tableRenderer, renderResults_eq]
  -- the rows, from any text that was printed after `begin`
  have hrows : ∀ (xs : List SizeResult) (q : PrintState), q.gRole = role →
      (xs.foldl (fun s x => tableRow x s) q).out =
        q.out ++ unlines '\n' (xs.map fun x => row ' ' (tableFields role x)) := by
    intro xs
    induction xs with
    | nil => simp [unlines]
    | cons x xs ih =>
      intro q hq
      rw [List.foldl_cons, ih (tableRow x q) hq, List.map_cons, unlines_cons]
      simp [tableRow, hq]
  rw [tableEnd, PrintState.print_out, hrows _ _ rfl]
  simp only [tableLines, unlines_cons, unlines_append, tableBegin, PrintState.print_out]
  simp [unlines]

/-- The rows are the lines between the header and the closing line. -/
theorem tableBody_lines (role : Role) (xs : List SizeResult) :
    tableBody (unlines '\n' (tableLines role xs)) = xs.map fun x => row ' ' (tableFields role x) := by
  have hlines : ∀ l ∈ tableLines role xs, '\n' ∉ l := by
    intro l hl
    rcases List.mem_cons.mp hl with rfl | hl
    · exact List.not_mem_nil
    rcases List.mem_cons.mp hl with rfl | hl
    · decide +kernel
    rcases List.mem_cons.mp hl with rfl | hl
    · exact tableHeader_no_newline role
    rcases List.mem_append.mp hl with hl | hl
    · obtain ⟨x, -, rfl⟩ := List.mem_map.mp hl
      exact tableRow_no_newline role x
    · rw [List.mem_singleton.mp hl]
      decide +kernel
  rw [tableBody, lines_unlines hlines]
  exact List.dropLast_concat

theorem readTable_lines (role : Role) (xs : List SizeResult) :
    readTable role (unlines '\n' (tableLines role xs)) = some (xs.map (tableReported role)) := by
  rw [readTable, tableBody_lines]
  exact mapM_map_some fun x => by rw [tableFields_words, readTableFields_tableFields]

/-- **Splitting the lines at their blanks reads back what the columns tell of every counted entry, in
order; and the lines of a table whose fields fit are as long as its header.** -/
theorem table_round_trip {υ : Type*} (user : υ) (role : Role) (args : InputArgs) (results : Results)
    (s : PrintState) : ∃ text,
      (renderResults (some tableRenderer) user role args (some results) s).out = s.out ++ text ∧
      readTable role text = some (results.rows.map (tableReported role)) ∧
      ((∀ x ∈ results.rows, TableFits role x) →
        ∀ l ∈ tableBody text, l.length = (tableHeader role).length) := by
  refine ⟨_, renderResults_table user role args results s, readTable_lines role results.rows, ?_⟩
  intro hfits l hl
  rw [tableBody_lines] at hl
  obtain ⟨x, hx, rfl⟩ := List.mem_map.mp hl
  exact tableHeader_length role x (hfits x hx)

end PerftestLite
