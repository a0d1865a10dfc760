import PerftestLite.Core.Types

/-!
# Rendering the results

`perftest_lite_render_results` walks the results and calls the renderer. Any callback may be null; what a
callback does to its sink, the static role of a renderer included, is a function on the sink.

* `Renderer`, `renderResults`;
* `Results.rows`, `renderResults_eq`: `begin`, one `row` for each entry in order, `end`.
-/

set_option autoImplicit false

namespace PerftestLite

/-- `PerftestLiteResultRenderer`, its callbacks with the `user` pointer and the sink. -/
structure Renderer (υ σ : Type*) where
  onBegin : Option (υ → Role → InputArgs → σ → σ)
  onRow : Option (υ → SizeResult → σ → σ)
  onEnd : Option (υ → σ → σ)

variable {υ σ : Type*}

/-- `perftest_lite_render_results`. The loop reads entry `i` of the storage. -/
def renderResults (r : Option (Renderer υ σ)) (user : υ) (role : Role) (args : InputArgs)
    (results : Option Results) (s : σ) : σ :=
  match r, results with
  | some r, some results =>
    let s := match r.onBegin with
      | some f => f user role args s
      | none => s
    let s := match r.onRow with
      | some f => (List.range results.sizeCount).foldl (fun s i =>
          match results.entry i with
          | some x => f user x s
          | none => s) s
      | none => s
    match r.onEnd with
    | some f => f user s
    | none => s
  | _, _ => s

/-- The entries that are counted. -/
def Results.rows (r : Results) : List SizeResult := (List.range r.sizeCount).filterMap r.entry

/-- As many as there are counted, in results that were never filled beyond their storage. -/
theorem Results.rows_eq {r : Results} {l : List SizeResult} (hl : r.sizes = some l)
    (hc : (r.sizeCount : ℤ) ≤ r.sizeCapacity) : r.rows = l.take r.sizeCount := by
  have hlen : r.sizeCount ≤ l.length := by
    have := r.storage l hl
    omega
  have hentry : r.entry = fun i => l[i]? := by
    funext i
    simp [Results.entry, hl]
  unfold Results.rows
  rw [hentry]
  clear hentry hc hl
  generalize r.sizeCount = n at hlen
  induction n with
  | zero => rfl
  | succ n ih =>
    rw [List.range_succ, List.filterMap_append, ih (Nat.le_of_succ_le hlen), List.take_add_one]
    simp [List.getElem?_eq_getElem (Nat.lt_of_succ_le hlen)]

/-- **`begin`, a `row` for each counted entry in order, `end`.** -/
theorem renderResults_eq {begin : υ → Role → InputArgs → σ → σ} {row : υ → SizeResult → σ → σ}
    {fin : υ → σ → σ} (user : υ) (role : Role) (args : InputArgs) (results : Results) (s : σ) :
    renderResults (some ⟨some begin, some row, some fin⟩) user role args (some results) s =
      fin user (results.rows.foldl (fun s x => row user x s) (begin user role args s)) := by
  rw [Results.rows, List.foldl_filterMap]
  refine congrArg (fun f => fin user ((List.range results.sizeCount).foldl f (begin user role args s))) ?_
  funext s i
  cases results.entry i with
  | none => rfl
  | some x => rfl

end PerftestLite
