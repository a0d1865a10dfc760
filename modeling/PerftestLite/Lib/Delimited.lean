import Mathlib.Data.List.Basic
import Mathlib.Tactic.Common

/-!
# Terminated, separated and padded texts

A text of lines, each behind its terminator; a record of fields with a separator between them; a row of
fields padded on the left with blanks, at least one blank between them.

* `unlines`, `lines`, `lines_unlines`;
* `words`, `padLeft`, `words_row`: a row of padded fields falls apart into its fields.

A record is `List.intercalate`, and `List.splitOn` takes it apart.
-/

set_option autoImplicit false

namespace Delimited

variable {α : Type*} [DecidableEq α]

omit [DecidableEq α] in
/-- What a record is made of. -/
theorem mem_intercalate {sep : List α} {fs : List (List α)} {c : α} (h : c ∈ sep.intercalate fs) :
    c ∈ sep ∨ ∃ f ∈ fs, c ∈ f := by
  induction fs with
  | nil => cases h
  | cons f fs ih =>
    cases fs with
    | nil => exact .inr ⟨f, List.mem_cons_self, by simpa using h⟩
    | cons g gs =>
      rw [List.intercalate_cons_cons, List.append_assoc] at h
      rcases List.mem_append.mp h with h | h
      · exact .inr ⟨f, List.mem_cons_self, h⟩
      · rcases List.mem_append.mp h with h | h
        · exact .inl h
        · exact (ih h).imp_right fun ⟨e, he, hc⟩ => ⟨e, List.mem_cons_of_mem f he, hc⟩

/-- What is written item by item is read item by item. -/
theorem mapM_map_some {β γ δ : Type*} {write : β → γ} {read : γ → Option δ} {f : β → δ} {xs : List β}
    (h : ∀ x, read (write x) = some (f x)) : (xs.map write).mapM read = some (xs.map f) := by
  induction xs with
  | nil => rfl
  | cons x xs ih => rw [List.map_cons, List.mapM_cons, h x, ih]; rfl

/-! ## Lines -/

/-- Every line, followed by its terminator. -/
def unlines (t : α) (ls : List (List α)) : List α := ls.flatMap fun l => l ++ [t]

/-- What stands before each terminator. -/
def lines (t : α) (xs : List α) : List (List α) := (xs.splitOn t).dropLast

omit [DecidableEq α] in
theorem unlines_cons (t : α) (l : List α) (ls : List (List α)) :
    unlines t (l :: ls) = l ++ t :: unlines t ls := by
  simp [unlines]

omit [DecidableEq α] in
theorem unlines_append (t : α) (ls ms : List (List α)) :
    unlines t (ls ++ ms) = unlines t ls ++ unlines t ms := List.flatMap_append

/-- A line and the rest. -/
theorem lines_cons {t : α} {l : List α} (h : t ∉ l) (xs : List α) :
    lines t (l ++ t :: xs) = l :: lines t xs := by
  unfold lines
  rw [List.splitOn_append_cons_self_of_not_mem h, List.dropLast_cons_of_ne_nil (List.splitOn_ne_nil t xs)]

/-- **Lines without the terminator come back.** -/
theorem lines_unlines {t : α} {ls : List (List α)} (h : ∀ l ∈ ls, t ∉ l) : lines t (unlines t ls) = ls := by
  induction ls with
  | nil => rfl
  | cons l ls ih =>
    rw [unlines_cons, lines_cons (h l List.mem_cons_self), ih fun m hm => h m (List.mem_cons_of_mem l hm)]

/-! ## Words -/

/-- The nonempty stretches between blanks. -/
def words (b : α) (xs : List α) : List (List α) := (xs.splitOn b).filter fun l => !l.isEmpty

/-- Blanks on the left up to a width. -/
def padLeft (b : α) (w : ℕ) (xs : List α) : List α := List.replicate (w - xs.length) b ++ xs

omit [DecidableEq α] in
theorem length_padLeft {b : α} {w : ℕ} {xs : List α} (h : xs.length ≤ w) : (padLeft b w xs).length = w := by
  simp only [padLeft, List.length_append, List.length_replicate]
  omega

theorem words_append (b : α) (xs ys : List α) : words b (xs ++ b :: ys) = words b xs ++ words b ys := by
  simp only [words, List.splitOn_append_cons_self, List.filter_append]

theorem words_of_not_mem {b : α} {xs : List α} (hb : b ∉ xs) (hne : xs ≠ []) : words b xs = [xs] := by
  simp [words, List.splitOn_eq_singleton hb, hne]

/-- Blanks on the left are no word. -/
theorem words_replicate_append (b : α) (n : ℕ) (xs : List α) :
    words b (List.replicate n b ++ xs) = words b xs := by
  induction n with
  | zero => rfl
  | succ n ih =>
    rw [List.replicate_succ, List.cons_append]
    exact (words_append b [] _).trans ih

/-- A row of fields, each with its width. -/
def row (b : α) (fs : List (ℕ × List α)) : List α := [b].intercalate (fs.map fun f => padLeft b f.1 f.2)

/-- **A row of padded fields falls apart into its fields.** -/
theorem words_row {b : α} {fs : List (ℕ × List α)} (h : ∀ f ∈ fs, b ∉ f.2 ∧ f.2 ≠ []) :
    words b (row b fs) = fs.map Prod.snd := by
  have hpad : ∀ f ∈ fs, words b (padLeft b f.1 f.2) = [f.2] := fun f hf => by
    rw [padLeft, words_replicate_append, words_of_not_mem (h f hf).1 (h f hf).2]
  clear h
  unfold row
  induction fs with
  | nil => rfl
  | cons f fs ih =>
    have hrest := ih fun g hg => hpad g (List.mem_cons_of_mem f hg)
    cases fs with
    | nil => simpa using hpad f List.mem_cons_self
    | cons g gs =>
      rw [List.map_cons] at hrest
      rw [List.map_cons, List.map_cons, List.intercalate_cons_cons, List.append_assoc, List.singleton_append,
        words_append, hpad f List.mem_cons_self, hrest]
      rfl

omit [DecidableEq α] in
/-- **Rows over the same columns are of one length**, if their fields fit. -/
theorem length_row_eq {b : α} {fs gs : List (ℕ × List α)} (hfg : fs.map Prod.fst = gs.map Prod.fst)
    (hf : ∀ f ∈ fs, f.2.length ≤ f.1) (hg : ∀ g ∈ gs, g.2.length ≤ g.1) :
    (row b fs).length = (row b gs).length := by
  -- a row of fitting fields is as long as a row of blanks
  have hrow : ∀ hs : List (ℕ × List α), (∀ h ∈ hs, h.2.length ≤ h.1) → (row b hs).length =
      ([b].intercalate ((hs.map Prod.fst).map fun w => List.replicate w b)).length := by
    intro hs hfit
    induction hs with
    | nil => rfl
    | cons h hs ih =>
      have hrest := ih fun k hk => hfit k (List.mem_cons_of_mem h hk)
      have hh : (padLeft b h.1 h.2).length = h.1 := length_padLeft (hfit h List.mem_cons_self)
      unfold row at hrest ⊢
      cases hs with
      | nil => simpa using hh
      | cons k ks =>
        simp only [List.map_cons, List.intercalate_cons_cons, List.length_append, List.length_replicate]
          at hrest ⊢
        omega
  rw [hrow fs hf, hrow gs hg, hfg]

end Delimited
