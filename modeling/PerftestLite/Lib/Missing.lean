import Mathlib

/-!
# Numbers that are missing

`missing r a b` counts the elements of the interval from `a` to `b` that do not occur in the list
`r`.

* `length_add_missing`: a list of distinct elements of the interval and what it misses fill it;
* `missing_eq_zero_iff`: nothing is missing when every element occurs;
* `missing_snoc`: what one more element of a strictly increasing list of integers adds;
* `oneTo`, `length_add_missing_head`: sublists of `1, 2, …, n`.
-/

set_option autoImplicit false

namespace Missing

section Order

variable {α : Type*} [PartialOrder α] [LocallyFiniteOrder α] [DecidableEq α]

/-- How many elements of `[a, b]` do not occur in `r`. -/
def missing (r : List α) (a b : α) : ℕ := ((Finset.Icc a b).filter fun x => x ∉ r).card

variable {r : List α} {a b : α}

/-- **Distinct elements of an interval and the missing ones fill the interval.** -/
theorem length_add_missing (hr : r.Nodup) (hb : ∀ x ∈ r, a ≤ x ∧ x ≤ b) :
    r.length + missing r a b = (Finset.Icc a b).card := by
  have hmem : (Finset.Icc a b).filter (fun x => x ∈ r) = r.toFinset := by
    ext x
    simp only [Finset.mem_filter, Finset.mem_Icc, List.mem_toFinset]
    exact ⟨fun h => h.2, fun h => ⟨hb x h, h⟩⟩
  rw [← List.toFinset_card_of_nodup hr, ← hmem, missing]
  exact Finset.card_filter_add_card_filter_not fun x => x ∈ r

theorem missing_eq_zero_iff : missing r a b = 0 ↔ ∀ x, a ≤ x → x ≤ b → x ∈ r := by
  simp only [missing, Finset.card_eq_zero, Finset.filter_eq_empty_iff, Finset.mem_Icc, not_not,
    and_imp]

theorem missing_nil : missing ([] : List α) a b = (Finset.Icc a b).card := by simp [missing]

end Order

/-! ## Integers -/

variable {r : List ℤ} {a b : ℤ}

theorem missing_eq (hr : r.Nodup) (hb : ∀ x ∈ r, a ≤ x ∧ x ≤ b) (hab : a ≤ b + 1) :
    (missing r a b : ℤ) = b + 1 - a - r.length := by
  have h := length_add_missing hr hb
  rw [Int.card_Icc] at h
  omega

/-- The first element of a strictly increasing list is below the others. -/
theorem head_le {r : List ℤ} (hr : r.Pairwise (· < ·)) (ha : r.head? = some a) {x : ℤ}
    (hx : x ∈ r) : a ≤ x := by
  cases r with
  | nil => cases ha
  | cons y r =>
    cases ha
    rcases List.mem_cons.mp hx with rfl | hx
    · exact le_rfl
    · exact ((List.pairwise_cons.mp hr).1 x hx).le

/-- One more element at the end adds the elements that are skipped. -/
theorem missing_snoc {s l : ℤ} (hr : (r ++ [s]).Pairwise (· < ·)) (ha : r.head? = some a)
    (hl : r.getLast? = some l) : (missing (r ++ [s]) a s : ℤ) = missing r a l + (s - l - 1) := by
  obtain ⟨hr', -, hs⟩ := List.pairwise_append.mp hr
  obtain ⟨r', hr''⟩ := List.getLast?_eq_some_iff.mp hl
  have hlm : l ∈ r := by rw [hr'']; simp
  have hls : l < s := hs l hlm s (List.mem_singleton_self s)
  have hal : a ≤ l := head_le hr' ha hlm
  have hle : ∀ x ∈ r, x ≤ l := by
    intro x hx
    rw [hr''] at hx hr'
    rcases List.mem_append.mp hx with hx | hx
    · exact ((List.pairwise_append.mp hr').2.2 x hx l (List.mem_singleton_self l)).le
    · rw [List.mem_singleton.mp hx]
  have h1 := missing_eq hr'.nodup (fun x hx => ⟨head_le hr' ha hx, hle x hx⟩) (by omega)
  have h2 := missing_eq (a := a) (b := s) hr.nodup (fun x hx => by
    rcases List.mem_append.mp hx with hx | hx
    · exact ⟨head_le hr' ha hx, ((hle x hx).trans_lt hls).le⟩
    · rw [List.mem_singleton.mp hx]
      exact ⟨by omega, le_rfl⟩) (by omega)
  rw [List.length_append, List.length_singleton] at h2
  omega

/-! ## Counting from one -/

/-- The integers from `1` to `n`. -/
def oneTo (n : ℕ) : List ℤ := (List.range n).map fun i : ℕ => (i : ℤ) + 1

theorem oneTo_pairwise (n : ℕ) : (oneTo n).Pairwise (· < ·) := by
  refine List.pairwise_map.mpr (List.pairwise_lt_range.imp fun h => ?_)
  omega

theorem mem_oneTo {n : ℕ} {m : ℤ} : m ∈ oneTo n ↔ 1 ≤ m ∧ m ≤ n := by
  simp only [oneTo, List.mem_map, List.mem_range]
  constructor
  · rintro ⟨i, hi, rfl⟩
    omega
  · rintro ⟨h1, h2⟩
    exact ⟨(m - 1).toNat, by omega, by omega⟩

/-- **What a sublist of `1, 2, …, n` holds, misses from its first element on, and misses before it**
add up to `n`. -/
theorem length_add_missing_head {r : List ℤ} {n : ℕ} (h : r.Sublist (oneTo n)) :
    r.length + missing r (r.head?.getD 1) n + (r.head?.getD 1 - 1).toNat = n := by
  have hr := (oneTo_pairwise n).sublist h
  have hb : ∀ m ∈ r, r.head?.getD 1 ≤ m ∧ m ≤ (n : ℤ) := by
    intro m hm
    refine ⟨?_, (mem_oneTo.mp (h.subset hm)).2⟩
    cases r with
    | nil => cases hm
    | cons a r => exact head_le hr rfl hm
  have hfill := length_add_missing hr.nodup hb
  rw [Int.card_Icc] at hfill
  have ha : 1 ≤ r.head?.getD 1 ∧ r.head?.getD 1 ≤ (n : ℤ) + 1 := by
    cases r with
    | nil => exact ⟨le_rfl, by simp⟩
    | cons a r =>
      have := mem_oneTo.mp (h.subset List.mem_cons_self)
      exact ⟨this.1, by simp only [List.head?_cons, Option.getD_some]; omega⟩
  omega

end Missing
