import Mathlib.Data.List.Count
import Mathlib.Data.List.Sort
import Mathlib.Order.Lattice

/-!
# Order statistics

The element at place `k` of a sorted list is known by counting alone: at most `k` elements are smaller,
more than `k` are not larger. So it does not depend on how the list was sorted.

* `HasRank`: the counts; `HasRank.perm`, `HasRank.le_of_le`, `HasRank.unique`, `HasRank.mem`,
  `HasRank.between`;
* `getElem?_mergeSort_iff`: what stands at a place of the sorted list;
* `mergeSort_congr`: lists with the same elements are sorted to the same list.
-/

set_option autoImplicit false

namespace OrderStat

variable {α : Type*} [LinearOrder α] {l l' : List α} {i j k : ℕ} {x y : α}

/-- `x` is an element of `l` that stands at place `k` once `l` is sorted. -/
structure HasRank (l : List α) (k : ℕ) (x : α) : Prop where
  below : l.countP (· < x) ≤ k
  upto : k < l.countP (· ≤ x)

/-- Ranks are about the elements, not about their order. -/
theorem HasRank.perm (h : HasRank l k x) (hp : l.Perm l') : HasRank l' k x where
  below := (hp.countP_eq _).symm.trans_le h.below
  upto := h.upto.trans_eq (hp.countP_eq _)

/-- A higher rank is a larger element. -/
theorem HasRank.le_of_le (hx : HasRank l i x) (hy : HasRank l j y) (hij : i ≤ j) : x ≤ y := by
  by_contra hlt
  have hcount : l.countP (· ≤ y) ≤ l.countP (· < x) := by
    apply List.countP_mono_left
    intro z _ hz
    simp only [decide_eq_true_eq] at hz ⊢
    exact lt_of_le_of_lt hz (not_le.mp hlt)
  exact absurd (hy.upto.trans_le (hcount.trans hx.below)) (not_lt.mpr hij)

theorem HasRank.unique (hx : HasRank l k x) (hy : HasRank l k y) : x = y :=
  le_antisymm (hx.le_of_le hy le_rfl) (hy.le_of_le hx le_rfl)

theorem HasRank.mem (h : HasRank l k x) : x ∈ l := by
  by_contra hx
  have hcount : l.countP (· ≤ x) ≤ l.countP (· < x) := by
    apply List.countP_mono_left
    intro z hz hle
    simp only [decide_eq_true_eq] at hle ⊢
    exact lt_of_le_of_ne hle fun heq => hx (heq ▸ hz)
  exact absurd (h.upto.trans_le (hcount.trans h.below)) (lt_irrefl k)

/-- An element has all the ranks from the number of smaller elements on, up to any rank it has. -/
theorem HasRank.between (h : HasRank l j x) (hk : k ≤ j) (hbelow : l.countP (· < x) ≤ k) :
    HasRank l k x :=
  ⟨hbelow, hk.trans_lt h.upto⟩

/-- **In a sorted list the place is a rank.** -/
theorem hasRank_getElem (hs : l.Pairwise (· ≤ ·)) (hk : k < l.length) : HasRank l k l[k] := by
  have hsplit : l = l.take k ++ l[k] :: l.drop (k + 1) := by
    rw [← List.drop_eq_getElem_cons hk, List.take_append_drop]
  have hs' := hs
  rw [hsplit] at hs'
  obtain ⟨-, hback, hfront⟩ := List.pairwise_append.mp hs'
  constructor
  · have hnone : (l[k] :: l.drop (k + 1)).countP (· < l[k]) = 0 := by
      rw [List.countP_eq_zero]
      intro z hz
      simp only [decide_eq_true_eq, not_lt]
      rcases List.mem_cons.mp hz with rfl | hz
      · exact le_rfl
      · exact (List.pairwise_cons.mp hback).1 z hz
    calc l.countP (· < l[k])
      _ = (l.take k).countP (· < l[k]) + (l[k] :: l.drop (k + 1)).countP (· < l[k]) := by
        rw [← List.countP_append, ← hsplit]
      _ ≤ (l.take k).length + 0 := Nat.add_le_add List.countP_le_length hnone.le
      _ ≤ k := by rw [Nat.add_zero]; exact List.length_take_le k l
  · have hall : (l.take k).countP (· ≤ l[k]) = k := by
      rw [List.countP_eq_length.mpr, List.length_take, Nat.min_eq_left hk.le]
      intro z hz
      exact decide_eq_true (hfront z hz l[k] List.mem_cons_self)
    have hself : 0 < (l[k] :: l.drop (k + 1)).countP (· ≤ l[k]) :=
      List.countP_pos_iff.mpr ⟨l[k], List.mem_cons_self, decide_eq_true le_rfl⟩
    have hcount : l.countP (· ≤ l[k]) =
        (l.take k).countP (· ≤ l[k]) + (l[k] :: l.drop (k + 1)).countP (· ≤ l[k]) := by
      rw [← List.countP_append, ← hsplit]
    omega

theorem HasRank.lt_length (h : HasRank l k x) : k < l.length := h.upto.trans_le List.countP_le_length

/-- **What stands at a place of the sorted list.** -/
theorem getElem?_mergeSort_iff : (l.mergeSort (· ≤ ·))[k]? = some x ↔ HasRank l k x := by
  have hp : (l.mergeSort (· ≤ ·)).Perm l := List.mergeSort_perm l _
  have hs : (l.mergeSort (· ≤ ·)).Pairwise (· ≤ ·) := List.pairwise_mergeSort' (· ≤ ·) l
  constructor
  · intro h
    obtain ⟨hk, rfl⟩ := List.getElem?_eq_some_iff.mp h
    exact (hasRank_getElem hs hk).perm hp
  · intro h
    have hk : k < (l.mergeSort (· ≤ ·)).length := by
      rw [hp.length_eq]
      exact h.lt_length
    rw [List.getElem?_eq_getElem hk, h.unique ((hasRank_getElem hs hk).perm hp)]

/-- **Sorting forgets the order.** -/
theorem mergeSort_congr (h : l.Perm l') : l.mergeSort = l'.mergeSort :=
  (((List.mergeSort_perm l _).trans h).trans (List.mergeSort_perm l' _).symm).eq_of_pairwise'
    (List.pairwise_mergeSort' (· ≤ ·) l) (List.pairwise_mergeSort' (· ≤ ·) l')

end OrderStat
