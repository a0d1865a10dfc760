import Mathlib.Data.List.Basic
import Mathlib.Data.List.Count
import Mathlib.Data.List.Induction
import Mathlib.Data.List.Nodup
import Mathlib.Tactic.Common

/-!
# Counting in lists

* `eq_of_countP_le_one`: where at most one element has a property, two that have it are the same;
* `length_le_countP`: distinct positions of elements with a property are no more than those elements;
* `filter_append_rest`: a list that never goes back to a property is cut in two by it.
-/

set_option autoImplicit false

namespace Count

variable {α : Type*} {q : α → Bool} {xs : List α}

theorem eq_of_countP_le_one (h : xs.countP q ≤ 1) {a b : α} (ha : a ∈ xs) (hqa : q a = true)
    (hb : b ∈ xs) (hqb : q b = true) : a = b := by
  have ha' : a ∈ xs.filter q := List.mem_filter.mpr ⟨ha, hqa⟩
  have hb' : b ∈ xs.filter q := List.mem_filter.mpr ⟨hb, hqb⟩
  rw [List.countP_eq_length_filter] at h
  rcases Nat.le_one_iff_eq_zero_or_eq_one.mp h with h | h
  · rw [List.length_eq_zero_iff.mp h] at ha'
    cases ha'
  · obtain ⟨c, hc⟩ := List.length_eq_one_iff.mp h
    rw [hc] at ha' hb'
    exact (List.mem_singleton.mp ha').trans (List.mem_singleton.mp hb').symm

/-- Distinct positions of elements with a property are at most as many as there are such elements. -/
theorem length_le_countP {is : List ℕ} (hn : is.Nodup)
    (h : ∀ i ∈ is, ∃ a, xs[i]? = some a ∧ q a = true) : is.length ≤ xs.countP q := by
  induction xs using List.reverseRecOn generalizing is with
  | nil =>
    cases is with
    | nil => exact Nat.le_refl 0
    | cons i is =>
      obtain ⟨a, ha, -⟩ := h i List.mem_cons_self
      simp at ha
  | append_singleton xs x ih =>
    -- the position of the last element occurs at most once
    have hrest : (is.filter fun i => i != xs.length).length ≤ xs.countP q := by
      refine ih (hn.filter _) fun i hi => ?_
      obtain ⟨hmem, hne⟩ := List.mem_filter.mp hi
      obtain ⟨a, ha, hq⟩ := h i hmem
      refine ⟨a, ?_, hq⟩
      have hlt := (List.getElem?_eq_some_iff.mp ha).1
      rw [List.length_append, List.length_singleton] at hlt
      rwa [List.getElem?_append_left (by have := bne_iff_ne.mp hne; omega)] at ha
    rw [List.countP_append, List.countP_singleton]
    by_cases hlast : xs.length ∈ is
    · obtain ⟨a, ha, hq⟩ := h _ hlast
      rw [List.getElem?_concat_length] at ha
      cases ha
      have hperm := (List.perm_cons_erase hlast).length_eq
      rw [List.length_cons, hn.erase_eq_filter] at hperm
      rw [if_pos hq, hperm]
      exact Nat.add_le_add_right hrest 1
    · have hself : (is.filter fun i => i != xs.length) = is :=
        List.filter_eq_self.mpr fun i hi => bne_iff_ne.mpr fun he => hlast (he ▸ hi)
      rw [hself] at hrest
      omega

/-- A list that never goes back to `q` is what satisfies `q` followed by the rest. -/
theorem filter_append_rest (h : xs.Pairwise fun a b => q b = true → q a = true) :
    xs = xs.filter q ++ xs.filter fun a => !q a := by
  induction xs with
  | nil => rfl
  | cons a l ih =>
    obtain ⟨ha, hl⟩ := List.pairwise_cons.mp h
    by_cases hq : q a = true
    · simpa [hq] using ih hl
    · have hnil : l.filter q = [] := List.filter_eq_nil_iff.mpr fun b hb hqb => hq (ha b hb hqb)
      have hall : l.filter (fun a => !q a) = l :=
        List.filter_eq_self.mpr fun b hb => by simpa using fun hqb => hq (ha b hb hqb)
      simp [hq, hnil, hall]

end Count
