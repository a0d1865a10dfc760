import Mathlib.Algebra.BigOperators.Group.List.Basic
import Mathlib.Algebra.Order.Group.Int
import Mathlib.Data.List.Dedup
import Mathlib.Tactic.Common

/-!
# The steps of a walk

A walk is a list of places; each pair of neighbours is a step. A cost of steps is added up along the
walk.

* `overSteps`: the sum; `overSteps_snoc`, `overSteps_eq_zero`;
* `overSteps_telescope`: costs that differ by what a potential gains differ by its total gain;
* `skipped`, `rises`, `fallen`: walks over the integers, what upward steps jump over, how often the
  walk goes up and how far it goes down, and the equation between the three.
-/

set_option autoImplicit false

namespace Steps

section Cost

variable {α M : Type*} [AddCommMonoid M]

/-- A cost added up over the steps. -/
def overSteps (f : α → α → M) : List α → M
  | a :: b :: r => f a b + overSteps f (b :: r)
  | _ => 0

variable {f g : α → α → M}

theorem overSteps_cons_cons (a b : α) (r : List α) :
    overSteps f (a :: b :: r) = f a b + overSteps f (b :: r) := rfl

/-- One more step at the end. -/
theorem overSteps_snoc {r : List α} {l b : α} (hl : r.getLast? = some l) :
    overSteps f (r ++ [b]) = overSteps f r + f l b := by
  induction r with
  | nil => cases hl
  | cons a r ih =>
    cases r with
    | nil =>
      cases hl
      simp [overSteps]
    | cons c r =>
      have hl' : (c :: r).getLast? = some l := by rw [← hl, List.getLast?_cons_cons]
      rw [List.cons_append, List.cons_append, overSteps_cons_cons, overSteps_cons_cons,
        ← List.cons_append, ih hl', add_assoc]

/-- Steps that cost nothing. -/
theorem overSteps_eq_zero {r : List α} (h : r.Pairwise fun a b => f a b = 0) : overSteps f r = 0 := by
  induction r with
  | nil => rfl
  | cons a r ih =>
    cases r with
    | nil => rfl
    | cons b r =>
      obtain ⟨ha, hr⟩ := List.pairwise_cons.mp h
      rw [overSteps_cons_cons, ha b List.mem_cons_self, ih hr, add_zero]

/-- **Telescoping.** If in every step one cost exceeds the other by what the potential gains, then so
it is for the whole walk. -/
theorem overSteps_telescope (v : α → M) (h : ∀ a b, f a b + v a = g a b + v b) {r : List α} {a l : α}
    (ha : r.head? = some a) (hl : r.getLast? = some l) :
    overSteps f r + v a = overSteps g r + v l := by
  induction r generalizing a with
  | nil => cases ha
  | cons c r ih =>
    cases ha
    cases r with
    | nil =>
      cases hl
      rfl
    | cons b r =>
      have hl' : (b :: r).getLast? = some l := by rw [← hl, List.getLast?_cons_cons]
      calc f c b + overSteps f (b :: r) + v c
        _ = f c b + v c + overSteps f (b :: r) := add_right_comm _ _ _
        _ = g c b + (overSteps f (b :: r) + v b) := by rw [h c b, add_assoc, add_comm (v b)]
        _ = g c b + (overSteps g (b :: r) + v l) := by rw [ih rfl hl']
        _ = g c b + overSteps g (b :: r) + v l := (add_assoc _ _ _).symm

theorem overSteps_add (f g : α → α → M) (r : List α) :
    overSteps (fun a b => f a b + g a b) r = overSteps f r + overSteps g r := by
  induction r with
  | nil => exact (add_zero 0).symm
  | cons a r ih =>
    cases r with
    | nil => exact (add_zero 0).symm
    | cons b r => rw [overSteps_cons_cons, ih, overSteps_cons_cons, overSteps_cons_cons, add_add_add_comm]

end Cost

/-! ## Walks over the integers -/

/-- How many integers the upward steps jump over. -/
def skipped (r : List ℤ) : ℕ := overSteps (fun a b => (b - a - 1).toNat) r

/-- How many steps go up. -/
def rises (r : List ℤ) : ℕ := overSteps (fun a b => if a < b then 1 else 0) r

/-- How far the downward steps go. -/
def fallen (r : List ℤ) : ℕ := overSteps (fun a b => (a - b).toNat) r

variable {r : List ℤ}

theorem overSteps_natCast (f : ℤ → ℤ → ℕ) (r : List ℤ) :
    ((overSteps f r : ℕ) : ℤ) = overSteps (fun a b => (f a b : ℤ)) r := by
  induction r with
  | nil => rfl
  | cons a r ih =>
    cases r with
    | nil => rfl
    | cons b r => rw [overSteps_cons_cons, overSteps_cons_cons, Int.natCast_add, ih]

/-- **What a walk jumps over, climbs and falls.** -/
theorem skipped_add_rises {a l : ℤ} (ha : r.head? = some a) (hl : r.getLast? = some l) :
    (skipped r : ℤ) + rises r + a = fallen r + l := by
  unfold skipped rises fallen
  rw [overSteps_natCast, overSteps_natCast, overSteps_natCast, ← overSteps_add]
  refine overSteps_telescope id (fun a b => ?_) ha hl
  by_cases hab : a < b
  · rw [if_pos hab]
    simp only [id_eq]
    omega
  · rw [if_neg hab]
    simp only [id_eq]
    omega

/-- A walk that never goes down does not fall. -/
theorem fallen_eq_zero (h : r.Pairwise (· ≤ ·)) : fallen r = 0 :=
  overSteps_eq_zero (h.imp fun hab => by omega)

/-- A walk that never goes down visits at most one place more than it has upward steps. -/
theorem dedup_length_le (h : r.Pairwise (· ≤ ·)) : r.dedup.length ≤ rises r + 1 := by
  induction r with
  | nil => exact Nat.zero_le _
  | cons a r ih =>
    cases r with
    | nil => exact le_rfl
    | cons b r =>
      obtain ⟨ha, hr⟩ := List.pairwise_cons.mp h
      have hle := ih hr
      have hab := ha b List.mem_cons_self
      unfold rises at hle ⊢
      rw [overSteps_cons_cons]
      by_cases hlt : a < b
      · have hnew : a ∉ b :: r := fun hm => by
          have hb : b ≤ a := by
            rcases List.mem_cons.mp hm with rfl | hm
            · exact le_rfl
            · exact (List.pairwise_cons.mp hr).1 a hm
          omega
        rw [List.dedup_cons_of_notMem hnew, List.length_cons, if_pos hlt]
        omega
      · obtain rfl : a = b := by omega
        rw [List.dedup_cons_of_mem List.mem_cons_self]
        omega

end Steps
