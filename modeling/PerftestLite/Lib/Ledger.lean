import Mathlib.Data.List.Count
import Mathlib.Logic.Function.Basic
import PerftestLite.Lib.Machine

/-!
# Ledgers

A ledger lists what was acquired and released, in order. Replaying it says what is held at the end, or
fails at the first entry that acquires what is held or releases what is not.

* `Move`, `Ledger.step`, `Ledger.replay`: the entries and what they do;
* `count_of_replay`: what is held is what was acquired once more than released;
* `released_iff`: everything acquired was released exactly if nothing is held;
* `Before`: of two entries, the one stands before the other wherever that stands.
-/

set_option autoImplicit false

/-- An entry of a ledger. -/
inductive Move (ρ : Type*)
  | acquire (r : ρ)
  | release (r : ρ)
  deriving DecidableEq, Repr

namespace Ledger

open Machine

variable {ρ : Type*} [DecidableEq ρ]

/-- What is held after one entry. -/
def step (held : ρ → Bool) : Move ρ → Option (ρ → Bool)
  | .acquire r => if held r then none else some (Function.update held r true)
  | .release r => if held r then some (Function.update held r false) else none

/-- What is held after a ledger. -/
def replay (l : List (Move ρ)) : Option (ρ → Bool) := exec step (fun _ => false) l

variable {held held' : ρ → Bool} {r : ρ}

/-- No entry changes nothing. -/
theorem replay_idle {l : List (Move ρ)} (hl : replay l = some held) (h' : ∀ x, held' x = held x) :
    replay (l ++ []) = some held' := by
  rw [List.append_nil, hl]
  congr 1
  funext x
  exact (h' x).symm

theorem update_eq {v : Bool} (h' : ∀ x, held' x = if x = r then v else held x) :
    Function.update held r v = held' := by
  funext x
  rw [Function.update_apply, h' x]

/-- What is free can be acquired. -/
theorem replay_acquire {l : List (Move ρ)} (hl : replay l = some held) (h : held r = false)
    (h' : ∀ x, held' x = if x = r then true else held x) :
    replay (l ++ [.acquire r]) = some held' := by
  refine exec_snoc.mpr ⟨held, hl, ?_⟩
  rw [← update_eq h']
  exact if_neg (by rw [h]; exact Bool.false_ne_true)

/-- What is held can be released. -/
theorem replay_release {l : List (Move ρ)} (hl : replay l = some held) (h : held r = true)
    (h' : ∀ x, held' x = if x = r then false else held x) :
    replay (l ++ [.release r]) = some held' := by
  refine exec_snoc.mpr ⟨held, hl, ?_⟩
  rw [← update_eq h']
  exact if_pos h

/-- One entry moves the count of its own resource. -/
theorem count_step {e : Move ρ} (h : step held e = some held') (r : ρ) :
    [e].count (.acquire r) + (held r).toNat = [e].count (.release r) + (held' r).toNat := by
  cases e with
  | acquire q =>
    simp only [step, Option.ite_none_left_eq_some, Option.some.injEq] at h
    rw [← h.2]
    by_cases hq : q = r
    · have hfree : held r = false := by
        rw [← hq]
        exact eq_false_of_ne_true h.1
      simp [hq, hfree]
    · simp [hq, Function.update_of_ne (Ne.symm hq)]
  | release q =>
    simp only [step, Option.ite_none_right_eq_some, Option.some.injEq] at h
    rw [← h.2]
    by_cases hq : q = r
    · have hheld : held r = true := by
        rw [← hq]
        exact h.1
      simp [hq, hheld]
    · simp [hq, Function.update_of_ne (Ne.symm hq)]

/-- **What is held is what was acquired once more than released.** -/
theorem count_of_replay {l : List (Move ρ)} (h : replay l = some held) (r : ρ) :
    l.count (.acquire r) = l.count (.release r) + (held r).toNat := by
  induction l using List.reverseRecOn generalizing held with
  | nil =>
    cases h
    rfl
  | append_singleton l e ih =>
    obtain ⟨before, hl, he⟩ := exec_snoc.mp h
    have hl' := ih hl
    have he' := count_step he r
    rw [List.count_append, List.count_append]
    omega

/-- **Everything acquired was released exactly if nothing is held.** -/
theorem released_iff {l : List (Move ρ)} (h : replay l = some held) :
    (∀ r, l.count (.release r) = l.count (.acquire r)) ↔ ∀ r, held r = false := by
  refine forall_congr' fun r => ?_
  have hcount := count_of_replay h r
  cases hr : held r with
  | true =>
    rw [hr, Bool.toNat_true] at hcount
    exact ⟨fun heq => by omega, fun h => absurd h (by simp)⟩
  | false =>
    rw [hr, Bool.toNat_false] at hcount
    exact ⟨fun _ => rfl, fun _ => hcount.symm⟩

/-! ## Order -/

/-- Wherever `b` stands, `a` stands before it. -/
def Before {α : Type*} (a b : α) (l : List α) : Prop := ∀ l₁ l₂, l = l₁ ++ b :: l₂ → a ∈ l₁

variable {α : Type*} {a b c : α} {l : List α}

theorem before_nil : Before a b [] := by
  intro l₁ l₂ h
  cases l₁ <;> cases h

/-- A new entry needs `a` before it only if it is `b`. -/
theorem Before.snoc (h : Before a b l) (hc : c = b → a ∈ l) : Before a b (l ++ [c]) := by
  intro l₁ l₂ heq
  rcases List.eq_nil_or_concat l₂ with rfl | ⟨l₃, d, rfl⟩
  · obtain ⟨rfl, hcb⟩ := List.append_inj' heq rfl
    exact hc (List.singleton_inj.mp hcb)
  · have hsnoc : l ++ [c] = (l₁ ++ b :: l₃) ++ [d] := by simpa using heq
    exact h l₁ l₃ (List.append_inj_left' hsnoc rfl)

end Ledger
