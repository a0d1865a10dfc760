import Mathlib.Data.List.Basic
import Mathlib.Tactic.Common

/-!
# Attempts

Straight-line code that gives up at the first call that fails: a step says whether it succeeded, and
leaves a state either way. What was done before the failure stays done.

* `Attempt`, `Attempt.all`: one step, and steps one after the other;
* `all_cons_true`, `all_cons_false`, `all_checks`: where the sequence goes on, and where it stops;
* `Succeeds`: from which states a step succeeds, and what it leaves; `Succeeds.cons`, `Succeeds.onlyIf`;
* `Ensures`: what a success leaves.
-/

set_option autoImplicit false

/-- Success or failure, and the state left. -/
def Attempt (σ : Type*) := σ → Bool × σ

namespace Attempt

variable {σ : Type*}

/-- A test that changes nothing. -/
def check (p : σ → Bool) : Attempt σ := fun s => (p s, s)

/-- A change that cannot fail. -/
def update (f : σ → σ) : Attempt σ := fun s => (true, f s)

/-- A step that is taken only if a test holds. -/
def onlyIf (p : σ → Bool) (a : Attempt σ) : Attempt σ := fun s => if p s then a s else (true, s)

/-- The steps in order, up to the first that fails. -/
def all : List (Attempt σ) → Attempt σ
  | [] => fun s => (true, s)
  | a :: as => fun s => if (a s).1 then all as (a s).2 else (false, (a s).2)

variable {a : Attempt σ} {as bs : List (Attempt σ)} {s : σ}

theorem all_cons_true (h : (a s).1 = true) : all (a :: as) s = all as (a s).2 := if_pos h

theorem all_cons_false (h : (a s).1 = false) : all (a :: as) s = (false, (a s).2) := by
  unfold all
  rw [if_neg (by rw [h]; exact Bool.false_ne_true)]

/-- Tests one after the other change nothing. -/
theorem all_checks (ps : List (σ → Bool)) (s : σ) : all (ps.map check) s = (ps.all fun p => p s, s) := by
  induction ps with
  | nil => rfl
  | cons p ps ih =>
    rw [List.map_cons, List.all_cons]
    cases h : p s with
    | true =>
      rw [all_cons_true h, Bool.true_and]
      exact ih
    | false =>
      rw [all_cons_false h, Bool.false_and]
      rfl

/-- From every state with `P` the step succeeds and leaves one with `Q`. -/
def Succeeds (P : σ → Prop) (a : Attempt σ) (Q : σ → Prop) : Prop :=
  ∀ s, P s → (a s).1 = true ∧ Q (a s).2

variable {P Q R : σ → Prop} {p : σ → Bool}

theorem succeeds_nil : Succeeds P (all []) P := fun _ h => ⟨rfl, h⟩

/-- **One step and the rest.** -/
theorem Succeeds.cons (ha : Succeeds P a Q) (has : Succeeds Q (all as) R) :
    Succeeds P (all (a :: as)) R := by
  intro s hs
  obtain ⟨htrue, hq⟩ := ha s hs
  rw [all_cons_true htrue]
  exact has _ hq

theorem Succeeds.mono (ha : Succeeds P a Q) (h : ∀ s, Q s → R s) : Succeeds P a R :=
  fun s hs => ⟨(ha s hs).1, h _ (ha s hs).2⟩

theorem Succeeds.onlyIf (ha : Succeeds P a Q) (h : ∀ s, P s → Q s) : Succeeds P (onlyIf p a) Q := by
  intro s hs
  unfold Attempt.onlyIf
  split_ifs
  · exact ha s hs
  · exact ⟨rfl, h s hs⟩

theorem Succeeds.check (h : ∀ s, P s → p s = true) : Succeeds P (check p) P := fun s hs => ⟨h s hs, hs⟩

theorem Succeeds.update {f : σ → σ} (h : ∀ s, P s → Q (f s)) : Succeeds P (update f) Q :=
  fun s hs => ⟨rfl, h s hs⟩

/-- Where the step succeeds, it leaves a state with `Q`. -/
def Ensures (a : Attempt σ) (Q : σ → Prop) : Prop := ∀ s, (a s).1 = true → Q (a s).2

theorem Ensures.last (ha : Ensures a Q) : Ensures (all [a]) Q := by
  intro s hs
  cases h : (a s).1 with
  | true =>
    rw [all_cons_true h]
    exact ha s h
  | false =>
    rw [all_cons_false h] at hs
    cases hs

/-- What the rest ensures, the sequence ensures. -/
theorem Ensures.cons (has : Ensures (all as) Q) : Ensures (all (a :: as)) Q := by
  intro s hs
  cases h : (a s).1 with
  | true =>
    rw [all_cons_true h] at hs ⊢
    exact has _ hs
  | false =>
    rw [all_cons_false h] at hs
    cases hs

end Attempt
