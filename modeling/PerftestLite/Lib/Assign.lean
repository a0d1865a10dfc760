import Mathlib.Data.List.Basic
import Mathlib.Tactic.Common

/-!
# Assignments to the fields of a record

A setting names a field and its value; a list of settings is applied from left to right. The last
setting of each field wins, so settings of different fields may change places.

* `Fields`: a record that is known by its fields;
* `get_assign`: what a field holds after a list of settings;
* `assign_congr`: lists that set each field in the same way;
* `assign_written`: a record is what its own settings make of the defaults.
-/

set_option autoImplicit false

namespace Assign

/-- Records `ρ` whose fields `φ` are set by settings `σ`; a field is read as the setting that would
write it back. -/
structure Fields (ρ σ φ : Type*) where
  field : σ → φ
  set : σ → ρ → ρ
  get : ρ → φ → σ
  get_set : ∀ s r, get (set s r) (field s) = s
  get_set_of_ne : ∀ s r f, f ≠ field s → get (set s r) f = get r f
  ext : ∀ r r', (∀ f, get r f = get r' f) → r = r'

variable {ρ σ φ : Type*} (F : Fields ρ σ φ)

/-- The settings one after the other. -/
def Fields.assign (ss : List σ) (r : ρ) : ρ := ss.foldl (fun r s => F.set s r) r

/-- The settings of one field, in order. -/
def Fields.of [DecidableEq φ] (f : φ) (ss : List σ) : List σ := ss.filter fun s => F.field s = f

@[simp] theorem assign_nil (r : ρ) : F.assign [] r = r := rfl

theorem assign_cons (s : σ) (ss : List σ) (r : ρ) : F.assign (s :: ss) r = F.assign ss (F.set s r) :=
  rfl

/-- **The last setting of a field is its value**; a field that is not set keeps what it held. -/
theorem get_assign [DecidableEq φ] (ss : List σ) (r : ρ) (f : φ) :
    F.get (F.assign ss r) f = (F.of f ss).getLast?.getD (F.get r f) := by
  induction ss generalizing r with
  | nil => rfl
  | cons s ss ih =>
    rw [assign_cons, ih]
    unfold Fields.of
    by_cases hf : F.field s = f
    · rw [List.filter_cons_of_pos (by simpa using hf), List.getLast?_cons, Option.getD_some, ← hf,
        F.get_set]
    · rw [List.filter_cons_of_neg (by simpa using hf), F.get_set_of_ne s r f (Ne.symm hf)]

/-- **Settings of different fields may change places**: what counts is the order within each field. -/
theorem assign_congr [DecidableEq φ] {ss ss' : List σ} (h : ∀ f, F.of f ss = F.of f ss') (r : ρ) :
    F.assign ss r = F.assign ss' r := by
  apply F.ext
  intro f
  rw [get_assign, get_assign, h f]

/-- **A record is what its own settings make of any other**, if they leave out only what both agree on. -/
theorem assign_written [DecidableEq φ] {fs : List φ} (hall : ∀ f, f ∈ fs) (written : φ → Bool) {r r₀ : ρ}
    (hfield : ∀ f, F.field (F.get r f) = f) (hsame : ∀ f, written f = false → F.get r f = F.get r₀ f) :
    F.assign ((fs.filter written).map (F.get r)) r₀ = r := by
  apply F.ext
  intro f
  rw [get_assign]
  cases hlast : (F.of f ((fs.filter written).map (F.get r))).getLast? with
  | none =>
    -- the field has no setting
    have hnone := List.getLast?_eq_none_iff.mp hlast
    refine (hsame f (Bool.eq_false_iff.mpr fun hw => ?_)).symm
    have hmem : F.get r f ∈ F.of f ((fs.filter written).map (F.get r)) :=
      List.mem_filter.mpr ⟨List.mem_map_of_mem (List.mem_filter.mpr ⟨hall f, hw⟩), by simpa using hfield f⟩
    rw [hnone] at hmem
    cases hmem
  | some s =>
    obtain ⟨hs, hf⟩ := List.mem_filter.mp (List.mem_of_getLast? hlast)
    obtain ⟨g, -, rfl⟩ := List.mem_map.mp hs
    have hg : g = f := (hfield g).symm.trans (of_decide_eq_true hf)
    rw [hg]
    rfl

end Assign
