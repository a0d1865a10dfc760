import Mathlib.Data.List.Basic
import Mathlib.Data.List.Induction
import Mathlib.Tactic.Common

/-!
# Runs of a partial step function

A machine is a function `step : σ → ε → Option σ`: an event that is not enabled gives `none`.
Everything here is about lists of events, so a run is a value that can be evaluated.

* `exec`: the state after a list of events; `exec_append`, `exec_snoc`, `exec_flip`;
* `exec_invariant`: what every step preserves, every run preserves;
* `Along`: a condition met by every step of a run; `along_congr`, `exec_invariant_along`, `exec_along`;
* `Always`: a property of every state a run passes through, `Always.invariant`, `always_le`.
-/

set_option autoImplicit false

namespace Machine

variable {σ ε : Type*}

/-- Run a list of events; the run fails at the first event that is not enabled. -/
def exec (step : σ → ε → Option σ) : σ → List ε → Option σ
  | s, [] => some s
  | s, e :: es => (step s e).bind fun s' => exec step s' es

variable {step : σ → ε → Option σ}

@[simp] theorem exec_nil (s : σ) : exec step s [] = some s := rfl

theorem exec_cons {s t : σ} {e : ε} {es : List ε} :
    exec step s (e :: es) = some t ↔ ∃ s', step s e = some s' ∧ exec step s' es = some t := by
  simp [exec, Option.bind_eq_some_iff]

theorem exec_append {s t : σ} {es fs : List ε} :
    exec step s (es ++ fs) = some t ↔ ∃ m, exec step s es = some m ∧ exec step m fs = some t := by
  induction es generalizing s with
  | nil => simp
  | cons e es ih =>
    simp only [List.cons_append, exec_cons, ih]
    constructor
    · rintro ⟨s', he, m, hm, ht⟩
      exact ⟨m, ⟨s', he, hm⟩, ht⟩
    · rintro ⟨m, ⟨s', he, hm⟩, ht⟩
      exact ⟨s', he, m, hm, ht⟩

theorem exec_snoc {s t : σ} {es : List ε} {e : ε} :
    exec step s (es ++ [e]) = some t ↔ ∃ m, exec step s es = some m ∧ step m e = some t := by
  simp [exec_append, exec_cons]

/-- **A run on which `f` turns true has a step at which it does.** -/
theorem exec_flip (f : σ → Bool) {s t : σ} {es : List ε} (hrun : exec step s es = some t)
    (hs : f s = false) (ht : f t = true) :
    ∃ pre e post m m', es = pre ++ e :: post ∧ exec step s pre = some m ∧ step m e = some m' ∧
      f m = false ∧ f m' = true ∧ exec step m' post = some t := by
  induction es generalizing s with
  | nil =>
    cases hrun
    rw [hs] at ht
    cases ht
  | cons e es ih =>
    obtain ⟨s', he, hrest⟩ := exec_cons.mp hrun
    cases hs' : f s' with
    | true => exact ⟨[], e, es, s, s', rfl, rfl, he, hs, hs', hrest⟩
    | false =>
      obtain ⟨pre, e', post, m, m', rfl, hm, hstep, h1, h2, hpost⟩ := ih hrest hs'
      exact ⟨e :: pre, e', post, m, m', rfl, exec_cons.mpr ⟨s', he, hm⟩, hstep, h1, h2, hpost⟩

/-! ## Invariants -/

/-- **What every step preserves, every run preserves.** -/
theorem exec_invariant {I : σ → Prop} (hstep : ∀ s e s', I s → step s e = some s' → I s')
    {s t : σ} {es : List ε} (hrun : exec step s es = some t) (h0 : I s) : I t := by
  induction es generalizing s with
  | nil =>
    cases hrun
    exact h0
  | cons e es ih =>
    obtain ⟨s', he, hrest⟩ := exec_cons.mp hrun
    exact ih hrest (hstep s e s' h0 he)

/-- Every step of the run meets `P`, a condition on the state before the step and its event. -/
def Along (step : σ → ε → Option σ) (P : σ → ε → Prop) : σ → List ε → Prop
  | _, [] => True
  | s, e :: es => P s e ∧ ∀ s', step s e = some s' → Along step P s' es

instance decidableAlong {P : σ → ε → Prop} [∀ s e, Decidable (P s e)] :
    (s : σ) → (es : List ε) → Decidable (Along step P s es)
  | _, [] => isTrue trivial
  | s, e :: es =>
    match hs : step s e with
    | none => decidable_of_iff (P s e) (by simp [Along, hs])
    | some s' =>
      have := decidableAlong (P := P) s' es
      decidable_of_iff (P s e ∧ Along step P s' es) (by simp [Along, hs])

theorem Along.mono {P Q : σ → ε → Prop} (hPQ : ∀ s e, P s e → Q s e) {s : σ} {es : List ε}
    (h : Along step P s es) : Along step Q s es := by
  induction es generalizing s with
  | nil => trivial
  | cons e es ih => exact ⟨hPQ s e h.1, fun s' he => ih (h.2 s' he)⟩

/-- A condition on the events alone. -/
theorem along_of_forall {P : ε → Prop} {es : List ε} (h : ∀ e ∈ es, P e) (s : σ) :
    Along step (fun _ e => P e) s es := by
  induction es generalizing s with
  | nil => trivial
  | cons e es ih =>
    exact ⟨h e List.mem_cons_self, fun s' _ => ih (fun e he => h e (List.mem_cons_of_mem _ he)) s'⟩

/-- Conditions that agree under an invariant are met along the same runs. -/
theorem along_congr {I : σ → Prop} {P Q : σ → ε → Prop}
    (hstep : ∀ s e s', I s → step s e = some s' → I s') (hPQ : ∀ s e, I s → (P s e ↔ Q s e))
    {s : σ} (h0 : I s) (es : List ε) : Along step P s es ↔ Along step Q s es := by
  induction es generalizing s with
  | nil => exact Iff.rfl
  | cons e es ih =>
    exact and_congr (hPQ s e h0)
      ⟨fun h s' he => (ih (hstep s e s' h0 he)).mp (h s' he),
        fun h s' he => (ih (hstep s e s' h0 he)).mpr (h s' he)⟩

/-- **What every step meeting the condition preserves, a run of such steps preserves.** -/
theorem exec_invariant_along {I : σ → Prop} {P : σ → ε → Prop}
    (hstep : ∀ s e s', I s → P s e → step s e = some s' → I s')
    {s t : σ} {es : List ε} (hrun : exec step s es = some t) (hP : Along step P s es) (h0 : I s) :
    I t := by
  induction es generalizing s with
  | nil =>
    cases hrun
    exact h0
  | cons e es ih =>
    obtain ⟨s', he, hrest⟩ := exec_cons.mp hrun
    exact ih hrest (hP.2 s' he) (hstep s e s' h0 hP.1 he)

/-- An invariant that remembers in a proposition whether every step met the condition. -/
theorem exec_along {I : Prop → σ → Prop} {P : σ → ε → Prop}
    (hstep : ∀ c s e s', I c s → step s e = some s' → I (c ∧ P s e) s')
    {c : Prop} {s t : σ} {es : List ε} (hrun : exec step s es = some t) (h0 : I c s) :
    I (c ∧ Along step P s es) t := by
  induction es generalizing c s with
  | nil =>
    cases hrun
    have hiff : (c ∧ Along step P t []) = c := propext (and_iff_left trivial)
    rw [hiff]
    exact h0
  | cons e es ih =>
    obtain ⟨s', he, hrest⟩ := exec_cons.mp hrun
    have hiff : (c ∧ Along step P s (e :: es)) = ((c ∧ P s e) ∧ Along step P s' es) := by
      refine propext (Iff.trans (and_congr_right fun _ => and_congr_right fun _ => ?_) and_assoc.symm)
      constructor
      · exact fun h => h s' he
      · intro h u hu
        rw [Option.some.inj (hu.symm.trans he)]
        exact h
    rw [hiff]
    exact ih hrest (hstep c s e s' h0 he)

/-! ## Properties of every state of a run -/

/-- `Q` holds in every state the run passes through, the first and the last included. -/
def Always (step : σ → ε → Option σ) (Q : σ → Prop) (s : σ) (es : List ε) : Prop :=
  ∀ pre suf t, es = pre ++ suf → exec step s pre = some t → Q t

theorem Always.first {Q : σ → Prop} {s : σ} {es : List ε} (h : Always step Q s es) : Q s :=
  h [] es s rfl rfl

theorem Always.last {Q : σ → Prop} {s t : σ} {es : List ε} (h : Always step Q s es)
    (hrun : exec step s es = some t) : Q t :=
  h es [] t (List.append_nil es).symm hrun

theorem Always.prefix {Q : σ → Prop} {s : σ} {es fs : List ε} (h : Always step Q s (es ++ fs)) :
    Always step Q s es := by
  intro pre suf t he ht
  exact h pre (suf ++ fs) t (by rw [he, List.append_assoc]) ht

/-- **What every step into a state with `Q` preserves, a run through such states preserves.** -/
theorem Always.invariant {I Q : σ → Prop} (hstep : ∀ s e s', I s → Q s' → step s e = some s' → I s')
    {s t : σ} {es : List ε} (hQ : Always step Q s es) (hrun : exec step s es = some t) (h0 : I s) :
    I t := by
  induction es using List.reverseRecOn generalizing t with
  | nil =>
    cases hrun
    exact h0
  | append_singleton es e ih =>
    obtain ⟨m, hm, he⟩ := exec_snoc.mp hrun
    exact hstep m e t (ih hQ.prefix hm) (hQ.last hrun) he

/-- What never goes down along a run is at each of its states at most what it is at the end. -/
theorem always_le {I : σ → Prop} {f : σ → ℕ}
    (hstep : ∀ s e s', I s → step s e = some s' → I s' ∧ f s ≤ f s')
    {s t : σ} {es : List ε} (hrun : exec step s es = some t) (h0 : I s) :
    Always step (fun q => f q ≤ f t) s es := by
  rintro pre suf q rfl hq
  obtain ⟨m, hm, hmt⟩ := exec_append.mp hrun
  obtain rfl : q = m := Option.some.inj (hq.symm.trans hm)
  have hIq : I q := exec_invariant (fun s e s' h he => (hstep s e s' h he).1) hq h0
  exact (exec_invariant (I := fun u => I u ∧ f q ≤ f u)
    (fun u e u' h he => ⟨(hstep u e u' h.1 he).1, Nat.le_trans h.2 (hstep u e u' h.1 he).2⟩)
    hmt ⟨hIq, Nat.le_refl _⟩).2

end Machine
