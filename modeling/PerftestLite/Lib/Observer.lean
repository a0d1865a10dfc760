import PerftestLite.Lib.Machine

/-!
# Watching a run

An observer follows a machine step by step with a state of its own. It sees the machine's state before
each step, and may refuse a step that does not meet an assumption about the run.

* `observed`: the machine and its observer; `observed_of_steps`, `observed_eq_some`;
* `exec_observed_fst`: a run that was watched is a run;
* `exec_observed_of_watch`: an observer that refuses nothing watches every run.
-/

set_option autoImplicit false

namespace Machine

variable {σ ο ε : Type*}

/-- One step of the machine that the observer lets pass. -/
def observed (step : σ → ε → Option σ) (watch : σ → ο → ε → Option ο) (s : σ × ο) (e : ε) :
    Option (σ × ο) :=
  (step s.1 e).bind fun s' => (watch s.1 s.2 e).map fun o' => (s', o')

variable {step : σ → ε → Option σ} {watch : σ → ο → ε → Option ο}

theorem observed_eq_some {s t : σ × ο} {e : ε} :
    observed step watch s e = some t ↔ step s.1 e = some t.1 ∧ watch s.1 s.2 e = some t.2 := by
  obtain ⟨s', o'⟩ := t
  simp [observed, Option.bind_eq_some_iff, Option.map_eq_some_iff]

/-- The steps the machine and the observer take. -/
theorem observed_of_steps {s s' : σ} {o o' : ο} {e : ε} (hs : step s e = some s')
    (ho : watch s o e = some o') : observed step watch (s, o) e = some (s', o') :=
  observed_eq_some.mpr ⟨hs, ho⟩

/-- **A run that was watched is a run.** -/
theorem exec_observed_fst {s t : σ × ο} {es : List ε} (h : exec (observed step watch) s es = some t) :
    exec step s.1 es = some t.1 := by
  induction es generalizing s with
  | nil =>
    cases h
    rfl
  | cons e es ih =>
    obtain ⟨m, hm, hrest⟩ := exec_cons.mp h
    exact exec_cons.mpr ⟨m.1, (observed_eq_some.mp hm).1, ih hrest⟩

/-- **Every run can be watched** by an observer that refuses no step. -/
theorem exec_observed_of_watch (h : ∀ s o e s', step s e = some s' → ∃ o', watch s o e = some o') {s t : σ}
    {es : List ε} (hrun : exec step s es = some t) (o : ο) :
    ∃ o', exec (observed step watch) (s, o) es = some (t, o') := by
  induction es generalizing s o with
  | nil =>
    cases hrun
    exact ⟨o, rfl⟩
  | cons e es ih =>
    obtain ⟨m, hm, hrest⟩ := exec_cons.mp hrun
    obtain ⟨o₁, ho₁⟩ := h s o e m hm
    obtain ⟨o', ho'⟩ := ih hrest o₁
    exact ⟨o', exec_cons.mpr ⟨(m, o₁), observed_of_steps hm ho₁, ho'⟩⟩

end Machine
