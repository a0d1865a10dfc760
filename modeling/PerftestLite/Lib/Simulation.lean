import PerftestLite.Lib.Progress

/-!
# One machine inside another

A machine runs inside another if each of its steps is one step of the other, or none: `label` says which,
and a relation between the states is kept. The labels along a run are its trace, which is a run of the other
machine.

* `trace`, `trace_snoc`: the events of the other machine along a run;
* `Simulates`, `exec_trace`: the trace is a run;
* `exec_traced`: an invariant of the events, the trace and the state;
* `Follows`, `Follows.reaches`: the other machine takes some steps, which the state alone need not tell.
-/

set_option autoImplicit false

namespace Machine

variable {σ τ ε α : Type*} {step : σ → ε → Option σ} {label : σ → ε → Option α} {s t : σ} {es : List ε}

/-- The events of the other machine along a run. -/
def trace (step : σ → ε → Option σ) (label : σ → ε → Option α) : σ → List ε → List α
  | _, [] => []
  | s, e :: es => (label s e).toList ++ ((step s e).map fun s' => trace step label s' es).getD []

theorem trace_cons {e : ε} (h : step s e = some t) :
    trace step label s (e :: es) = (label s e).toList ++ trace step label t es := by
  simp [trace, h]

/-- The trace grows by the label of the last step. -/
theorem trace_snoc {e : ε} (h : exec step s es = some t) :
    trace step label s (es ++ [e]) = trace step label s es ++ (label t e).toList := by
  induction es generalizing s with
  | nil =>
    cases h
    cases ht : step t e <;> simp [trace, ht]
  | cons f fs ih =>
    obtain ⟨m, hm, hrest⟩ := exec_cons.mp h
    rw [List.cons_append, trace_cons hm, trace_cons hm, ih hrest, List.append_assoc]

/-- Every step is the step of the other machine that its label says, and keeps the states related. -/
def Simulates (step : σ → ε → Option σ) (label : σ → ε → Option α) (step' : τ → α → Option τ)
    (R : σ → τ → Prop) : Prop :=
  ∀ s u e s', R s u → step s e = some s' → ∃ u', exec step' u (label s e).toList = some u' ∧ R s' u'

/-- **The trace of a run is a run of the other machine.** -/
theorem exec_trace {step' : τ → α → Option τ} {R : σ → τ → Prop} {u : τ}
    (h : Simulates step label step' R) (hR : R s u) (hrun : exec step s es = some t) :
    ∃ u', exec step' u (trace step label s es) = some u' ∧ R t u' := by
  induction es generalizing s u with
  | nil =>
    cases hrun
    exact ⟨u, rfl, hR⟩
  | cons e es ih =>
    obtain ⟨m, hm, hrest⟩ := exec_cons.mp hrun
    obtain ⟨v, hv, hmv⟩ := h s u e m hR hm
    obtain ⟨w, hw, htw⟩ := ih hmv hrest
    rw [trace_cons hm]
    exact ⟨w, exec_append.mpr ⟨v, hv, hw⟩, htw⟩

/-- **What every step keeps of the events, the trace and the state, every run keeps.** -/
theorem exec_traced {I : List ε → List α → σ → Prop} (h0 : I [] [] s)
    (hstep : ∀ es as s e s', I es as s → step s e = some s' →
      I (es ++ [e]) (as ++ (label s e).toList) s')
    (hrun : exec step s es = some t) : I es (trace step label s es) t := by
  induction es using List.reverseRecOn generalizing t with
  | nil =>
    cases hrun
    exact h0
  | append_singleton es e ih =>
    obtain ⟨m, hm, he⟩ := exec_snoc.mp hrun
    rw [trace_snoc hm]
    exact hstep _ _ _ _ _ (ih hm) he

/-- Every step is some steps of the other machine, and keeps the states related. -/
def Follows (step : σ → ε → Option σ) (step' : τ → α → Option τ) (R : σ → τ → Prop) : Prop :=
  ∀ s u e s', R s u → step s e = some s' → Reaches step' u (R s')

/-- **A run is matched by a run of the other machine.** -/
theorem Follows.reaches {step' : τ → α → Option τ} {R : σ → τ → Prop} {u : τ}
    (h : Follows step step' R) (hR : R s u) (hrun : exec step s es = some t) : Reaches step' u (R t) := by
  induction es generalizing s u with
  | nil =>
    cases hrun
    exact .here hR
  | cons e es ih =>
    obtain ⟨m, hm, hrest⟩ := exec_cons.mp hrun
    exact (h s u e m hR hm).trans fun v hv => ih hv hrest

end Machine
