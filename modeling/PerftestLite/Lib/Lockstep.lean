import PerftestLite.Lib.Observer

/-!
# Two machines in step

Two machines that are given the same events. Where related states enable the same events, and these lead
to related states, the runs go on and stop together.

* `rel_map`, `rel_map₂`, `rel_bind`, `rel_ite`: partial results that are both there or both missing;
* `Lockstep`, `Lockstep.exec`: one event, and a run;
* `Lockstep.related`: two runs over the same events end in related states;
* `Lockstep.observed`: two runs of which an observer sees the same;
* `exec_map`: the runs of a machine inside another one.
-/

set_option autoImplicit false

namespace Machine

variable {α β γ δ σ τ ε : Type*}

/-! ## Partial results -/

theorem rel_map {R : α → β → Prop} {f : γ → α} {g : γ → β} {x : Option γ}
    (h : ∀ c, x = some c → R (f c) (g c)) : Option.Rel R (x.map f) (x.map g) := by
  cases x with
  | none => exact .none
  | some c => exact .some (h c rfl)

theorem rel_map₂ {R : α → β → Prop} {S : γ → δ → Prop} {x : Option α} {y : Option β} {f : α → γ}
    {g : β → δ} (h : Option.Rel R x y) (hfg : ∀ a b, R a b → S (f a) (g b)) :
    Option.Rel S (x.map f) (y.map g) := by
  cases h with
  | none => exact .none
  | some hab => exact .some (hfg _ _ hab)

theorem rel_bind {R : α → β → Prop} {S : γ → δ → Prop} {x : Option α} {y : Option β}
    {f : α → Option γ} {g : β → Option δ} (h : Option.Rel R x y)
    (hfg : ∀ a b, R a b → Option.Rel S (f a) (g b)) : Option.Rel S (x.bind f) (y.bind g) := by
  cases h with
  | none => exact .none
  | some hab => exact hfg _ _ hab

theorem rel_ite {R : α → β → Prop} {p : Prop} [Decidable p] {x x' : Option α} {y y' : Option β}
    (h : p → Option.Rel R x y) (h' : ¬ p → Option.Rel R x' y') :
    Option.Rel R (if p then x else x') (if p then y else y') := by
  by_cases hp : p
  · rw [if_pos hp, if_pos hp]
    exact h hp
  · rw [if_neg hp, if_neg hp]
    exact h' hp

/-! ## Runs -/

/-- From related states the two machines take the same events, to related states. -/
def Lockstep (step : σ → ε → Option σ) (step' : τ → ε → Option τ) (R : σ → τ → Prop) : Prop :=
  ∀ s s' e, R s s' → Option.Rel R (step s e) (step' s' e)

variable {step : σ → ε → Option σ} {step' : τ → ε → Option τ} {R : σ → τ → Prop}

theorem Lockstep.exec (h : Lockstep step step' R) {s : σ} {s' : τ} (hR : R s s') (es : List ε) :
    Option.Rel R (exec step s es) (exec step' s' es) := by
  induction es generalizing s s' with
  | nil => exact .some hR
  | cons e es ih => exact rel_bind (h s s' e hR) fun _ _ hm => ih hm

/-- **Two runs over the same events end in related states.** -/
theorem Lockstep.related (h : Lockstep step step' R) {s t : σ} {s' t' : τ} {es : List ε} (hR : R s s')
    (ht : Machine.exec step s es = some t) (ht' : Machine.exec step' s' es = some t') : R t t' := by
  have hend := h.exec hR es
  rw [ht, ht'] at hend
  cases hend with
  | some hm => exact hm

/-- An observer that cannot tell related states apart sees the same. -/
theorem Lockstep.observed {ο : Type*} {watch : σ → ο → ε → Option ο} {watch' : τ → ο → ε → Option ο}
    (h : Lockstep step step' R) (hw : ∀ s s' o e, R s s' → watch s o e = watch' s' o e) :
    Lockstep (observed step watch) (observed step' watch') fun p p' => R p.1 p'.1 ∧ p.2 = p'.2 := by
  rintro ⟨s, o⟩ ⟨s', o'⟩ e ⟨hR, ho⟩
  cases ho
  refine rel_bind (h s s' e hR) fun t t' ht => ?_
  dsimp only
  rw [hw s s' o e hR]
  exact rel_map fun o' _ => ⟨ht, rfl⟩

/-- A machine inside another one, event by event. -/
theorem exec_map {ε' : Type*} {step' : τ → ε' → Option τ} {f : σ → τ} {g : ε → ε'}
    (h : ∀ s e, step' (f s) (g e) = (step s e).map f) (s : σ) (es : List ε) :
    Machine.exec step' (f s) (es.map g) = (Machine.exec step s es).map f := by
  induction es generalizing s with
  | nil => rfl
  | cons e es ih =>
    change (step' (f s) (g e)).bind _ = ((step s e).bind _).map f
    rw [h]
    cases step s e with
    | none => rfl
    | some t => exact ih t

end Machine
