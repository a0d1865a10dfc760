import PerftestLite.Lib.Machine

/-!
# What a machine can still reach

From a state a property can be reached if some events lead to a state that has it. Where that holds of
every state the machine gets into, no run is at a dead end.

* `Reaches`, `Reaches.mono`, `Reaches.trans`: one way after another;
* `reaches_of_rank`: a rank that can always be lowered is a way to the end;
* `reaches_repeat`: the same event again and again, as a counter goes down.
-/

set_option autoImplicit false

namespace Machine

variable {σ ε : Type*} {step : σ → ε → Option σ} {P Q I : σ → Prop} {s : σ}

/-- Some events lead from `s` to a state with `P`. -/
def Reaches (step : σ → ε → Option σ) (s : σ) (P : σ → Prop) : Prop :=
  ∃ es t, exec step s es = some t ∧ P t

theorem Reaches.here (h : P s) : Reaches step s P := ⟨[], s, rfl, h⟩

theorem Reaches.mono (h : Reaches step s P) (hPQ : ∀ t, P t → Q t) : Reaches step s Q := by
  obtain ⟨es, t, ht, hP⟩ := h
  exact ⟨es, t, ht, hPQ t hP⟩

/-- One way after another. -/
theorem Reaches.trans (h : Reaches step s P) (h' : ∀ t, P t → Reaches step t Q) : Reaches step s Q := by
  obtain ⟨es, t, ht, hP⟩ := h
  obtain ⟨fs, u, hu, hQ⟩ := h' t hP
  exact ⟨es ++ fs, u, exec_append.mpr ⟨t, ht, hu⟩, hQ⟩

/-- **A rank that can always be lowered** leads to where it cannot. -/
theorem reaches_of_rank (rank : σ → ℕ)
    (h : ∀ s, I s → ¬ P s → Reaches step s fun t => I t ∧ rank t < rank s) (hI : I s) :
    Reaches step s fun t => I t ∧ P t := by
  induction hn : rank s using Nat.strongRecOn generalizing s with
  | ind n ih =>
    by_cases hP : P s
    · exact .here ⟨hI, hP⟩
    · exact (h s hI hP).trans fun t ht => ih (rank t) (hn ▸ ht.2) ht.1 rfl

/-- **The same event again and again**, while a counter is positive. -/
theorem reaches_repeat (e : ε) (count : σ → ℕ)
    (h : ∀ s, I s → count s ≠ 0 → ∃ t, step s e = some t ∧ I t ∧ count t + 1 = count s) (hI : I s) :
    Reaches step s fun t => I t ∧ count t = 0 := by
  refine reaches_of_rank count (fun s hI hc => ?_) hI
  obtain ⟨t, ht, hIt, hlt⟩ := h s hI hc
  exact ⟨[e], t, exec_cons.mpr ⟨t, ht, rfl⟩, hIt, by omega⟩

end Machine
