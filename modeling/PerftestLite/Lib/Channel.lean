import Mathlib.Data.List.Basic
import Mathlib.Data.List.InsertIdx
import Mathlib.Data.List.Perm.Basic
import Mathlib.Data.List.Perm.Subperm
import Mathlib.Tactic.Common

/-!
# Messages in flight

A channel is the list of messages in flight, oldest first; a sender appends. What may happen to
them is the discipline of the network:

* `ordered`: the oldest message is delivered, each exactly once, none is dropped;
* `unordered`: any message may be delivered or dropped, each is delivered at most once;
* `duplicating`: any message may be delivered any number of times, or dropped.

The rules a proof needs: a delivered message was in flight (`mem_of_deliver`), what is left was in
flight before (`subset_of_deliver`, `subset_of_drop`), and a discipline that does not duplicate
takes the message out (`perm_of_deliver`). Messages are delivered and dropped as what they say is
(`exists_of_deliver_map`, `exists_of_drop_map`).
-/

set_option autoImplicit false

namespace Channel

variable {μ : Type*}

/-- What a network may do to the messages in flight. -/
inductive Discipline
  | ordered
  | unordered
  | duplicating
  deriving DecidableEq, Repr

/-- Deliver message number `i`: the message and the channel left behind. -/
def deliver : Discipline → List μ → ℕ → Option (μ × List μ)
  | .ordered, ch, i => if i = 0 then ch.head?.map fun m => (m, ch.tail) else none
  | .unordered, ch, i => ch[i]?.map fun m => (m, ch.eraseIdx i)
  | .duplicating, ch, i => ch[i]?.map fun m => (m, ch)

/-- Drop message number `i`. -/
def drop : Discipline → List μ → ℕ → Option (List μ)
  | .ordered, _, _ => none
  | _, ch, i => if i < ch.length then some (ch.eraseIdx i) else none

variable {d : Discipline} {ch ch' : List μ} {i : ℕ} {m : μ}

theorem deliver_ordered (h : deliver .ordered ch i = some (m, ch')) : ch = m :: ch' := by
  simp only [deliver, Option.ite_none_right_eq_some] at h
  cases ch with
  | nil => simp at h
  | cons a rest =>
    obtain ⟨-, h⟩ := h
    cases h
    rfl

theorem mem_of_deliver (h : deliver d ch i = some (m, ch')) : m ∈ ch := by
  cases d with
  | ordered =>
    rw [deliver_ordered h]
    exact List.mem_cons_self
  | unordered | duplicating =>
    obtain ⟨a, ha, hm⟩ := Option.map_eq_some_iff.mp h
    cases hm
    exact List.mem_of_getElem? ha

theorem subset_of_deliver (h : deliver d ch i = some (m, ch')) : ch' ⊆ ch := by
  cases d with
  | ordered =>
    rw [deliver_ordered h]
    exact List.subset_cons_self m ch'
  | unordered =>
    obtain ⟨a, ha, hm⟩ := Option.map_eq_some_iff.mp h
    cases hm
    exact (List.eraseIdx_sublist ch i).subset
  | duplicating =>
    obtain ⟨a, ha, hm⟩ := Option.map_eq_some_iff.mp h
    cases hm
    exact List.Subset.refl ch

/-- **A network that does not duplicate takes the delivered message out.** -/
theorem perm_of_deliver (hd : d ≠ .duplicating) (h : deliver d ch i = some (m, ch')) :
    ch.Perm (m :: ch') := by
  cases d with
  | ordered => rw [deliver_ordered h]
  | unordered =>
    obtain ⟨a, ha, hm⟩ := Option.map_eq_some_iff.mp h
    cases hm
    obtain ⟨hi, rfl⟩ := List.getElem?_eq_some_iff.mp ha
    exact (List.getElem_cons_eraseIdx_perm hi).symm
  | duplicating => exact absurd rfl hd

theorem sublist_of_drop (h : drop d ch i = some ch') : ch'.Sublist ch := by
  cases d with
  | ordered => cases h
  | unordered | duplicating =>
    simp only [drop, Option.ite_none_right_eq_some, Option.some.injEq] at h
    rw [← h.2]
    exact List.eraseIdx_sublist ch i

theorem subset_of_drop (h : drop d ch i = some ch') : ch' ⊆ ch := (sublist_of_drop h).subset

theorem drop_ordered : drop .ordered ch i = none := rfl

/-! ## What the messages say -/

variable {ν : Type*} {f : μ → ν} {y : ν} {ys : List ν}

/-- A message is delivered as what it says is. -/
theorem exists_of_deliver_map (h : deliver d (ch.map f) i = some (y, ys)) :
    ∃ m rest, deliver d ch i = some (m, rest) ∧ f m = y ∧ rest.map f = ys := by
  cases d with
  | ordered =>
    simp only [deliver, Option.ite_none_right_eq_some, Option.map_eq_some_iff, List.head?_map] at h
    obtain ⟨rfl, -, ⟨m, hm, rfl⟩, heq⟩ := h
    cases heq
    exact ⟨m, ch.tail, by simp [deliver, hm], rfl, List.map_tail⟩
  | unordered =>
    simp only [deliver, Option.map_eq_some_iff, List.getElem?_map] at h
    obtain ⟨-, ⟨m, hm, rfl⟩, heq⟩ := h
    cases heq
    exact ⟨m, ch.eraseIdx i, by simp [deliver, hm], rfl, (List.eraseIdx_map f ch i).symm⟩
  | duplicating =>
    simp only [deliver, Option.map_eq_some_iff, List.getElem?_map] at h
    obtain ⟨-, ⟨m, hm, rfl⟩, heq⟩ := h
    cases heq
    exact ⟨m, ch, by simp [deliver, hm], rfl, rfl⟩

theorem exists_of_drop_map (h : drop d (ch.map f) i = some ys) :
    ∃ rest, drop d ch i = some rest ∧ rest.map f = ys := by
  cases d with
  | ordered => cases h
  | unordered | duplicating =>
    simp only [drop, Option.ite_none_right_eq_some, Option.some.injEq, List.length_map] at h
    obtain ⟨hi, rfl⟩ := h
    exact ⟨ch.eraseIdx i, if_pos hi, (List.eraseIdx_map f ch i).symm⟩

end Channel
