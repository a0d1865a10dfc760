import PerftestLite.Lib.Channel

/-!
# Two hops

A channel often is two: what a network delivers waits in a queue until it is taken from the front. Seen from
the receiver the wire and the queue are one channel again, with the discipline of the network: `xs`, the queue
and then the wire, is what a channel of messages carries.

* `Carries`: a channel carries a list, up to what its discipline may do anyway;
* `Carries.send`, `Carries.hop`: what a sender adds, what goes from the wire to the queue;
* `Carries.deliver`: what leaves the queue is delivered;
* `Carries.lose`: what is lost on the wire or in the queue is dropped.
-/

set_option autoImplicit false

namespace Channel

variable {μ ν : Type*} {d : Discipline} {f : μ → ν} {xs ys ys' : List ν} {ch : List μ} {x y : ν} {i : ℕ}

/-- The messages of the channel say `xs`: in this order, in any order, or each of them at least once. -/
def Carries (d : Discipline) (f : μ → ν) (xs : List ν) (ch : List μ) : Prop :=
  match d with
  | .ordered => ch.map f = xs
  | .unordered => (ch.map f).Perm xs
  | .duplicating => xs ⊆ ch.map f

theorem Carries.nil (d : Discipline) (f : μ → ν) : Carries d f [] [] := by
  cases d with
  | ordered => rfl
  | unordered => exact .refl _
  | duplicating => exact List.Subset.refl _

/-- A sender appends. -/
theorem Carries.send (h : Carries d f xs ch) (ms : List μ) : Carries d f (xs ++ ms.map f) (ch ++ ms) := by
  cases d with
  | ordered =>
    change (ch ++ ms).map f = xs ++ ms.map f
    rw [List.map_append, show ch.map f = xs from h]
  | unordered =>
    change ((ch ++ ms).map f).Perm (xs ++ ms.map f)
    rw [List.map_append]
    exact List.Perm.append_right _ h
  | duplicating =>
    change xs ++ ms.map f ⊆ (ch ++ ms).map f
    rw [List.map_append]
    exact List.append_subset.mpr ⟨List.subset_append_of_subset_left _ h, List.subset_append_right _ _⟩

/-- **From the wire to the queue**: whatever the wire delivers next. -/
theorem Carries.hop (h : Carries d f (xs ++ ys) ch) (hd : Channel.deliver d ys i = some (y, ys')) :
    Carries d f (xs ++ [y] ++ ys') ch := by
  rw [List.append_assoc]
  cases d with
  | ordered =>
    rw [deliver_ordered hd] at h
    exact h
  | unordered => exact List.Perm.trans h ((perm_of_deliver (by decide) hd).append_left xs)
  | duplicating =>
    refine List.Subset.trans ?_ h
    refine List.append_subset.mpr ⟨List.subset_append_left _ _, List.subset_append_of_subset_right _ ?_⟩
    exact List.cons_subset.mpr ⟨mem_of_deliver hd, subset_of_deliver hd⟩

/-- **What leaves the queue is delivered.** -/
theorem Carries.deliver (h : Carries d f (x :: xs) ch) :
    ∃ i m rest, Channel.deliver d ch i = some (m, rest) ∧ f m = x ∧ Carries d f xs rest := by
  cases d with
  | ordered =>
    obtain ⟨m, rest, rfl, hm, hrest⟩ := List.map_eq_cons_iff.mp (show ch.map f = x :: xs from h)
    exact ⟨0, m, rest, rfl, hm, hrest⟩
  | unordered =>
    have hperm : (ch.map f).Perm (x :: xs) := h
    obtain ⟨m, hm, rfl⟩ := List.mem_map.mp (hperm.mem_iff.mpr List.mem_cons_self)
    obtain ⟨i, hi, hget⟩ := List.getElem_of_mem hm
    refine ⟨i, m, ch.eraseIdx i, by simp [Channel.deliver, hi, hget], rfl, ?_⟩
    have hsplit : (f m :: (ch.eraseIdx i).map f).Perm (ch.map f) := by
      have hcons := (List.getElem_cons_eraseIdx_perm hi).map f
      rwa [hget] at hcons
    exact (hsplit.trans hperm).cons_inv
  | duplicating =>
    have hsub : x :: xs ⊆ ch.map f := h
    obtain ⟨hx, hxs⟩ := List.cons_subset.mp hsub
    obtain ⟨m, hm, rfl⟩ := List.mem_map.mp hx
    obtain ⟨i, hi, hget⟩ := List.getElem_of_mem hm
    exact ⟨i, m, ch, by simp [Channel.deliver, hi, hget], rfl, hxs⟩

/-- What is not carried any more: the channel drops it, or may go on carrying it. -/
def Forgets (d : Discipline) (ch ch' : List μ) : Prop := ch' = ch ∨ ∃ i, Channel.drop d ch i = some ch'

/-- **What is lost on the way is dropped.** -/
theorem Carries.lose (hd : d ≠ .ordered) (h : Carries d f (xs ++ x :: ys) ch) :
    ∃ ch', Forgets d ch ch' ∧ Carries d f (xs ++ ys) ch' := by
  cases d with
  | ordered => exact absurd rfl hd
  | unordered =>
    have hfront : Carries .unordered f (x :: (xs ++ ys)) ch := List.Perm.trans h List.perm_middle
    obtain ⟨i, m, rest, hdel, -, hrest⟩ := hfront.deliver
    obtain ⟨n, hn, heq⟩ := Option.map_eq_some_iff.mp hdel
    cases heq
    refine ⟨ch.eraseIdx i, .inr ⟨i, ?_⟩, hrest⟩
    exact if_pos (List.getElem?_eq_some_iff.mp hn).1
  | duplicating =>
    refine ⟨ch, .inl rfl, List.Subset.trans ?_ h⟩
    exact List.append_subset.mpr ⟨List.subset_append_left _ _,
      List.subset_append_of_subset_right _ (List.subset_cons_self _ _)⟩

/-- What erasing an entry takes out. -/
theorem exists_of_eraseIdx {α : Type*} {l : List α} (h : i < l.length) :
    ∃ as a bs, l = as ++ a :: bs ∧ l.eraseIdx i = as ++ bs := by
  refine ⟨l.take i, l[i], l.drop (i + 1), ?_, List.eraseIdx_eq_take_drop_succ l i⟩
  rw [← List.drop_eq_getElem_cons h, List.take_append_drop]

/-- A drop is from somewhere, and not of a network in order. -/
theorem exists_of_drop (h : Channel.drop d ys i = some ys') :
    d ≠ .ordered ∧ ∃ as a bs, ys = as ++ a :: bs ∧ ys' = as ++ bs := by
  cases d with
  | ordered => cases h
  | unordered | duplicating =>
    simp only [Channel.drop, Option.ite_none_right_eq_some, Option.some.injEq] at h
    obtain ⟨hi, rfl⟩ := h
    exact ⟨by decide, exists_of_eraseIdx hi⟩

end Channel
