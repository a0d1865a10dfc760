import PerftestLite.Core.Flight

/-!
# The latency semaphore and the wait

What each statement of the publisher, and each pong, does to the binary semaphore: `recordPong` sets
the token, `semaphore_take` consumes it, nothing else touches it.

* `pubOnPongSample_sem`: the callback;
* `PubQuiet`, `pubMain_wait`: the statements, those that do not concern a wait taken together.
-/

set_option autoImplicit false

namespace PerftestLite

open Word Machine

/-- The semaphore has been created and not deleted. -/
def Semaphore.Live (s : Semaphore) : Prop := ∃ b, s = .live b

theorem Semaphore.Live.give {s : Semaphore} (h : s.Live) : s.give.Live ∧ s.give.token = true := by
  obtain ⟨b, rfl⟩ := h
  exact ⟨⟨true, rfl⟩, rfl⟩

theorem Semaphore.Live.take {s : Semaphore} (h : s.Live) : s.take.Live ∧ s.take.token = false := by
  obtain ⟨b, rfl⟩ := h
  exact ⟨⟨false, rfl⟩, rfl⟩

variable {T : TypeInterface} {cfg : Config} {args : InputArgs} {now : ℕ} {ok : Bool}
  {p p' : PubState}

/-- The callback gives the semaphore for a data sample and for nothing else. -/
theorem pubOnPongSample_sem (cfg : Config) (now : ℕ) (x : PerftestSample) (c : PubCtx) :
    (pubOnPongSample cfg now x c).latencySem = if x.isData then c.latencySem.give else c.latencySem := by
  by_cases hx : x.isData = true
  · rw [pubOnPongSample_data cfg now hx, if_pos hx]
    rfl
  · obtain ⟨b, hb⟩ := pubOnPongSample_other cfg now hx c
    rw [hb, if_neg hx]

/-- The callback counts one latency for a data sample and none for any other. -/
theorem pubOnPongSample_count (cfg : Config) (now : ℕ) (x : PerftestSample) (c : PubCtx) :
    (pubOnPongSample cfg now x c).latCount = if x.isData then c.latCount + 1 else c.latCount := by
  by_cases hx : x.isData = true
  · rw [pubOnPongSample_data cfg now hx, if_pos hx]
    rfl
  · obtain ⟨b, hb⟩ := pubOnPongSample_other cfg now hx c
    rw [hb, if_neg hx]

@[simp] theorem pubOnReaderMatched_sem (change : ℤ) (c : PubCtx) :
    (pubOnReaderMatched change c).latencySem = c.latencySem := by
  unfold pubOnReaderMatched
  split_ifs <;> rfl

@[simp] theorem pubOnReaderMatched_count (change : ℤ) (c : PubCtx) :
    (pubOnReaderMatched change c).latCount = c.latCount := by
  unfold pubOnReaderMatched
  split_ifs <;> rfl

/-- A statement that concerns no wait: the semaphore stays, no data sample goes out. -/
structure PubQuiet (ok : Bool) (p p' : PubState) : Prop where
  before : p.pc.waiting = false
  failed : p.pc = .write → ok = false
  after : p'.pc.waiting = false
  sem : p'.ctx.latencySem = p.ctx.latencySem
  writes : ∀ (i : ℕ) (x : PerftestSample), p'.writes[i]? = some (x, true) → x.isData = true →
    p.writes[i]? = some (x, true)

/-- The writes of a quiet statement: none, or one that is no data sample that went out. -/
theorem quiet_writes {ws ws' : List (PerftestSample × Bool)}
    (h : ws' = ws ∨ ∃ x, ws' = ws ++ [(x, ok)] ∧ (ok = true → x.isData = false)) {i : ℕ}
    {x : PerftestSample} (hi : ws'[i]? = some (x, true)) (hx : x.isData = true) :
    ws[i]? = some (x, true) := by
  rcases h with rfl | ⟨y, rfl, hy⟩
  · exact hi
  · rw [List.getElem?_append] at hi
    split_ifs at hi with hlt
    · exact hi
    · obtain ⟨hi', heq⟩ := List.getElem?_eq_some_iff.mp hi
      rw [List.getElem_singleton] at heq
      cases heq
      rw [hy rfl] at hx
      cases hx

/-- **In latency-test mode a statement begins a wait for the ping it has just written, ends a wait, or
concerns no wait.** -/
theorem pubMain_wait (ho : PubOrder args p) (hl : args.latencyTest = true)
    (h : pubMain T cfg args now ok p = some p') :
    (p.pc = .write ∧ p'.pc.waiting = true ∧ p'.ctx = p.ctx ∧ ok = true ∧
        p'.writes = p.writes ++ [(p.sample, true)]) ∨
      (p.pc.waiting = true ∧ p'.pc = .sleep ∧ p'.writes = p.writes ∧ ok = true ∧
        p.ctx.latencySem.token = true ∧
        p'.ctx = { p.ctx with latencySem := p.ctx.latencySem.take }) ∨
      (p.pc.waiting = true ∧ p'.pc = .sleep ∧ p'.writes = p.writes ∧ ok = false ∧
        p.ctx.latencySem.token = false ∧ p'.ctx = p.ctx ∧ args.reliable = false) ∨
      PubQuiet ok p p' := by
  cases pubMain_cases h with
  | writeWait hpc hok hp hl' => exact .inl ⟨hpc, rfl, rfl, hok, rfl⟩
  | taken since hpc hok htok =>
    exact .inr (.inl ⟨by rw [hpc]; rfl, rfl, rfl, hok, htok, rfl⟩)
  | expired since hpc hok htok hexp =>
    refine .inr (.inr (.inl ⟨by rw [hpc]; rfl, rfl, rfl, hok, htok, rfl, ?_⟩))
    cases hr : args.reliable with
    | false => rfl
    | true => simp [takeExpired, takeTimeoutMs, hr] at hexp
  | writeOn hpc hw =>
    have hok : ok = false := by simpa [isPing, hl] using hw
    refine .inr (.inr (.inr ⟨by rw [hpc]; rfl, fun _ => hok, rfl, rfl, fun i x hi hx => ?_⟩))
    exact quiet_writes (.inr ⟨p.sample, rfl, fun h => absurd h (by simp [hok])⟩) hi hx
  | burst j hpc hj =>
    refine .inr (.inr (.inr ⟨by rw [hpc]; rfl, fun h => absurd (hpc.symm.trans h) (by simp), rfl,
      rfl, fun i x hi hx => ?_⟩))
    exact quiet_writes (.inr ⟨{ p.sample with timestampUs := now }, rfl, fun _ =>
      PerftestSample.isData_eq (ho.burst j hpc)⟩) hi hx
  | final k hpc hk hf =>
    refine .inr (.inr (.inr ⟨by rw [hpc]; rfl, fun h => absurd (hpc.symm.trans h) (by simp), rfl,
      rfl, fun i x hi hx => ?_⟩))
    exact quiet_writes (.inr ⟨_, rfl, fun _ =>
      PerftestSample.isData_eq (ho.final (by rw [hpc]; rfl))⟩) hi hx
  | warmup hpc | settle hpc | reset hpc | begin hpc | again hpc _ | leave hpc _ | prepare hpc | sleep hpc
  | tick hpc _ | tickLine hpc _ _ | line _ _ hpc _ | lineEnd _ hpc _ | finish _ _ hpc _ | finishEnd _ hpc _
  | report hpc | shutdown hpc =>
    exact .inr (.inr (.inr ⟨by rw [hpc]; rfl, fun h => absurd (hpc.symm.trans h) (by simp), rfl,
      rfl, fun i x hi _ => hi⟩))
  | burstEnd j hpc _ | finalEnd j hpc _ | finalSleep j hpc =>
    exact .inr (.inr (.inr ⟨by rw [hpc]; rfl, fun h => absurd (hpc.symm.trans h) (by simp), rfl,
      rfl, fun i x hi _ => hi⟩))

end PerftestLite
