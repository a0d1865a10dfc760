import PerftestLite.Core.PublisherRun

/-!
# Runs in throughput mode

Without latency test no write is followed by a wait, so the main thread alone decides how far a run
goes: every pattern of outcomes of the data writes, at clock readings inside the test window, is the
pattern of a run. No lines are printed and no pong arrives.

* `throughputRun`: the events of such a run, up to the first `FINALIZATION`;
* `exec_iterations`: one turn of the loop after the other;
* `exec_throughputRun`: the whole run.
-/

set_option autoImplicit false

namespace PerftestLite

open Word Machine

/-- One turn of the loop: the condition, the sample, the write, the pause, the statistics. -/
def iteration (it : ℕ × Bool) : List (ℕ × PubAction) := List.replicate 5 (it.1, .main it.2)

/-- Warm-up and reset at `t0`, one turn of the loop for each reading and outcome, then at `tEnd` the
end of the loop, the statements of the result, the report and one `FINALIZATION`. -/
def throughputRun (cfg : Config) (t0 : ℕ) (its : List (ℕ × Bool)) (tEnd : ℕ) :
    List (ℕ × PubAction) :=
  List.replicate (cfg.initBurst + 5) (t0, .main true) ++ its.flatMap iteration ++
    (tEnd, .main true) :: (List.replicate 6 (tEnd, .main true) ++ List.replicate 2 (tEnd, .main true))

variable {T : TypeInterface} {cfg : Config} {args : InputArgs} {s : PubState}

/-- No pong has been counted since the reset. -/
def PubCtx.Quiet (c : PubCtx) : Prop := c.latCount = 0 ∧ c.noHistory = true

variable (T cfg args)

theorem exec_burst (t n i : ℕ) {s : PubState} (hpc : s.pc = .burst i) (hn : i + n = cfg.initBurst) :
    ∃ s', exec (pubStep T cfg args) s (List.replicate n (t, .main true)) = some s' ∧
      s'.pc = .burst cfg.initBurst ∧ s'.ctx = s.ctx := by
  induction n generalizing i s with
  | zero =>
    refine ⟨s, rfl, ?_, rfl⟩
    rw [hpc, ← hn, Nat.add_zero]
  | succ n ih =>
    have hi : i < cfg.initBurst := by omega
    obtain ⟨s', hrun, hpc', hctx⟩ := ih (i + 1)
      (s := { s with
        pc := .burst (i + 1)
        sample := { s.sample with timestampUs := t }
        writes := s.wrote { s.sample with timestampUs := t } true }) rfl (by omega)
    refine ⟨s', ?_, hpc', hctx⟩
    rw [List.replicate_succ, exec_cons]
    exact ⟨_, by simp [pubStep, pubMain, hpc, hi], hrun⟩

/-- Warm-up, settling and the reset of the statistics. -/
theorem exec_warmup (t : ℕ) (history : Bool) (matchedPubs : ℤ) (results : Option Results) :
    ∃ s, exec (pubStep T cfg args) (pubInit T args history matchedPubs results)
        (List.replicate (cfg.initBurst + 5) (t, .main true)) = some s ∧
      s.pc = .loop ∧ s.t0 = t ∧ outcomes s = [] ∧ s.ctx.finishedRemote = false ∧ s.ctx.Quiet := by
  obtain ⟨s₁, h₁, hpc₁, hctx₁⟩ := exec_burst T cfg args t cfg.initBurst 0
    (s := { pubInit T args history matchedPubs results with
      pc := .burst 0
      sample := warmupSample T cfg args T.create }) rfl (Nat.zero_add _)
  have hreset : exec (pubStep T cfg args) (pubInit T args history matchedPubs results)
      ((t, .main true) :: (List.replicate cfg.initBurst (t, .main true) ++
        List.replicate 3 (t, .main true))) = some { s₁ with
          pc := .begin
          sample := T.resize s₁.sample args.datalen
          ctx := resetStats s₁.ctx
          records := [] } := by
    rw [exec_cons]
    refine ⟨_, rfl, exec_append.mpr ⟨s₁, h₁, ?_⟩⟩
    simp [List.replicate, exec, pubStep, pubMain, hpc₁]
  have hbefore := (pubInv_exec hreset).count.before (by simp [PubPc.phase])
  have hsplit : List.replicate (cfg.initBurst + 5) ((t, .main true) : ℕ × PubAction) =
      ((t, .main true) :: (List.replicate cfg.initBurst (t, .main true) ++
        List.replicate 3 (t, .main true))) ++ [(t, .main true)] := by
    rw [List.cons_append, List.append_assoc, ← List.replicate_succ', ← List.replicate_add,
      ← List.replicate_succ]
  rw [hsplit]
  refine ⟨_, exec_snoc.mpr ⟨_, hreset, rfl⟩, rfl, rfl, ?_, ?_, rfl, ?_⟩
  · change (loopWrites s₁.writes).map _ = []
    rw [show loopWrites s₁.writes = [] from hbefore.1]
    rfl
  · change s₁.ctx.finishedRemote = false
    rw [hctx₁]
    rfl
  · change ((s₁.ctx.latHistory.map fun _ => ([] : List ℕ)).getD []).isEmpty = true
    cases s₁.ctx.latHistory <;> rfl

variable {args}

section

variable {T cfg}

theorem pubStep_again {now : ℕ} {ok : Bool} (hpc : s.pc = .loop)
    (ht : u64Sub now s.t0 < timeoutUs args) :
    pubStep T cfg args s (now, .main ok) =
      some { s with pc := .prepare, checks := s.checks ++ [now] } := by
  simp [pubStep, pubMain, hpc, ht]

theorem pubStep_leave {now : ℕ} {ok : Bool} (hpc : s.pc = .loop)
    (ht : ¬ u64Sub now s.t0 < timeoutUs args) :
    pubStep T cfg args s (now, .main ok) =
      some { s with pc := .finish .sort, checks := s.checks ++ [now] } := by
  simp [pubStep, pubMain, hpc, ht]

theorem pubStep_writeOn {now : ℕ} {ok : Bool} (hl : args.latencyTest = false)
    (hpc : s.pc = .write) :
    pubStep T cfg args s (now, .main ok) = some { s with
      pc := .sleep
      total := if ok then s.total + 1 else s.total
      writes := s.wrote s.sample ok } := by
  simp [pubStep, pubMain, hpc, hl]

theorem pubStep_tick {now : ℕ} {ok : Bool} (hp : args.printEverySecond = false) (hpc : s.pc = .tick) :
    pubStep T cfg args s (now, .main ok) = some { s with pc := .loop } := by
  simp [pubStep, pubMain, hpc, hp]

theorem pubStep_finish {now : ℕ} {ok : Bool} {f : FinishPc} (hpc : s.pc = .finish f) :
    pubStep T cfg args s (now, .main ok) = some { s with
      pc := (f.next s.ctx).elim .report .finish
      ctx := { s.ctx with
        latHistory := f.sorted s.ctx.latHistory
        lastSeq := f.stored s.seq s.ctx.lastSeq }
      tmp := f.assign args now s } := by
  simp only [pubStep, pubMain, hpc]

theorem pubStep_report {now : ℕ} {ok : Bool} (hpc : s.pc = .report) :
    pubStep T cfg args s (now, .main ok) = some { s with
      pc := .final 0
      results := appendResult s.tmp s.results
      sample := { s.sample with kind := .finalization, sequenceNumber := s.ctx.lastSeq } } := by
  simp only [pubStep, pubMain, hpc]

theorem pubStep_final {now k : ℕ} {ok : Bool} (hpc : s.pc = .final k) (hk : k < 10)
    (hf : s.ctx.finishedRemote = false) :
    pubStep T cfg args s (now, .main ok) =
      some { s with pc := .finalSleep k, writes := s.wrote s.sample ok } := by
  simp [pubStep, pubMain, hpc, hk, hf]

end

/-- One turn of the loop inside the window. -/
theorem exec_iteration (hl : args.latencyTest = false) (hp : args.printEverySecond = false)
    (hpc : s.pc = .loop) {it : ℕ × Bool} (ht : u64Sub it.1 s.t0 < timeoutUs args) :
    ∃ s', exec (pubStep T cfg args) s (iteration it) = some s' ∧ s'.pc = .loop ∧ s'.t0 = s.t0 ∧
      outcomes s' = outcomes s ++ [it.2] ∧ s'.ctx = s.ctx := by
  obtain ⟨now, ok⟩ := it
  refine ⟨_, exec_cons.mpr ⟨_, pubStep_again hpc ht, exec_cons.mpr ⟨_, rfl,
    exec_cons.mpr ⟨_, pubStep_writeOn hl rfl, exec_cons.mpr ⟨_, rfl, exec_cons.mpr ⟨_,
    pubStep_tick hp rfl, rfl⟩⟩⟩⟩⟩, rfl, rfl, ?_, rfl⟩
  change (loopWrites (s.writes ++ [(_, ok)])).map _ = _
  rw [loopWrites_append_data, List.map_append]
  · rfl
  · exact loopKind_isData args _

/-- **Turns of the loop**, each with its own reading and outcome. -/
theorem exec_iterations (hl : args.latencyTest = false) (hp : args.printEverySecond = false)
    (its : List (ℕ × Bool)) {s : PubState} (hpc : s.pc = .loop)
    (ht : ∀ it ∈ its, u64Sub it.1 s.t0 < timeoutUs args) :
    ∃ s', exec (pubStep T cfg args) s (its.flatMap iteration) = some s' ∧ s'.pc = .loop ∧
      s'.t0 = s.t0 ∧ outcomes s' = outcomes s ++ its.map Prod.snd ∧ s'.ctx = s.ctx := by
  induction its generalizing s with
  | nil => exact ⟨s, rfl, hpc, rfl, by simp, rfl⟩
  | cons it its ih =>
    obtain ⟨m, hm, hpcm, htm, hom, hcm⟩ :=
      exec_iteration T cfg hl hp hpc (ht it List.mem_cons_self)
    obtain ⟨s', hs', hpcs, hts, hos, hcs⟩ := ih hpcm fun jt hj => by
      rw [htm]
      exact ht jt (List.mem_cons_of_mem it hj)
    refine ⟨s', ?_, hpcs, hts.trans htm, ?_, hcs.trans hcm⟩
    · rw [List.flatMap_cons]
      exact exec_append.mpr ⟨m, hm, hs'⟩
    · rw [hos, hom]
      simp

/-- What the statements of the result leave alone. -/
structure PubState.Kept (s s' : PubState) : Prop where
  writes : s'.writes = s.writes
  count : s'.ctx.latCount = s.ctx.latCount
  finished : s'.ctx.finishedRemote = s.ctx.finishedRemote

theorem PubState.Kept.trans {s m s' : PubState} (h : s.Kept m) (h' : m.Kept s') : s.Kept s' :=
  ⟨h'.writes.trans h.writes, h'.count.trans h.count, h'.finished.trans h.finished⟩

/-- **The result gets filled**, from any of its statements on. -/
theorem exec_finish (t k : ℕ) {s : PubState} {f : FinishPc} (hpc : s.pc = .finish f) (hk : 8 ≤ f.index + k) :
    ∃ es s', exec (pubStep T cfg args) s es = some s' ∧ s'.pc = .report ∧ (∀ e ∈ es, e = (t, .main true)) := by
  induction k generalizing s f with
  | zero => cases f <;> simp [FinishPc.index] at hk
  | succ k ih =>
    have hstep : pubStep T cfg args s (t, .main true) = _ := pubStep_finish hpc
    cases hf : f.next s.ctx with
    | none =>
      rw [hf] at hstep
      exact ⟨[(t, .main true)], _, exec_cons.mpr ⟨_, hstep, rfl⟩, rfl, by simp⟩
    | some f' =>
      rw [hf] at hstep
      have hlt := FinishPc.index_lt_of_next hf
      obtain ⟨es, s', hes, hpc', hall⟩ : ∃ es s', exec (pubStep T cfg args) _ es = some s' ∧ _ :=
        ih (s := { s with
          pc := .finish f'
          ctx := { s.ctx with
            latHistory := f.sorted s.ctx.latHistory
            lastSeq := f.stored s.seq s.ctx.lastSeq }
          tmp := f.assign args t s }) rfl (by omega)
      refine ⟨(t, .main true) :: es, s', exec_cons.mpr ⟨_, hstep, hes⟩, hpc', fun e he => ?_⟩
      rcases List.mem_cons.mp he with rfl | he
      · rfl
      · exact hall e he

/-- A statement of the result that is not the last one, and what follows it. -/
theorem exec_finish_cons {s : PubState} {f f' : FinishPc} {now : ℕ} {ok : Bool} {es : List (ℕ × PubAction)}
    {P : PubState → Prop} (hpc : s.pc = .finish f) (hf : f.next s.ctx = some f')
    (h : ∀ m : PubState, m.pc = .finish f' → s.Kept m →
      ∃ s', exec (pubStep T cfg args) m es = some s' ∧ P s') :
    ∃ s', exec (pubStep T cfg args) s ((now, .main ok) :: es) = some s' ∧ P s' := by
  have hstep : pubStep T cfg args s (now, .main ok) = _ := pubStep_finish hpc
  rw [hf] at hstep
  obtain ⟨s', hs', hP⟩ := h { s with
    pc := .finish f'
    ctx := { s.ctx with
      latHistory := f.sorted s.ctx.latHistory
      lastSeq := f.stored s.seq s.ctx.lastSeq }
    tmp := f.assign args now s } rfl ⟨rfl, rfl, rfl⟩
  exact ⟨s', exec_cons.mpr ⟨_, hstep, hs'⟩, hP⟩

/-- The statements of the result where nothing was counted. -/
theorem exec_quietFinish (t : ℕ) {s : PubState} (hpc : s.pc = .finish .sort) (hq : s.ctx.Quiet) :
    ∃ s', exec (pubStep T cfg args) s (List.replicate 6 (t, .main true)) = some s' ∧
      s'.pc = .report ∧ s.Kept s' := by
  obtain ⟨hcount, hhist⟩ := hq
  have hskip : FinishPc.next s.ctx .sort = some .elapsed := by rw [FinishPc.next, if_pos hhist]
  refine exec_finish_cons T cfg hpc hskip fun m₁ h₁ k₁ => ?_
  refine exec_finish_cons T cfg h₁ rfl fun m₂ h₂ k₂ => ?_
  refine exec_finish_cons T cfg h₂ rfl fun m₃ h₃ k₃ => ?_
  have k := (k₁.trans k₂).trans k₃
  have hnone : FinishPc.next m₃.ctx .count = some .minimum := by
    rw [FinishPc.next, if_neg (not_not.mpr (k.count.trans hcount))]
  refine exec_finish_cons T cfg h₃ hnone fun m₄ h₄ k₄ => ?_
  refine exec_finish_cons T cfg h₄ rfl fun m₅ h₅ k₅ => ?_
  exact ⟨_, exec_cons.mpr ⟨_, pubStep_finish h₅, rfl⟩, rfl, ((k.trans k₄).trans k₅).trans ⟨rfl, rfl, rfl⟩⟩

/-- **Every pattern of outcomes is the pattern of a run.** -/
theorem exec_throughputRun (hl : args.latencyTest = false) (hp : args.printEverySecond = false)
    (history : Bool) (matchedPubs : ℤ) (results : Option Results) {t0 tEnd : ℕ} {its : List (ℕ × Bool)}
    (ht : ∀ it ∈ its, u64Sub it.1 t0 < timeoutUs args) (hend : ¬ u64Sub tEnd t0 < timeoutUs args) :
    ∃ p, exec (pubStep T cfg args) (pubInit T args history matchedPubs results)
        (throughputRun cfg t0 its tEnd) = some p ∧
      p.pc = .finalSleep 0 ∧ outcomes p = its.map Prod.snd := by
  obtain ⟨s, hs, hpc, hts, hos, hfs, hqs⟩ := exec_warmup T cfg args t0 history matchedPubs results
  obtain ⟨m, hm, hpcm, htm, hom, hcm⟩ := exec_iterations T cfg hl hp its hpc
    (by rw [hts]; exact ht)
  have hendm : ¬ u64Sub tEnd m.t0 < timeoutUs args := by rw [htm, hts]; exact hend
  obtain ⟨r, hr, hpcr, hkept⟩ : ∃ r, exec (pubStep T cfg args) _ _ = some r ∧ _ :=
    exec_quietFinish T cfg tEnd (s := { m with pc := .finish .sort, checks := m.checks ++ [tEnd] }) rfl
      (by rw [hcm]; exact hqs)
  have hf : r.ctx.finishedRemote = false := hkept.finished.trans (by rw [hcm]; exact hfs)
  refine ⟨_, exec_append.mpr ⟨m, exec_append.mpr ⟨s, hs, hm⟩, exec_cons.mpr ⟨_, pubStep_leave hpcm hendm,
    exec_append.mpr ⟨r, hr, exec_cons.mpr ⟨_, pubStep_report hpcr, exec_cons.mpr ⟨_,
    pubStep_final rfl (by decide) hf, rfl⟩⟩⟩⟩⟩, rfl, ?_⟩
  change (loopWrites (r.writes ++ [(_, true)])).map _ = _
  rw [loopWrites_append_other rfl, hkept.writes]
  exact hom.trans (by rw [hos]; rfl)

end PerftestLite
