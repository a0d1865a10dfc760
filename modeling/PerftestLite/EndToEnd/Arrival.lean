import PerftestLite.Core.Flight
import PerftestLite.Lib.Observer

/-!
# What arrives at the subscriber

The ping topic in a system whose network keeps the order: it may drop what it likes, or nothing at all.
An observer remembers what the subscriber was given since its reset block.

* `inOrder`: the observer, and the assumptions it makes;
* `Arrived`, `arrived_step`: what arrived against what was sent, and the counters and the result of the
  subscriber against what arrived.
-/

set_option autoImplicit false

namespace PerftestLite

open Word Machine Channel

/-- What the subscriber was given since its reset block, with the clock readings. Messages arrive from the
front of the channel, and no data sample before the reset. -/
def inOrder (s : Sys) (ds : List (ℕ × PerftestSample)) : Label → Option (List (ℕ × PerftestSample))
  | .deliverPing i _ =>
    if i = 0 then
      s.pings.head?.bind fun m =>
        if s.sub.pc.late then some (ds ++ [(s.clock, m.sample)])
        else if m.sample.isData then none else some ds
    else none
  | _ => some ds

/-- What the capture does to the caller's results. -/
def captureInto (now : ℕ) (c : SubCtx) (results : Option Results) : Option Results :=
  results.map fun r => if r.hasRoom then r.push (subFillResult now c) else r

/-- What arrived against what was sent, and the subscriber against what arrived. -/
structure Arrived (net : Net) (T : TypeInterface) (results : Option Results) (s : Sys)
    (ds : List (ℕ × PerftestSample)) : Prop where
  early : s.sub.pc.late = false → ds = []
  order : (ds.map Prod.snd ++ s.pings.map Msg.sample).Sublist (sent s.pub.writes)
  complete : net.ping = .ordered → ∃ pre, (∀ x ∈ pre, x.isData = false) ∧
    pre ++ (ds.map Prod.snd ++ s.pings.map Msg.sample) = sent s.pub.writes
  counters : s.sub.pc.late = true → ∃ c, SameCounters s.sub.ctx (subReceive T (subReset c) ds)
  capture : s.sub.pc = .capture → s.sub.ctx.finished = true
  pending : s.sub.pc.captured = false → s.sub.results = results
  captured : s.sub.pc.captured = true → ∃ now c c₀ pre, pre <+: ds ∧
    SameCounters c (subReceive T (subReset c₀) pre) ∧ c.finished = true ∧
      s.sub.results = captureInto now c results

variable {net : Net} {T : TypeInterface} {cfg : Config} {args subArgs : InputArgs} {s s' : Sys}
  {l : Label} {ds ds' : List (ℕ × PerftestSample)} {results : Option Results} {p p' : PubState}

/-! ## What a statement of the publisher sends -/

theorem sent_append (ws : List (PerftestSample × Bool)) (x : PerftestSample) (ok : Bool) :
    sent (ws ++ [(x, ok)]) = sent ws ++ if ok then [x] else [] := by
  cases ok <;> simp [sent]

/-- What goes out is put on the ping topic. -/
theorem sent_main {now : ℕ} {ok : Bool} (hp : pubMain T cfg args now ok p = some p') :
    sent p'.writes = sent p.writes ++
      (messages p.writes.length (p'.writes.drop p.writes.length)).map Msg.sample := by
  rcases pubMain_writes hp with hw | ⟨x, hw, -⟩
  · rw [hw, messages_none, List.map_nil, List.append_nil]
  · rw [hw, messages_drop, sent_append]
    cases ok <;> rfl

/-! ## The main thread of the subscriber -/

/-- A statement of the subscriber: the reset block starts from nothing, the capture takes what is there. -/
theorem Arrived.sub (h : Arrived net T results s ds) {q : SubState}
    (hq : subMain subArgs s.clock s.sub = some q) : Arrived net T results { s with sub := q } ds := by
  obtain ⟨hearly, horder, hcomplete, hcounters, hcapture, hpending, hcaptured⟩ := h
  have hstep : subStep T subArgs s.sub (s.clock, .main) = some q := hq
  -- past the reset block a statement leaves the counters alone
  have hkept : s.sub.pc.late = true → ∃ c, SameCounters q.ctx (subReceive T (subReset c) ds) := by
    intro hl
    obtain ⟨c, hc⟩ := hcounters hl
    exact ⟨c, (late_step hl hstep).2.trans hc⟩
  cases subMain_cases hq with
  | waiting hpc _ => exact ⟨hearly, horder, hcomplete, hcounters, hcapture, hpending, hcaptured⟩
  | matched hpc _ =>
    refine ⟨fun _ => hearly (by rw [hpc]; rfl), horder, hcomplete, fun hl => (by cases hl),
      fun hp => (by cases hp), fun _ => hpending (by rw [hpc]; rfl), fun hc => (by cases hc)⟩
  | reset hpc =>
    have hnil := hearly (by rw [hpc]; rfl)
    refine ⟨fun hl => (by cases hl), horder, hcomplete, fun _ => ⟨s.sub.ctx, ?_⟩,
      fun hp => (by cases hp), fun _ => hpending (by rw [hpc]; rfl), fun hc => (by cases hc)⟩
    rw [hnil]
    exact .refl _
  | finished hpc hf =>
    exact ⟨fun hl => (by cases hl), horder, hcomplete, fun _ => hkept (by rw [hpc]; rfl), fun _ => hf,
      fun _ => hpending (by rw [hpc]; rfl), fun hc => (by cases hc)⟩
  | again hpc _ | sleep hpc | stat hpc _ | statLine hpc _ _ =>
    exact ⟨fun hl => (by cases hl), horder, hcomplete, fun _ => hkept (by rw [hpc]; rfl),
      fun hp => (by cases hp), fun _ => hpending (by rw [hpc]; rfl), fun hc => (by cases hc)⟩
  | line l hpc =>
    have hlate := subLineStep_late s.sub l
    have hcaptured := subLineStep_captured s.sub l
    refine ⟨fun hl => absurd (hlate.symm.trans hl) (by simp), horder, hcomplete,
      fun _ => hkept (by rw [hpc]; rfl), fun hp => ?_, fun _ => ?_,
      fun hc => absurd (hcaptured.symm.trans hc) (by simp)⟩
    · rcases subLineStep_pc s.sub l with h | ⟨l', h⟩
      · cases h.symm.trans hp
      · cases h.symm.trans hp
    · exact (subLineStep_results s.sub l).trans (hpending (by rw [hpc]; rfl))
  | capture hpc =>
    obtain ⟨c, hc⟩ := hcounters (by rw [hpc]; rfl)
    refine ⟨fun hl => (by cases hl), horder, hcomplete, fun _ => hkept (by rw [hpc]; rfl),
      fun hp => (by cases hp), fun hp => (by cases hp), fun _ =>
        ⟨s.clock, s.sub.ctx, c, ds, List.prefix_rfl, hc, hcapture hpc, ?_⟩⟩
    rw [← hpending (by rw [hpc]; rfl)]
    dsimp only
    unfold subCapture captureInto
    cases hres : s.sub.results with
    | none => exact hres
    | some r =>
      dsimp only [Option.map_some]
      split_ifs
      · rfl
      · exact hres
  | shutdown hpc =>
    exact ⟨fun hl => (by cases hl), horder, hcomplete, fun _ => hkept (by rw [hpc]; rfl),
      fun hp => (by cases hp), fun hp => (by cases hp), fun _ => hcaptured (by rw [hpc]; rfl)⟩

/-! ## The system -/

/-- The oldest ping is delivered. -/
theorem Arrived.ping (h : Arrived net T results s ds) {m : Msg} {rest : List Msg} {pongs : List Msg}
    {history : History} (hpings : s.pings = m :: rest) (hwatch :
      (if s.sub.pc.late then some (ds ++ [(s.clock, m.sample)])
        else if m.sample.isData then none else some ds) = some ds') :
    Arrived net T results { s with
      sub := { s.sub with ctx := (subOnSample T s.clock m.sample s.sub.ctx).1 }
      pings := rest
      pongs := pongs
      history := history } ds' := by
  obtain ⟨hearly, horder, hcomplete, hcounters, hcapture, hpending, hcaptured⟩ := h
  rw [hpings] at horder hcomplete
  cases hl : s.sub.pc.late with
  | true =>
    rw [hl, if_pos rfl, Option.some.injEq] at hwatch
    have hlist : ds'.map Prod.snd ++ rest.map Msg.sample =
        ds.map Prod.snd ++ (m :: rest).map Msg.sample := by
      rw [← hwatch, List.map_append, List.append_assoc]
      rfl
    refine ⟨fun he => absurd (hl.symm.trans he) (by simp), by rw [hlist]; exact horder,
      by rw [hlist]; exact hcomplete, fun _ => ?_, fun hpc => subOnSample_finished_mono (hcapture hpc),
      hpending, fun hc => ?_⟩
    · obtain ⟨c, hc⟩ := hcounters hl
      refine ⟨c, ?_⟩
      rw [← hwatch, subReceive_append]
      exact hc.sample s.clock m.sample
    · obtain ⟨now, c, c₀, pre, hpre, hsame⟩ := hcaptured hc
      exact ⟨now, c, c₀, pre, hwatch ▸ hpre.trans (List.prefix_append _ _), hsame⟩
  | false =>
    rw [hl, if_neg Bool.false_ne_true, Option.ite_none_left_eq_some, Option.some.injEq] at hwatch
    obtain ⟨hdata, rfl⟩ := hwatch
    refine ⟨hearly, ?_, fun hn => ?_, fun he => absurd (hl.symm.trans he) (by simp),
      fun hpc => subOnSample_finished_mono (hcapture hpc), hpending, hcaptured⟩
    · exact (List.Sublist.append (List.Sublist.refl _) (List.sublist_cons_self _ _)).trans horder
    · obtain ⟨pre, hpre, hsent⟩ := hcomplete hn
      rw [hearly hl] at hsent ⊢
      refine ⟨pre ++ [m.sample], fun x hx => ?_, ?_⟩
      · rcases List.mem_append.mp hx with hx | hx
        · exact hpre x hx
        · rw [List.mem_singleton.mp hx]
          exact Bool.eq_false_of_not_eq_true hdata
      · rw [← hsent, List.append_assoc]
        rfl

end PerftestLite
