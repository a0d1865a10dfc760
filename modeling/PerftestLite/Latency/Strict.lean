import PerftestLite.Core.Args
import PerftestLite.Latency.Token

/-!
# Strict ping-pong, best effort

Each ping of latency-test mode is followed by a wait for a token, and a token says nothing about the
pong that gave it. As long as no pong arrives after the wait of its own ping has timed out, every
token is given by the pong it is waited for; one late pong is enough to answer a wait it does not
belong to.

* `Strict`, `strict_step`: the invariant of the runs without late pongs;
* `strict_pingpong`: what they promise;
* `late_pong_ends_wait`: a run with a late pong.
-/

set_option autoImplicit false

namespace PerftestLite

open Word Machine Channel

/-- The pong of write `i` was delivered to `pub_on_pong_sample`. -/
def Sys.Answered (s : Sys) (i : ℕ) : Prop := ∃ a ∈ s.history.answered, a.2.origin = i

/-- The pong of write `i` was delivered, or the wait for it timed out. -/
def Sys.Settled (s : Sys) (i : ℕ) : Prop := s.Answered i ∨ i ∈ s.history.expired

instance (s : Sys) (i : ℕ) : Decidable (s.Answered i) :=
  inferInstanceAs (Decidable (∃ a ∈ s.history.answered, a.2.origin = i))

instance (s : Sys) (i : ℕ) : Decidable (s.Settled i) :=
  inferInstanceAs (Decidable (_ ∨ _))

/-- Every ping that went out is settled when the next one is about to be written, and every wait that
consumed a token consumed the one its own pong gave. -/
def StrictPingPong (s : Sys) : Prop :=
  (s.pub.pc = .write → ∀ (i : ℕ) (x : PerftestSample), s.pub.writes[i]? = some (x, true) →
    x.isData = true → s.Settled i) ∧
  ∀ t ∈ s.history.taken, t.2 = some t.1

/-- The step delivers no pong whose own ping's wait has timed out. -/
def NoLatePong (net : Net) (s : Sys) : Label → Prop
  | .deliverPong i => ∀ d ∈ deliver net.pong s.pongs i,
      d.1.sample.isData = true → d.1.origin ∉ s.history.expired
  | _ => True

instance (net : Net) (s : Sys) (l : Label) : Decidable (NoLatePong net s l) := by
  cases l <;> unfold NoLatePong <;> infer_instance

/-- What holds along a run without late pongs. -/
structure Strict (s : Sys) : Prop where
  live : s.pub.ctx.latencySem.Live
  token : s.pub.ctx.latencySem.token = s.history.giver.isSome
  settled : ∀ (i : ℕ) (x : PerftestSample), s.pub.writes[i]? = some (x, true) → x.isData = true →
    s.Settled i ∨ s.pub.pc.waiting = true ∧ i = s.pub.waitsFor
  giver : ∀ g, s.history.giver = some g →
    s.pub.pc.waiting = true ∧ g = s.pub.waitsFor ∧ s.Answered g
  taken : ∀ t ∈ s.history.taken, t.2 = some t.1

section

variable {net : Net} {T : TypeInterface} {cfg : Config} {args subArgs : InputArgs} {s s' : Sys}
  {l : Label}

/-- A statement of the publisher. -/
theorem Strict.pub (h : Strict s) (ho : PubOrder args s.pub) (hl : args.latencyTest = true) {ok : Bool}
    {p : PubState} (hp : pubMain T cfg args s.clock ok s.pub = some p) (pings : List Msg) :
    Strict { s with pub := p, pings := pings, history := s.history.wait s.pub ok } := by
  obtain ⟨hlive, htoken, hset, hgiver, htaken⟩ := h
  rcases pubMain_wait ho hl hp with ⟨hpc, hw', hctx, rfl, hw⟩ |
    ⟨hw, hpc', hws, rfl, htok, hctx⟩ | ⟨hw, hpc', hws, rfl, htok, hctx, -⟩ | hq
  · -- the wait for a new ping begins; nothing gave a token yet
    have hnw : s.pub.pc.waiting = false := by rw [hpc]; rfl
    have hhist : s.history.wait s.pub true = s.history := by simp [History.wait, hnw]
    have hnone : s.history.giver = none := by
      cases hg : s.history.giver with
      | none => rfl
      | some g =>
        have := (hgiver g hg).1
        rw [hnw] at this
        cases this
    rw [hhist]
    refine ⟨by rw [hctx]; exact hlive, by rw [hctx]; exact htoken, fun i x hi hx => ?_, fun g hg => ?_,
      htaken⟩
    · change p.writes[i]? = some (x, true) at hi
      rw [hw, List.getElem?_append] at hi
      split_ifs at hi with hlt
      · rcases hset i x hi hx with hs | ⟨hs, -⟩
        · exact .inl hs
        · rw [hnw] at hs
          cases hs
      · refine .inr ⟨hw', ?_⟩
        have hi' := (List.getElem?_eq_some_iff.mp hi).1
        rw [List.length_singleton] at hi'
        change i = p.writes.length - 1
        rw [hw, List.length_append, List.length_singleton]
        omega
    · rw [hnone] at hg
      cases hg
  · -- the wait consumes the token its own pong gave
    obtain ⟨g, hg⟩ := Option.isSome_iff_exists.mp (htoken.symm.trans htok)
    obtain ⟨-, hgw, hans⟩ := hgiver g hg
    have hhist : s.history.wait s.pub true = { s.history with
        taken := s.history.taken ++ [(s.pub.waitsFor, s.history.giver)], giver := none } := by
      simp [History.wait, hw]
    rw [hhist]
    refine ⟨?_, ?_, fun i x hi hx => .inl ?_, fun g' hg' => ?_, fun t ht => ?_⟩
    · rw [hctx]
      exact hlive.take.1
    · rw [hctx]
      exact hlive.take.2
    · change p.writes[i]? = some (x, true) at hi
      rw [hws] at hi
      rcases hset i x hi hx with hs | ⟨-, rfl⟩
      · exact hs
      · exact .inl (hgw ▸ hans)
    · cases hg'
    · rcases List.mem_append.mp ht with ht | ht
      · exact htaken t ht
      · rw [List.mem_singleton.mp ht, hg, hgw]
  · -- the wait times out
    have hnone : s.history.giver = none := by
      refine Option.not_isSome_iff_eq_none.mp ?_
      rw [← htoken, htok]
      exact Bool.false_ne_true
    have hhist : s.history.wait s.pub false =
        { s.history with expired := s.history.expired ++ [s.pub.waitsFor] } := by
      simp [History.wait, hw]
    rw [hhist]
    refine ⟨by rw [hctx]; exact hlive, by rw [hctx]; exact htoken, fun i x hi hx => .inl ?_,
      fun g hg => ?_, htaken⟩
    · change p.writes[i]? = some (x, true) at hi
      rw [hws] at hi
      rcases hset i x hi hx with hs | ⟨-, rfl⟩
      · exact hs.imp id fun he => List.mem_append_left _ he
      · exact .inr (List.mem_append_right _ (List.mem_singleton_self _))
    · change s.history.giver = some g at hg
      rw [hnone] at hg
      cases hg
  · -- nothing about waits
    have hhist : s.history.wait s.pub ok = s.history := by simp [History.wait, hq.before]
    rw [hhist]
    refine ⟨by rw [hq.sem]; exact hlive, by rw [hq.sem]; exact htoken, fun i x hi hx => ?_,
      fun g hg => ?_, htaken⟩
    · rcases hset i x (hq.writes i x hi hx) hx with hs | ⟨hs, -⟩
      · exact .inl hs
      · rw [hq.before] at hs
        cases hs
    · have := (hgiver g hg).1
      rw [hq.before] at this
      cases this

/-- A pong, not late: it gives the token the wait is for. -/
theorem Strict.pong (h : Strict s) (hg : Genuine s) (hone : Once s) {i : ℕ} {m : Msg} {rest : List Msg}
    (hd : deliver net.pong s.pongs i = some (m, rest))
    (hlate : m.sample.isData = true → m.origin ∉ s.history.expired) :
    Strict { s with
      pub := s.pub.pong cfg s.clock m.sample
      pongs := rest
      history := s.history.pong s.clock m } := by
  obtain ⟨hlive, htoken, hset, hgiver, htaken⟩ := h
  by_cases hdata : m.sample.isData = true
  · have hmem := mem_of_deliver hd
    have hnot : ¬ s.Answered m.origin := by
      rintro ⟨a, ha, hao⟩
      have h1 : 0 < (s.pongs.map Msg.origin).count m.origin :=
        List.count_pos_iff.mpr (List.mem_map_of_mem hmem)
      have h2 : 0 < (s.history.answered.map fun a => a.2.origin).count m.origin :=
        List.count_pos_iff.mpr (List.mem_map.mpr ⟨a, ha, hao⟩)
      have := hone m.origin
      unfold Sys.copies at this
      omega
    have hwait : s.pub.pc.waiting = true ∧ m.origin = s.pub.waitsFor := by
      rcases hset m.origin m.sample (hg.pong m hmem).1 hdata with hs | hs
      · exact absurd hs (not_or.mpr ⟨hnot, hlate hdata⟩)
      · exact hs
    have hhist : s.history.pong s.clock m = { s.history with
        answered := s.history.answered ++ [(s.clock, m)]
        giver := if s.history.giver.isSome then s.history.giver else some m.origin } := by
      simp [History.pong, hdata]
    have hsem : (s.pub.pong cfg s.clock m.sample).ctx.latencySem = s.pub.ctx.latencySem.give := by
      change (pubOnPongSample cfg s.clock m.sample s.pub.ctx).latencySem = _
      rw [pubOnPongSample_sem, if_pos hdata]
    have hgrow : ∀ j, s.Answered j →
        ∃ a ∈ s.history.answered ++ [(s.clock, m)], a.2.origin = j := by
      rintro j ⟨a, ha, hao⟩
      exact ⟨a, List.mem_append_left _ ha, hao⟩
    rw [hhist]
    refine ⟨by rw [hsem]; exact hlive.give.1, ?_, fun j x hj hx => ?_, fun g hgv => ?_, htaken⟩
    · rw [hsem, hlive.give.2]
      cases hgs : s.history.giver <;> simp
    · rcases hset j x hj hx with (hs | hs) | hs
      · exact .inl (.inl (hgrow j hs))
      · exact .inl (.inr hs)
      · exact .inr hs
    · change (if s.history.giver.isSome then s.history.giver else some m.origin) = some g at hgv
      split_ifs at hgv with hsome
      · obtain ⟨h1, h2, h3⟩ := hgiver g hgv
        exact ⟨h1, h2, hgrow g h3⟩
      · cases hgv
        exact ⟨hwait.1, hwait.2, (s.clock, m), by simp, rfl⟩
  · have hhist : s.history.pong s.clock m = s.history := by simp [History.pong, hdata]
    have hsem : (s.pub.pong cfg s.clock m.sample).ctx.latencySem = s.pub.ctx.latencySem := by
      change (pubOnPongSample cfg s.clock m.sample s.pub.ctx).latencySem = _
      rw [pubOnPongSample_sem, if_neg hdata]
    rw [hhist]
    exact ⟨by rw [hsem]; exact hlive, by rw [hsem]; exact htoken, hset, hgiver, htaken⟩

/-- What a step that touches neither the publisher nor the waits leaves alone. -/
theorem Strict.frame (h : Strict s) (hpub : s'.pub = s.pub)
    (ha : s'.history.answered = s.history.answered) (he : s'.history.expired = s.history.expired)
    (hg : s'.history.giver = s.history.giver) (ht : s'.history.taken = s.history.taken) :
    Strict s' := by
  obtain ⟨hlive, htoken, hset, hgiver, htaken⟩ := h
  have hans : ∀ j, s'.Answered j ↔ s.Answered j := fun j => by
    unfold Sys.Answered
    rw [ha]
  have hsettled : ∀ j, s'.Settled j ↔ s.Settled j := fun j => by
    unfold Sys.Settled
    rw [hans, he]
  refine ⟨by rw [hpub]; exact hlive, by rw [hpub, hg]; exact htoken, ?_, ?_, by rw [ht]; exact htaken⟩
  · rw [hpub]
    exact fun i x hi hx => (hset i x hi hx).imp (hsettled i).mpr id
  · rw [hpub, hg]
    exact fun g hgv => ⟨(hgiver g hgv).1, (hgiver g hgv).2.1, (hans g).mpr (hgiver g hgv).2.2⟩

theorem strict_step (hl : args.latencyTest = true) (ho : PubOrder args s.pub) (hg : Genuine s)
    (hone : Once s) (h : Strict s) (hP : NoLatePong net s l)
    (hs : SysStep net T cfg args subArgs s l s') : Strict s' := by
  cases hs with
  | pub ok p hp => exact h.pub ho hl hp _
  | deliverPong i m rest hd hpc => exact h.pong hg hone hd (hP (m, rest) hd)
  | pubMatched change hpc =>
    refine ⟨by simpa using h.live, by simpa using h.token, h.settled, h.giver, h.taken⟩
  | deliverPing i echoed m rest hd he hpc =>
    have hh : ∀ c c', (s.history.ping m c c').answered = s.history.answered ∧
        (s.history.ping m c c').expired = s.history.expired ∧
        (s.history.ping m c c').giver = s.history.giver ∧
        (s.history.ping m c c').taken = s.history.taken := by
      intro c c'
      unfold History.ping
      split_ifs <;> exact ⟨rfl, rfl, rfl, rfl⟩
    exact h.frame rfl (hh _ _).1 (hh _ _).2.1 (hh _ _).2.2.1 (hh _ _).2.2.2
  | tick d | sub q hq | subMatched change hpc | dropPing i rest hd | dropPong i rest hd =>
    exact h.frame rfl rfl rfl rfl rfl

theorem strict_init (T : TypeInterface) (args : InputArgs) (history : Bool) (matchedPubs : ℤ)
    (results subResults : Option Results) (clock : ℕ) :
    Strict (sysInit T args history matchedPubs results subResults clock) :=
  ⟨⟨false, rfl⟩, rfl, by simp [sysInit, pubInit], by simp [sysInit, History.empty],
    by simp [sysInit, History.empty]⟩

/-- **Strict ping-pong without late pongs.** In latency-test mode, over a network that may delay,
reorder and drop but does not duplicate, in every run on which no pong arrives after the wait of its
own ping has timed out: between a ping and the next its pong was delivered or its wait timed out, and
no wait was ended by the pong of another ping. -/
theorem strict_pingpong {history : Bool} {matchedPubs : ℤ} {results subResults : Option Results}
    {clock : ℕ} {ls : List Label} (hl : args.latencyTest = true)
    (hd₁ : net.ping ≠ .duplicating) (hd₂ : net.pong ≠ .duplicating)
    (hrun : exec (sysStep net T cfg args subArgs)
      (sysInit T args history matchedPubs results subResults clock) ls = some s)
    (hP : Along (sysStep net T cfg args subArgs) (NoLatePong net)
      (sysInit T args history matchedPubs results subResults clock) ls) : StrictPingPong s := by
  have h := exec_invariant_along
    (I := fun s => PubInv args s.pub ∧ Genuine s ∧ Once s ∧ Strict s)
    (fun s l s' h hP hs => by
      obtain ⟨hi, hg, hone, hst⟩ := h
      have hs' := sysStep_cases hs
      exact ⟨sys_pubInv hi hs', genuine_step hg hs', once_step hd₁ hd₂ hg hone hs',
        strict_step hl hi.order hg hone hst hP hs'⟩)
    hrun hP ⟨pubInv_init _ _ _ _ _, genuine_init _ _ _ _ _ _ _, once_init _ _ _ _ _ _ _,
      strict_init _ _ _ _ _ _ _⟩
  obtain ⟨-, -, -, hst⟩ := h
  refine ⟨fun hpc i x hi hx => ?_, hst.taken⟩
  rcases hst.settled i x hi hx with hs | ⟨hw, -⟩
  · exact hs
  · rw [hpc] at hw
    cases hw

end

/-! ## A pong that comes late -/

/-- A publisher started with `-latencyTest`. -/
def latencyArgs : InputArgs := { publisherDefaults with latencyTest := true }

/-- Delay, reordering and loss on both topics. -/
def bestEffort : Net := ⟨.unordered, .unordered, true⟩

/-- The system at its start, the clock at one second. -/
def latencyStart : Sys := sysInit sequenceType latencyArgs false 1 none none 1000000

/-- Warm-up and reset. -/
def warmupLabels : List Label := List.replicate (defaultConfig.initBurst + 5) (.pub true)

/-- One ping: condition, sample and write. It is number 50 in flight, behind the warm-up burst. -/
def pingLabels : List Label := List.replicate 3 (.pub true)

/-- From the end of a wait to the sample of the next ping: pause, statistics, condition, sample. -/
def nextLabels : List Label := List.replicate 4 (.pub true)

/-- The ping is answered and its pong ends the wait. -/
def answeredPing : List Label :=
  warmupLabels ++ pingLabels ++ [.deliverPing 50 true, .tick 90, .deliverPong 0, .pub true] ++ nextLabels

/-- The first wait times out, then the pong of the first ping ends the wait for the second. -/
def latePong : List Label :=
  warmupLabels ++ pingLabels ++ [.deliverPing 50 true, .tick 200000, .pub false, .pub true, .pub true] ++
    pingLabels ++ [.deliverPong 0, .pub true] ++ nextLabels

/-- The system after a run from `latencyStart`. -/
def latencyEnd (ls : List Label) : Sys :=
  (exec (sysStep bestEffort sequenceType defaultConfig latencyArgs subscriberDefaults) latencyStart ls).getD
    latencyStart

theorem exec_answeredPing :
    exec (sysStep bestEffort sequenceType defaultConfig latencyArgs subscriberDefaults) latencyStart
      answeredPing = some (latencyEnd answeredPing) := by
  decide +kernel

theorem along_answeredPing :
    Along (sysStep bestEffort sequenceType defaultConfig latencyArgs subscriberDefaults)
      (NoLatePong bestEffort) latencyStart answeredPing := by
  decide +kernel

theorem strict_pingpong_answered : StrictPingPong (latencyEnd answeredPing) :=
  strict_pingpong rfl (by decide) (by decide) exec_answeredPing along_answeredPing

/-- The second ping is about to be followed by a third; it is neither answered nor timed out, and its
wait consumed the token of the first. -/
theorem late_pong_ends_wait :
    parseArguments sequenceType (configDefaults .publisher) ["perftest", "-latencyTest"] = .ok latencyArgs ∧
      exec (sysStep bestEffort sequenceType defaultConfig latencyArgs subscriberDefaults) latencyStart
        latePong = some (latencyEnd latePong) ∧
      (latencyEnd latePong).pub.pc = .write ∧
      ((latencyEnd latePong).pub.writes[51]?.map fun w => (w.1.kind, w.2)) = some (.dataPing, true) ∧
      ¬ (latencyEnd latePong).Settled 51 ∧
      (latencyEnd latePong).history.taken = [(51, some 50)] := by
  decide +kernel

end PerftestLite
