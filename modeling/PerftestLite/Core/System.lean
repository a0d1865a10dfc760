import PerftestLite.Core.PublisherRun
import PerftestLite.Core.SubscriberRun
import PerftestLite.Lib.Channel

/-!
# Publisher, subscriber and the two topics between them

`sysStep` interleaves the publisher, the subscriber, the messages in flight on the ping and the pong
topic and the clock, which never goes back. What the network may do is a parameter, a discipline for
each topic, and so is whether the write of an echo may fail.

A message carries the index of the write of the publisher that it goes back to. This number and the
`History` are ghost state: no statement of either engine reads them.

* `SysStep`, `sysStep_cases`: what a step can do;
* `sys_pub`, `sys_sub`: the two engines inside a step of the system;
* `pubMain_writes`: what a statement of the publisher puts on the ping topic.
-/

set_option autoImplicit false

namespace PerftestLite

open Word Machine Channel

/-- A sample in flight and the write it goes back to. -/
structure Msg where
  sample : PerftestSample
  origin : ℕ
  deriving DecidableEq, Repr

/-- What the network may do, and whether the write of an echo may fail. -/
structure Net where
  ping : Discipline
  pong : Discipline
  echoMayFail : Bool
  deriving DecidableEq, Repr

/-- What has happened so far. -/
structure History where
  /-- The pongs of data samples delivered to `pub_on_pong_sample`, with the clock readings. -/
  answered : List (ℕ × Msg)
  /-- The pings whose wait timed out. -/
  expired : List ℕ
  /-- The ping whose pong set the token that is there now. -/
  giver : Option ℕ
  /-- The waits that consumed a token: the ping waited for and the giver of the token. -/
  taken : List (ℕ × Option ℕ)
  /-- The `FINALIZATION` samples processed by the subscriber: the number carried, the loss counted
  before and after. -/
  finals : List (ℤ × ℕ × ℕ)
  deriving DecidableEq, Repr

/-- Nothing yet. -/
def History.empty : History := ⟨[], [], none, [], []⟩

structure Sys where
  clock : ℕ
  pub : PubState
  sub : SubState
  pings : List Msg
  pongs : List Msg
  history : History
  deriving DecidableEq

inductive Label
  | tick (d : ℕ)
  | pub (ok : Bool)
  | sub
  | pubMatched (change : ℤ)
  | subMatched (change : ℤ)
  | deliverPing (i : ℕ) (echoed : Bool)
  | dropPing (i : ℕ)
  | deliverPong (i : ℕ)
  | dropPong (i : ℕ)
  deriving DecidableEq, Repr

/-- The messages of the writes that succeed: those of `ws`, numbered from `n`. -/
def messages (n : ℕ) (ws : List (PerftestSample × Bool)) : List Msg :=
  (ws.zipIdx n).filterMap fun w => if w.1.2 then some ⟨w.1.1, w.2⟩ else none

/-- The ping the main thread waits for: its last write. -/
def PubState.waitsFor (p : PubState) : ℕ := p.writes.length - 1

/-- Inside `semaphore_take`. -/
def PubPc.waiting : PubPc → Bool
  | .wait _ => true
  | _ => false

/-- A return from `semaphore_take`, with a token or without. -/
def History.wait (h : History) (p : PubState) (ok : Bool) : History :=
  if p.pc.waiting then
    if ok then { h with taken := h.taken ++ [(p.waitsFor, h.giver)], giver := none }
    else { h with expired := h.expired ++ [p.waitsFor] }
  else h

/-- A pong delivered to the publisher. -/
def History.pong (h : History) (now : ℕ) (m : Msg) : History :=
  if m.sample.isData then
    { h with
      answered := h.answered ++ [(now, m)]
      giver := if h.giver.isSome then h.giver else some m.origin }
  else h

/-- A ping delivered to the subscriber whose context goes from `c` to `c'`. -/
def History.ping (h : History) (m : Msg) (c c' : SubCtx) : History :=
  if m.sample.kind = .finalization then
    { h with finals := h.finals ++ [(m.sample.sequenceNumber, c.lostSamples, c'.lostSamples)] }
  else h

/-- The echo put on the pong topic, if its write succeeds. -/
def echoOf (m : Msg) (echo : Option PerftestSample) (echoed : Bool) : List Msg :=
  if echoed then echo.toList.map fun y => ⟨y, m.origin⟩ else []

/-- One step of the system. -/
def sysStep (net : Net) (T : TypeInterface) (cfg : Config) (args subArgs : InputArgs) (s : Sys) :
    Label → Option Sys
  | .tick d => some { s with clock := s.clock + d }
  | .pub ok => (pubStep T cfg args s.pub (s.clock, .main ok)).map fun p =>
      { s with
        pub := p
        pings := s.pings ++ messages s.pub.writes.length (p.writes.drop s.pub.writes.length)
        history := s.history.wait s.pub ok }
  | .sub => (subStep T subArgs s.sub (s.clock, .main)).map fun q => { s with sub := q }
  | .pubMatched change => (pubStep T cfg args s.pub (s.clock, .matched change)).map fun p =>
      { s with pub := p }
  | .subMatched change => (subStep T subArgs s.sub (s.clock, .matched change)).map fun q =>
      { s with sub := q }
  | .deliverPing i echoed =>
    (deliver net.ping s.pings i).bind fun d =>
      if echoed = false ∧ net.echoMayFail = false then none
      else (subStep T subArgs s.sub (s.clock, .sample d.1.sample)).map fun q =>
        { s with
          sub := q
          pings := d.2
          pongs := s.pongs ++ echoOf d.1 (subOnSample T s.clock d.1.sample s.sub.ctx).2 echoed
          history := s.history.ping d.1 s.sub.ctx q.ctx }
  | .dropPing i => (drop net.ping s.pings i).map fun ch => { s with pings := ch }
  | .deliverPong i =>
    (deliver net.pong s.pongs i).bind fun d =>
      (pubStep T cfg args s.pub (s.clock, .pong d.1.sample)).map fun p =>
        { s with pub := p, pongs := d.2, history := s.history.pong s.clock d.1 }
  | .dropPong i => (drop net.pong s.pongs i).map fun ch => { s with pongs := ch }

/-- What one step of the system can do. -/
inductive SysStep (net : Net) (T : TypeInterface) (cfg : Config) (args subArgs : InputArgs)
    (s : Sys) : Label → Sys → Prop
  | tick (d : ℕ) : SysStep net T cfg args subArgs s (.tick d) { s with clock := s.clock + d }
  | pub (ok : Bool) (p : PubState) : pubMain T cfg args s.clock ok s.pub = some p →
      SysStep net T cfg args subArgs s (.pub ok) { s with
        pub := p
        pings := s.pings ++ messages s.pub.writes.length (p.writes.drop s.pub.writes.length)
        history := s.history.wait s.pub ok }
  | sub (q : SubState) : subMain subArgs s.clock s.sub = some q →
      SysStep net T cfg args subArgs s .sub { s with sub := q }
  | pubMatched (change : ℤ) : s.pub.pc ≠ .done →
      SysStep net T cfg args subArgs s (.pubMatched change)
        { s with pub := { s.pub with ctx := pubOnReaderMatched change s.pub.ctx } }
  | subMatched (change : ℤ) : s.sub.pc ≠ .done →
      SysStep net T cfg args subArgs s (.subMatched change)
        { s with sub := { s.sub with ctx := subOnReaderMatched change s.sub.ctx } }
  | deliverPing (i : ℕ) (echoed : Bool) (m : Msg) (rest : List Msg) :
      deliver net.ping s.pings i = some (m, rest) → (net.echoMayFail = false → echoed = true) →
      s.sub.pc ≠ .done →
      SysStep net T cfg args subArgs s (.deliverPing i echoed) { s with
        sub := { s.sub with ctx := (subOnSample T s.clock m.sample s.sub.ctx).1 }
        pings := rest
        pongs := s.pongs ++ echoOf m (subOnSample T s.clock m.sample s.sub.ctx).2 echoed
        history := s.history.ping m s.sub.ctx (subOnSample T s.clock m.sample s.sub.ctx).1 }
  | dropPing (i : ℕ) (rest : List Msg) : drop net.ping s.pings i = some rest →
      SysStep net T cfg args subArgs s (.dropPing i) { s with pings := rest }
  | deliverPong (i : ℕ) (m : Msg) (rest : List Msg) :
      deliver net.pong s.pongs i = some (m, rest) → s.pub.pc ≠ .done →
      SysStep net T cfg args subArgs s (.deliverPong i) { s with
        pub := s.pub.pong cfg s.clock m.sample
        pongs := rest
        history := s.history.pong s.clock m }
  | dropPong (i : ℕ) (rest : List Msg) : drop net.pong s.pongs i = some rest →
      SysStep net T cfg args subArgs s (.dropPong i) { s with pongs := rest }

variable {net : Net} {T : TypeInterface} {cfg : Config} {args subArgs : InputArgs} {s s' : Sys}
  {l : Label}

/-- **Every step of the system is one of `SysStep`.** -/
theorem sysStep_cases (h : sysStep net T cfg args subArgs s l = some s') :
    SysStep net T cfg args subArgs s l s' := by
  cases l with
  | tick d =>
    cases h
    exact .tick d
  | pub ok =>
    obtain ⟨p, hp, rfl⟩ := Option.map_eq_some_iff.mp h
    exact .pub ok p hp
  | sub =>
    obtain ⟨q, hq, rfl⟩ := Option.map_eq_some_iff.mp h
    exact .sub q hq
  | pubMatched change =>
    obtain ⟨p, hp, rfl⟩ := Option.map_eq_some_iff.mp h
    simp only [pubStep, Option.ite_none_left_eq_some, Option.some.injEq] at hp
    rw [← hp.2]
    exact .pubMatched change hp.1
  | subMatched change =>
    obtain ⟨q, hq, rfl⟩ := Option.map_eq_some_iff.mp h
    simp only [subStep, Option.ite_none_left_eq_some, Option.some.injEq] at hq
    rw [← hq.2]
    exact .subMatched change hq.1
  | deliverPing i echoed =>
    obtain ⟨⟨m, rest⟩, hd, hq⟩ := Option.bind_eq_some_iff.mp h
    simp only [Option.ite_none_left_eq_some, not_and] at hq
    obtain ⟨q, hq', rfl⟩ := Option.map_eq_some_iff.mp hq.2
    simp only [subStep, Option.ite_none_left_eq_some, Option.some.injEq] at hq'
    rw [← hq'.2]
    refine .deliverPing i echoed m rest hd (fun hn => ?_) hq'.1
    cases echoed with
    | true => rfl
    | false => exact absurd hn (hq.1 rfl)
  | dropPing i =>
    obtain ⟨rest, hd, rfl⟩ := Option.map_eq_some_iff.mp h
    exact .dropPing i rest hd
  | deliverPong i =>
    obtain ⟨⟨m, rest⟩, hd, hp⟩ := Option.bind_eq_some_iff.mp h
    obtain ⟨p, hp', rfl⟩ := Option.map_eq_some_iff.mp hp
    simp only [pubStep, Option.ite_none_left_eq_some, Option.some.injEq] at hp'
    rw [← hp'.2]
    exact .deliverPong i m rest hd hp'.1
  | dropPong i =>
    obtain ⟨rest, hd, rfl⟩ := Option.map_eq_some_iff.mp h
    exact .dropPong i rest hd

/-! ## The engines inside the system -/

/-- A step of the system is at most one step of the publisher. -/
theorem sys_pub (h : SysStep net T cfg args subArgs s l s') :
    s'.pub = s.pub ∨ ∃ a, pubStep T cfg args s.pub (s.clock, a) = some s'.pub := by
  cases h with
  | pub ok p hp => exact .inr ⟨.main ok, hp⟩
  | pubMatched change hpc => exact .inr ⟨.matched change, by simp [pubStep, hpc]⟩
  | deliverPong i m rest hd hpc => exact .inr ⟨.pong m.sample, by simp [pubStep, hpc]⟩
  | _ => exact .inl rfl

/-- A step of the system is at most one step of the subscriber. -/
theorem sys_sub (h : SysStep net T cfg args subArgs s l s') :
    s'.sub = s.sub ∨ ∃ a, subStep T subArgs s.sub (s.clock, a) = some s'.sub := by
  cases h with
  | sub q hq => exact .inr ⟨.main, hq⟩
  | subMatched change hpc => exact .inr ⟨.matched change, by simp [subStep, hpc]⟩
  | deliverPing i echoed m rest hd he hpc => exact .inr ⟨.sample m.sample, by simp [subStep, hpc]⟩
  | _ => exact .inl rfl

/-- **What the steps of the publisher preserve, the steps of the system preserve.** -/
theorem sys_pub_invariant {I : PubState → Prop}
    (hI : ∀ p a p', I p → pubStep T cfg args p (s.clock, a) = some p' → I p') (h : I s.pub)
    (hs : SysStep net T cfg args subArgs s l s') : I s'.pub := by
  rcases sys_pub hs with he | ⟨a, ha⟩
  · rw [he]
    exact h
  · exact hI _ a _ h ha

/-- The clock never goes back. -/
theorem sys_clock_le (hs : SysStep net T cfg args subArgs s l s') : s.clock ≤ s'.clock := by
  cases hs with
  | tick d => exact Nat.le_add_right _ _
  | _ => exact le_rfl

/-- The publisher of a system keeps what every run of the publisher keeps. -/
theorem sys_pubInv (h : PubInv args s.pub) (hs : SysStep net T cfg args subArgs s l s') :
    PubInv args s'.pub :=
  sys_pub_invariant (fun _ _ _ hi hp => pubInv_step hi hp) h hs

/-! ## What a step of the main thread writes -/

/-- A statement writes at most one sample: none, a warm-up sample, the sample of the loop or a
`FINALIZATION`. -/
theorem pubMain_writes {now : ℕ} {ok : Bool} {p p' : PubState}
    (h : pubMain T cfg args now ok p = some p') :
    p'.writes = p.writes ∨ ∃ x, p'.writes = p.writes ++ [(x, ok)] ∧
      (p.pc = .write ∧ x = p.sample ∨ (∃ i, p.pc = .burst i) ∧ x = { p.sample with timestampUs := now } ∨
        (∃ k, p.pc = .final k) ∧ x = p.sample) := by
  cases pubMain_cases h with
  | burst i hpc hi => exact .inr ⟨_, rfl, .inr (.inl ⟨⟨i, hpc⟩, rfl⟩)⟩
  | writeWait hpc hok _ _ => exact .inr ⟨_, by rw [hok]; rfl, .inl ⟨hpc, rfl⟩⟩
  | writeOn hpc _ => exact .inr ⟨_, rfl, .inl ⟨hpc, rfl⟩⟩
  | final k hpc _ _ => exact .inr ⟨_, rfl, .inr (.inr ⟨⟨k, hpc⟩, rfl⟩)⟩
  | _ => exact .inl rfl

/-- The messages a statement puts on the ping topic. -/
theorem messages_drop {ws : List (PerftestSample × Bool)} {x : PerftestSample} {ok : Bool} :
    messages ws.length ((ws ++ [(x, ok)]).drop ws.length) =
      if ok then [⟨x, ws.length⟩] else [] := by
  cases ok <;> simp [messages]

theorem messages_none (ws : List (PerftestSample × Bool)) :
    messages ws.length (ws.drop ws.length) = [] := by
  simp [messages]

end PerftestLite
