import PerftestLite.Core.System

/-!
# Messages in flight

The publisher reuses one sample and the subscriber echoes what it gets, so whatever is in flight,
and whatever has been answered, is a sample the publisher wrote, unchanged.

* `Genuine`, `genuine_step`: over every network;
* `Sys.copies`, `copies_step`: how often a write is in flight or answered;
* `Once`, `once_step`: at most once, over a network that does not duplicate.
-/

set_option autoImplicit false

namespace PerftestLite

open Word Machine Channel

variable {net : Net} {T : TypeInterface} {cfg : Config} {args subArgs : InputArgs} {s s' : Sys}
  {l : Label}

/-! ## Writes only become more -/

theorem writes_grow (h : SysStep net T cfg args subArgs s l s') : s.pub.writes <+: s'.pub.writes := by
  cases h with
  | pub ok p hp =>
    rcases pubMain_writes hp with hw | ⟨x, hw, -⟩
    · exact hw ▸ List.prefix_rfl
    · exact hw ▸ List.prefix_append _ _
  | _ => exact List.prefix_rfl

/-! ## Genuine messages -/

/-- The message is the sample of a write that succeeded. -/
def Msg.Written (m : Msg) (ws : List (PerftestSample × Bool)) : Prop :=
  ws[m.origin]? = some (m.sample, true)

theorem Msg.Written.mono {m : Msg} {ws ws' : List (PerftestSample × Bool)} (h : m.Written ws)
    (hp : ws <+: ws') : m.Written ws' := by
  obtain ⟨hlt, heq⟩ := List.getElem?_eq_some_iff.mp h
  exact (List.prefix_iff_getElem?.mp hp _ hlt).trans (congrArg some heq)

theorem Msg.Written.lt {m : Msg} {ws : List (PerftestSample × Bool)} (h : m.Written ws) :
    m.origin < ws.length := (List.getElem?_eq_some_iff.mp h).1

theorem Msg.Written.mem {m : Msg} {ws : List (PerftestSample × Bool)} (h : m.Written ws) :
    (m.sample, true) ∈ ws := List.mem_of_getElem? h

/-- Everything in flight was written; plain data is not echoed; what was answered are pings. -/
structure Genuine (s : Sys) : Prop where
  ping : ∀ m ∈ s.pings, m.Written s.pub.writes
  pong : ∀ m ∈ s.pongs, m.Written s.pub.writes ∧ m.sample.kind ≠ .data
  answered : ∀ a ∈ s.history.answered, a.2.Written s.pub.writes ∧ a.2.sample.kind = .dataPing

theorem messages_written {ws : List (PerftestSample × Bool)} {x : PerftestSample} {ok : Bool} {m : Msg}
    (hm : m ∈ messages ws.length ((ws ++ [(x, ok)]).drop ws.length)) :
    m.Written (ws ++ [(x, ok)]) := by
  rw [messages_drop] at hm
  split_ifs at hm with hok
  · rw [List.mem_singleton.mp hm, hok]
    simp [Msg.Written]
  · cases hm

theorem echo_eq {m n : Msg} {now : ℕ} {c : SubCtx} {echoed : Bool}
    (h : n ∈ echoOf m (subOnSample T now m.sample c).2 echoed) : n = m ∧ m.sample.kind ≠ .data := by
  rw [subOnSample_echo] at h
  unfold echoOf at h
  split_ifs at h with he hk
  · simp at h
  · refine ⟨?_, hk⟩
    simpa using h
  · cases h

theorem answered_wait (h : History) (p : PubState) (ok : Bool) : (h.wait p ok).answered = h.answered := by
  unfold History.wait
  split_ifs <;> rfl

theorem answered_ping (h : History) (m : Msg) (c c' : SubCtx) :
    (h.ping m c c').answered = h.answered := by
  unfold History.ping
  split_ifs <;> rfl

theorem answered_pong (h : History) (now : ℕ) (m : Msg) :
    (h.pong now m).answered = if m.sample.isData then h.answered ++ [(now, m)] else h.answered := by
  unfold History.pong
  split_ifs <;> rfl

/-- **Whatever is in flight was written by the publisher, unchanged.** -/
theorem genuine_step (h : Genuine s) (hs : SysStep net T cfg args subArgs s l s') : Genuine s' := by
  have hp := writes_grow hs
  obtain ⟨hping, hpong, hans⟩ := h
  cases hs with
  | tick d | sub q hq | pubMatched change hpc | subMatched change hpc => exact ⟨hping, hpong, hans⟩
  | pub ok p hm =>
    refine ⟨fun m hmem => ?_, fun m hmem => ⟨(hpong m hmem).1.mono hp, (hpong m hmem).2⟩, fun a ha => ?_⟩
    · rcases List.mem_append.mp hmem with hmem | hmem
      · exact (hping m hmem).mono hp
      · change m ∈ messages s.pub.writes.length (p.writes.drop s.pub.writes.length) at hmem
        change m.Written p.writes
        rcases pubMain_writes hm with hw | ⟨x, hw, -⟩
        · rw [hw, messages_none] at hmem
          cases hmem
        · rw [hw] at hmem ⊢
          exact messages_written hmem
    · change a ∈ (s.history.wait s.pub ok).answered at ha
      rw [answered_wait] at ha
      exact ⟨(hans a ha).1.mono hp, (hans a ha).2⟩
  | deliverPing i echoed m rest hd he hpc =>
    have hm := hping m (mem_of_deliver hd)
    refine ⟨fun n hn => hping n (subset_of_deliver hd hn), fun n hn => ?_, fun a ha => ?_⟩
    · rcases List.mem_append.mp hn with hn | hn
      · exact hpong n hn
      · obtain ⟨rfl, hk⟩ := echo_eq hn
        exact ⟨hm, hk⟩
    · change a ∈ (s.history.ping _ _ _).answered at ha
      rw [answered_ping] at ha
      exact hans a ha
  | dropPing i rest hd => exact ⟨fun n hn => hping n (subset_of_drop hd hn), hpong, hans⟩
  | deliverPong i m rest hd hpc =>
    obtain ⟨hm, hk⟩ := hpong m (mem_of_deliver hd)
    refine ⟨hping, fun n hn => hpong n (subset_of_deliver hd hn), fun a ha => ?_⟩
    change a ∈ (s.history.pong s.clock m).answered at ha
    rw [answered_pong] at ha
    split_ifs at ha with hdata
    · rcases List.mem_append.mp ha with ha | ha
      · exact hans a ha
      · rw [List.mem_singleton.mp ha]
        refine ⟨hm, ?_⟩
        cases hkind : m.sample.kind with
        | dataPing => rfl
        | data => exact absurd hkind hk
        | initialization | finalization =>
          rw [PerftestSample.isData_eq hkind] at hdata
          cases hdata
    · exact hans a ha
  | dropPong i rest hd => exact ⟨hping, fun n hn => hpong n (subset_of_drop hd hn), hans⟩

/-! ## Copies -/

/-- How often write number `i` is in flight or has been answered. -/
def Sys.copies (s : Sys) (i : ℕ) : ℕ :=
  (s.pings.map Msg.origin).count i + (s.pongs.map Msg.origin).count i +
    (s.history.answered.map fun a => a.2.origin).count i

/-- What was never written is nowhere. -/
theorem Genuine.copies_eq_zero (h : Genuine s) {i : ℕ} (hi : s.pub.writes.length ≤ i) :
    s.copies i = 0 := by
  have h1 : (s.pings.map Msg.origin).count i = 0 := List.count_eq_zero.mpr fun hm => by
    obtain ⟨m, hmem, rfl⟩ := List.mem_map.mp hm
    exact absurd (h.ping m hmem).lt (by omega)
  have h2 : (s.pongs.map Msg.origin).count i = 0 := List.count_eq_zero.mpr fun hm => by
    obtain ⟨m, hmem, rfl⟩ := List.mem_map.mp hm
    exact absurd (h.pong m hmem).1.lt (by omega)
  have h3 : (s.history.answered.map fun a => a.2.origin).count i = 0 :=
    List.count_eq_zero.mpr fun hm => by
      obtain ⟨a, ha, rfl⟩ := List.mem_map.mp hm
      exact absurd (h.answered a ha).1.lt (by omega)
  rw [Sys.copies, h1, h2, h3]

/-- Delivering takes one copy out of the channel, if the network does not duplicate. -/
theorem count_of_deliver {d : Discipline} (hd : d ≠ .duplicating) {ch rest : List Msg} {i : ℕ}
    {m : Msg} (h : deliver d ch i = some (m, rest)) (j : ℕ) :
    (ch.map Msg.origin).count j = (rest.map Msg.origin).count j + if m.origin = j then 1 else 0 := by
  rw [((perm_of_deliver hd h).map Msg.origin).count_eq, List.map_cons, List.count_cons]
  simp

theorem count_of_drop {d : Discipline} {ch rest : List Msg} {i : ℕ} (h : drop d ch i = some rest)
    (j : ℕ) : (rest.map Msg.origin).count j ≤ (ch.map Msg.origin).count j :=
  ((sublist_of_drop h).map Msg.origin).count_le j

/-- The echo adds at most the copy that was delivered. -/
theorem count_echo (m : Msg) (now : ℕ) (c : SubCtx) (echoed : Bool) (j : ℕ) :
    ((echoOf m (subOnSample T now m.sample c).2 echoed).map Msg.origin).count j ≤
      if m.origin = j then 1 else 0 := by
  rw [subOnSample_echo]
  unfold echoOf
  split_ifs <;> simp_all

/-- **Only a write makes a new copy**, over a network that does not duplicate. -/
theorem copies_step (hd₁ : net.ping ≠ .duplicating) (hd₂ : net.pong ≠ .duplicating)
    (hs : SysStep net T cfg args subArgs s l s') (j : ℕ) :
    s'.copies j ≤ s.copies j + if s.pub.writes.length = j then 1 else 0 := by
  unfold Sys.copies
  cases hs with
  | tick d | sub q hq | pubMatched change hpc | subMatched change hpc => exact Nat.le_add_right _ _
  | pub ok p hm =>
    dsimp only
    rw [answered_wait, List.map_append, List.count_append]
    rcases pubMain_writes hm with hw | ⟨x, hw, -⟩
    · rw [hw, messages_none, List.map_nil, List.count_nil]
      omega
    · rw [hw, messages_drop]
      cases ok with
      | false =>
        rw [if_neg Bool.false_ne_true, List.map_nil, List.count_nil]
        omega
      | true =>
        rw [if_pos rfl, List.map_singleton, List.count_singleton]
        simp only [beq_iff_eq]
        omega
  | deliverPing i echoed m rest hd he hpc =>
    have h1 := count_of_deliver hd₁ hd j
    have h2 := count_echo (T := T) m s.clock s.sub.ctx echoed j
    dsimp only
    rw [answered_ping, List.map_append, List.count_append]
    omega
  | dropPing i rest hd =>
    have := count_of_drop hd j
    dsimp only
    omega
  | deliverPong i m rest hd hpc =>
    have h1 := count_of_deliver hd₂ hd j
    have h2 : ((s.history.pong s.clock m).answered.map fun a => a.2.origin).count j ≤
        (s.history.answered.map fun a => a.2.origin).count j + if m.origin = j then 1 else 0 := by
      rw [answered_pong]
      by_cases hdata : m.sample.isData = true
      · rw [if_pos hdata, List.map_append, List.count_append, List.map_singleton,
          List.count_singleton]
        simp only [beq_iff_eq]
        exact le_rfl
      · rw [if_neg hdata]
        exact Nat.le_add_right _ _
    dsimp only
    omega
  | dropPong i rest hd =>
    have := count_of_drop hd j
    dsimp only
    omega

/-- No write is in flight or answered twice. -/
def Once (s : Sys) : Prop := ∀ i, s.copies i ≤ 1

/-- **A network that does not duplicate answers each write at most once.** -/
theorem once_step (hd₁ : net.ping ≠ .duplicating) (hd₂ : net.pong ≠ .duplicating) (hg : Genuine s)
    (h : Once s) (hs : SysStep net T cfg args subArgs s l s') : Once s' := by
  intro j
  have hstep := copies_step hd₁ hd₂ hs j
  have hj := h j
  split_ifs at hstep with hlen
  · have := hg.copies_eq_zero (Nat.le_of_eq hlen)
    omega
  · omega

/-! ## The start -/

/-- Both engines at their start, nothing in flight. -/
def sysInit (T : TypeInterface) (args : InputArgs) (history : Bool) (matchedPubs : ℤ)
    (results subResults : Option Results) (clock : ℕ) : Sys where
  clock := clock
  pub := pubInit T args history matchedPubs results
  sub := subInit subResults
  pings := []
  pongs := []
  history := .empty

theorem genuine_init (T : TypeInterface) (args : InputArgs) (history : Bool) (matchedPubs : ℤ)
    (results subResults : Option Results) (clock : ℕ) :
    Genuine (sysInit T args history matchedPubs results subResults clock) := by
  constructor <;> simp [sysInit, History.empty]

theorem once_init (T : TypeInterface) (args : InputArgs) (history : Bool) (matchedPubs : ℤ)
    (results subResults : Option Results) (clock : ℕ) :
    Once (sysInit T args history matchedPubs results subResults clock) := by
  intro i
  simp [sysInit, Sys.copies, History.empty]

end PerftestLite
