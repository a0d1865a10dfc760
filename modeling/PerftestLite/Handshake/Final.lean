import PerftestLite.Core.Args
import PerftestLite.Core.Flight

/-!
# The finalization handshake

The publisher writes `FINALIZATION` until one comes back, the subscriber corrects the loss once and
echoes every one it gets. Nothing here assumes anything about the network: samples may be lost,
delayed, reordered and duplicated on both topics.

* `PubInv.stamp_last`: what a `FINALIZATION` carries;
* `Announced`, `announced_step`: an answer to the publisher means a `FINALIZATION` was processed;
* `Corrected`, `corrected_step`: from the polling loop on, the loss is corrected once;
* `HandshakeSafe`, `finalization_handshake`: both, together with what the publisher writes, if no `FINALIZATION`
  came before the loop;
* `early_finalization_erased`: one that did is answered and then forgotten.
-/

set_option autoImplicit false

namespace PerftestLite

open Word Machine Channel

/-- The last sequence number of the measuring loop; zero if it wrote nothing. -/
def lastNumber (ws : List (PerftestSample × Bool)) : ℤ :=
  ((loopWrites ws).getLast?.map fun w => w.1.sequenceNumber).getD 0

section

variable {net : Net} {T : TypeInterface} {cfg : Config} {args subArgs : InputArgs} {s s' : Sys}
  {l : Label} {p : PubState} {old : List (ℤ × ℕ × ℕ)}

/-- The last number is the number of iterations, as an `int32_t`. -/
theorem PubCount.lastNumber_eq (h : PubCount args p) :
    lastNumber p.writes = i32 ((loopWrites p.writes).length : ℤ) := by
  rw [lastNumber, ← List.getLast?_map, h.numbered, List.getLast?_map]
  cases (loopWrites p.writes).length with
  | zero => exact (i32_of_range (by decide)).symm
  | succ n => rw [List.range_succ, List.getLast?_concat, Option.map_some, Option.getD_some]

/-- **Every `FINALIZATION` carries the last sequence number of the loop.** -/
theorem PubInv.stamp_last (h : PubInv args p) {w : PerftestSample × Bool} (hw : w ∈ p.writes)
    (hk : w.1.kind = .finalization) : w.1.sequenceNumber = lastNumber p.writes := by
  have hph := h.order.phase_of_final hw hk
  have hahead : p.pc.ahead = 0 := by
    revert hph
    cases p.pc <;> simp [PubPc.phase, PubPc.ahead]
  have hseq : p.seq = i32 ((loopWrites p.writes).length : ℤ) := by
    have := h.count.seq (by omega)
    rwa [hahead, Nat.add_zero] at this
  exact (h.final.stamped w (List.mem_filter.mpr ⟨hw, decide_eq_true hk⟩)).trans
    (hseq.trans h.count.lastNumber_eq.symm)

/-! ## An answer means a `FINALIZATION` was processed -/

/-- Every `FINALIZATION` processed had been written, and none is answered before one is processed. -/
structure Announced (s : Sys) : Prop where
  written : ∀ f ∈ s.history.finals, ∃ w ∈ s.pub.writes,
    w.1.kind = .finalization ∧ w.1.sequenceNumber = f.1
  echoed : ∀ m ∈ s.pongs, m.sample.kind = .finalization → s.history.finals ≠ []
  answered : s.pub.ctx.finishedRemote = true → s.history.finals ≠ []

theorem finals_wait (h : History) (p : PubState) (ok : Bool) : (h.wait p ok).finals = h.finals := by
  unfold History.wait
  split_ifs <;> rfl

theorem finals_pong (h : History) (now : ℕ) (m : Msg) : (h.pong now m).finals = h.finals := by
  unfold History.pong
  split_ifs <;> rfl

/-- A delivery is remembered if it is a `FINALIZATION`. -/
theorem finals_ping (h : History) (m : Msg) (c c' : SubCtx) :
    (h.ping m c c').finals = if m.sample.kind = .finalization
      then h.finals ++ [(m.sample.sequenceNumber, c.lostSamples, c'.lostSamples)] else h.finals := by
  unfold History.ping
  split_ifs <;> rfl

theorem finishedRemote_main {now : ℕ} {ok : Bool} {p' : PubState}
    (h : pubMain T cfg args now ok p = some p') : p'.ctx.finishedRemote = p.ctx.finishedRemote := by
  cases pubMain_cases h <;> rfl

/-- The callback raises the flag for a `FINALIZATION` only. -/
theorem finishedRemote_pong (now : ℕ) (x : PerftestSample) (c : PubCtx)
    (h : (pubOnPongSample cfg now x c).finishedRemote = true) :
    c.finishedRemote = true ∨ x.kind = .finalization := by
  cases hk : x.kind with
  | finalization => exact .inr rfl
  | initialization | data | dataPing => exact .inl (by simpa [pubOnPongSample, hk, recordPong] using h)

theorem announced_step (hg : Genuine s) (h : Announced s) (hs : SysStep net T cfg args subArgs s l s') :
    Announced s' := by
  have hmono : ∀ f : ℤ × ℕ × ℕ,
      (∃ w ∈ s.pub.writes, w.1.kind = .finalization ∧ w.1.sequenceNumber = f.1) →
        ∃ w ∈ s'.pub.writes, w.1.kind = .finalization ∧ w.1.sequenceNumber = f.1 :=
    fun f ⟨w, hw, hf⟩ => ⟨w, (writes_grow hs).subset hw, hf⟩
  obtain ⟨hwritten, hechoed, hanswered⟩ := h
  cases hs with
  | tick d | sub q hq | subMatched change hpc | dropPing i rest hd =>
    exact ⟨hwritten, hechoed, hanswered⟩
  | pub ok p hp =>
    have hf := finals_wait s.history s.pub ok
    refine ⟨fun f hmem => ?_, by rw [hf]; exact hechoed, ?_⟩
    · exact hmono f (hwritten f (hf ▸ hmem))
    · change p.ctx.finishedRemote = true → _
      rw [hf, finishedRemote_main hp]
      exact hanswered
  | pubMatched change hpc =>
    refine ⟨hwritten, hechoed, fun hr => hanswered ?_⟩
    revert hr
    change (pubOnReaderMatched change s.pub.ctx).finishedRemote = true → _
    unfold pubOnReaderMatched
    split_ifs <;> exact id
  | deliverPing i echoed m rest hd he hpc =>
    have hf := finals_ping s.history m s.sub.ctx (subOnSample T s.clock m.sample s.sub.ctx).1
    have hw := hg.ping m (mem_of_deliver hd)
    by_cases hk : m.sample.kind = .finalization
    · rw [if_pos hk] at hf
      have hne : (s.history.ping m s.sub.ctx (subOnSample T s.clock m.sample s.sub.ctx).1).finals ≠ [] := by
        rw [hf]
        exact List.append_ne_nil_of_right_ne_nil _ (List.cons_ne_nil _ _)
      refine ⟨fun f hmem => ?_, fun _ _ _ => hne, fun _ => hne⟩
      change f ∈ (s.history.ping m s.sub.ctx (subOnSample T s.clock m.sample s.sub.ctx).1).finals at hmem
      rw [hf] at hmem
      rcases List.mem_append.mp hmem with hold | hnew
      · exact hwritten f hold
      · rw [List.mem_singleton.mp hnew]
        exact ⟨_, hw.mem, hk, rfl⟩
    · rw [if_neg hk] at hf
      refine ⟨by rw [hf]; exact hwritten, fun n hn hkn => ?_, by rw [hf]; exact hanswered⟩
      rw [hf]
      rcases List.mem_append.mp hn with hold | hnew
      · exact hechoed n hold hkn
      · rw [(echo_eq hnew).1] at hkn
        exact absurd hkn hk
  | deliverPong i m rest hd hpc =>
    have hf := finals_pong s.history s.clock m
    refine ⟨by rw [hf]; exact hwritten, fun n hn hkn => ?_, fun hr => ?_⟩
    · rw [hf]
      exact hechoed n (subset_of_deliver hd hn) hkn
    · rw [hf]
      rcases finishedRemote_pong s.clock m.sample s.pub.ctx hr with hold | hk
      · exact hanswered hold
      · exact hechoed m (mem_of_deliver hd) hk
  | dropPong i rest hd =>
    exact ⟨hwritten, fun n hn => hechoed n (subset_of_drop hd hn), hanswered⟩

/-! ## The loss is corrected once -/

/-- Past the reset block: the `FINALIZATION` samples processed since `old`, of which only the first
has changed the loss, and with the first of which the subscriber has finished. -/
structure Corrected (old : List (ℤ × ℕ × ℕ)) (s : Sys) : Prop where
  late : s.sub.pc.late = true
  once : ∃ new, s.history.finals = old ++ new ∧ (new ≠ [] → s.sub.ctx.finished = true) ∧
    ∀ f ∈ new.tail, f.2.2 = f.2.1

/-- Past the reset block no step of the subscriber lowers `finished`. -/
theorem finished_late {q q' : SubState} {e : ℕ × SubAction} (hl : q.pc.late = true)
    (h : subStep T subArgs q e = some q') :
    q'.pc.late = true ∧ (q.ctx.finished = true → q'.ctx.finished = true) := by
  obtain ⟨hl', hc⟩ := late_step hl h
  refine ⟨hl', fun hf => hc.finished.trans ?_⟩
  obtain ⟨now, act⟩ := e
  cases act with
  | sample x =>
    rw [received_sample]
    exact subOnSample_finished_mono hf
  | main | matched change => exact hf

/-- A step at which no `FINALIZATION` is processed. -/
theorem Corrected.still (h : Corrected old s) (hf : s'.history.finals = s.history.finals)
    (hsub : s'.sub = s.sub ∨ ∃ e, subStep T subArgs s.sub e = some s'.sub) : Corrected old s' := by
  obtain ⟨hl, new, hnew, hfin, htail⟩ := h
  rcases hsub with hsub | ⟨e, he⟩
  · exact ⟨by rw [hsub]; exact hl, new, hf.trans hnew, by rw [hsub]; exact hfin, htail⟩
  · obtain ⟨hl', hmono⟩ := finished_late hl he
    exact ⟨hl', new, hf.trans hnew, fun hne => hmono (hfin hne), htail⟩

theorem corrected_step (h : Corrected old s) (hs : SysStep net T cfg args subArgs s l s') :
    Corrected old s' := by
  have hsub : s'.sub = s.sub ∨ ∃ e, subStep T subArgs s.sub e = some s'.sub :=
    (sys_sub hs).imp id fun ⟨a, ha⟩ => ⟨_, ha⟩
  cases hs with
  | deliverPing i echoed m rest hd he hpc =>
    have hf := finals_ping s.history m s.sub.ctx (subOnSample T s.clock m.sample s.sub.ctx).1
    by_cases hk : m.sample.kind = .finalization
    · rw [if_pos hk] at hf
      obtain ⟨hl, new, hnew, hfin, htail⟩ := h
      -- the first of them finishes the subscriber, which leaves the loss alone ever after
      cases hfs : s.sub.ctx.finished with
      | true =>
        have hsame : subOnSample T s.clock m.sample s.sub.ctx = (s.sub.ctx, some m.sample) :=
          subOnSample_finished hk hfs
        refine ⟨hl, new ++ [(m.sample.sequenceNumber, s.sub.ctx.lostSamples, s.sub.ctx.lostSamples)],
          ?_, fun _ => ?_, fun f hmem => ?_⟩
        · change (s.history.ping _ _ _).finals = _
          rw [hf, hsame, hnew, List.append_assoc]
        · change (subOnSample T s.clock m.sample s.sub.ctx).1.finished = true
          rw [hsame]
          exact hfs
        · cases new with
          | nil => cases hmem
          | cons g new =>
            rcases List.mem_append.mp hmem with hold | hlast
            · exact htail f hold
            · rw [List.mem_singleton.mp hlast]
      | false =>
        have hnil : new = [] := by
          by_contra hne
          rw [hfin hne] at hfs
          cases hfs
        subst hnil
        refine ⟨hl, [(m.sample.sequenceNumber, s.sub.ctx.lostSamples,
          (subOnSample T s.clock m.sample s.sub.ctx).1.lostSamples)], ?_, fun _ => ?_, by simp⟩
        · change (s.history.ping _ _ _).finals = _
          rw [hf, hnew, List.append_nil]
        · change (subOnSample T s.clock m.sample s.sub.ctx).1.finished = true
          rw [subOnSample_finalization hk hfs]
    · rw [if_neg hk] at hf
      exact h.still hf hsub
  | pub ok p hp => exact h.still (finals_wait s.history s.pub ok) hsub
  | deliverPong i m rest hd hpc => exact h.still (finals_pong s.history s.clock m) hsub
  | tick d | sub q hq | pubMatched change hpc | subMatched change hpc | dropPing i rest hd
  | dropPong i rest hd =>
    exact h.still rfl hsub

/-! ## The handshake -/

theorem announced_init (T : TypeInterface) (args : InputArgs) (history : Bool) (matchedPubs : ℤ)
    (results subResults : Option Results) (clock : ℕ) :
    Announced (sysInit T args history matchedPubs results subResults clock) :=
  ⟨by simp [sysInit, History.empty], by simp [sysInit], fun h => by cases h⟩

/-- What holds in state `s` in any case, when `old` are the `FINALIZATION` samples processed before the
subscriber entered its polling loop. -/
structure HandshakeKept (old : List (ℤ × ℕ × ℕ)) (s : Sys) : Prop where
  /-- An answered publisher: what was processed carried the last sequence number of the loop. -/
  number : s.pub.ctx.finishedRemote = true →
    ∃ f ∈ s.history.finals, f.1 = lastNumber s.pub.writes
  /-- Only the first since then has changed the loss. -/
  once : ∃ new, s.history.finals = old ++ new ∧ ∀ f ∈ new.tail, f.2.2 = f.2.1
  /-- No data sample is written after a `FINALIZATION`. -/
  ordered : s.pub.writes.Pairwise fun v w => v.1.kind = .finalization → w.1.isData = false
  budget : (finalWrites s.pub.writes).length ≤ 10

/-- What the handshake promises in state `s`. -/
structure HandshakeSafe (old : List (ℤ × ℕ × ℕ)) (s : Sys) : Prop extends HandshakeKept old s where
  /-- An answered publisher: the subscriber has finished. -/
  finished : s.pub.ctx.finishedRemote = true → s.sub.ctx.finished = true

theorem PubOrder.no_data (h : PubOrder args p) :
    p.writes.Pairwise fun v w => v.1.kind = .finalization → w.1.isData = false := by
  refine h.ordered.imp fun {v w} hle hk => ?_
  rw [hk] at hle
  by_contra hdata
  have hph : w.1.kind.phase = 1 := isData_iff_phase.mp (Bool.eq_true_of_not_eq_false hdata)
  rw [hph] at hle
  simp [PerftestTypeKind.phase] at hle

theorem PubPc.finals_le (pc : PubPc) : pc.finals ≤ 10 := by
  cases pc <;> simp [PubPc.finals]

/-- **Safety of the finalization handshake.** Over every network, in every run on which the subscriber
has entered its polling loop (at `s₀`), in every later state: the publisher is answered only if the
subscriber has processed a `FINALIZATION` with the last number of the loop; the loss is corrected at most
once; no data follows a `FINALIZATION`, of which at most ten are written. Where none was processed before the
loop was entered, the subscriber of an answered publisher has finished. -/
theorem finalization_handshake {history : Bool} {matchedPubs : ℤ}
    {results subResults : Option Results} {clock : ℕ} {pre ls : List Label} {s₀ : Sys}
    (hpre : exec (sysStep net T cfg args subArgs)
      (sysInit T args history matchedPubs results subResults clock) pre = some s₀)
    (hpoll : s₀.sub.pc = .poll)
    (hrun : exec (sysStep net T cfg args subArgs) s₀ ls = some s) :
    HandshakeKept s₀.history.finals s ∧ (s₀.history.finals = [] → HandshakeSafe s₀.history.finals s) := by
  have hwhole := exec_append.mpr ⟨s₀, hpre, hrun⟩
  obtain ⟨hi, hg, ha⟩ := exec_invariant (I := fun s => PubInv args s.pub ∧ Genuine s ∧ Announced s)
    (fun s l s' h hs => by
      obtain ⟨hi, hg, ha⟩ := h
      have hs' := sysStep_cases hs
      exact ⟨sys_pubInv hi hs', genuine_step hg hs', announced_step hg ha hs'⟩)
    hwhole ⟨pubInv_init _ _ _ _ _, genuine_init _ _ _ _ _ _ _, announced_init _ _ _ _ _ _ _⟩
  obtain ⟨-, new, hnew, hfin, htail⟩ := exec_invariant (I := Corrected s₀.history.finals)
    (fun s l s' h hs => corrected_step h (sysStep_cases hs)) hrun
    ⟨by rw [hpoll]; rfl, [], (List.append_nil _).symm, fun h => absurd rfl h, by simp⟩
  have hkept : HandshakeKept s₀.history.finals s := by
    refine ⟨fun hr => ?_, ⟨new, hnew, htail⟩, hi.order.no_data, hi.final.budget.trans (PubPc.finals_le _)⟩
    obtain ⟨f, hf⟩ := List.exists_mem_of_ne_nil _ (ha.answered hr)
    obtain ⟨w, hw, hk, hn⟩ := ha.written f hf
    exact ⟨f, hf, hn.symm.trans (hi.stamp_last hw hk)⟩
  refine ⟨hkept, fun hold => ⟨hkept, fun hr => hfin fun hnil => ?_⟩⟩
  exact ha.answered hr (by rw [hnew, hold, hnil]; rfl)

end

/-! ## Two runs -/

/-- Loss, delay, reordering and duplication on both topics. -/
def duplicatingNet : Net := ⟨.duplicating, .duplicating, true⟩

/-- Both sides with their defaults, the clock at one second. -/
def handshakeStart : Sys := sysInit sequenceType publisherDefaults false 1 none none 1000000

/-- The system after a run from `s`. -/
def handshakeRun (s : Sys) (ls : List Label) : Sys :=
  (exec (sysStep duplicatingNet sequenceType defaultConfig publisherDefaults subscriberDefaults) s
    ls).getD s

/-- The publisher is matched and the subscriber enters its polling loop. -/
def enterPolling : List Label := [.subMatched 1, .sub, .sub]

/-- One turn of the loop, the end of the test time, one `FINALIZATION`. -/
def untilFinalization : List Label :=
  List.replicate (defaultConfig.initBurst + 10) (.pub true) ++ .tick 100000000 :: List.replicate 9 (.pub true)

/-- It arrives twice and one of its echoes comes back. -/
def oneFinalization : List Label :=
  untilFinalization ++ [.deliverPing 51 true, .deliverPing 51 true, .deliverPong 1]

/-- The subscriber in its polling loop, and the end of the run. -/
def handshakePolling : Sys := handshakeRun handshakeStart enterPolling

def handshakeEnd : Sys := handshakeRun handshakePolling oneFinalization

theorem finalization_handshake_run :
    handshakeEnd.pub.ctx.finishedRemote = true ∧
      handshakeEnd.history.finals = [(1, 0, 1), (1, 1, 1)] ∧
      HandshakeSafe handshakePolling.history.finals handshakeEnd :=
  ⟨by decide +kernel, by decide +kernel,
    (finalization_handshake (show exec (sysStep duplicatingNet sequenceType
      defaultConfig publisherDefaults subscriberDefaults) handshakeStart enterPolling =
        some handshakePolling by decide +kernel) (by decide +kernel) (show exec (sysStep duplicatingNet
      sequenceType defaultConfig publisherDefaults subscriberDefaults) handshakePolling
        oneFinalization = some handshakeEnd by decide +kernel)).2 (by decide +kernel)⟩

/-- The subscriber is matched when the publisher has come to its finalization loop. A `FINALIZATION` arrives,
and is echoed, while the main thread is still in the match wait; then the reset block runs. -/
def erasedPre : List Label := untilFinalization ++ [.subMatched 1, .deliverPing 51 true, .sub, .sub]

/-- The subscriber in its polling loop, and the echo delivered. -/
def erasedPolling : Sys := handshakeRun handshakeStart erasedPre

def erasedEnd : Sys := handshakeRun erasedPolling [.deliverPong 0]

/-- **The publisher is answered and the subscriber polls on**: the reset block has erased the end of the
test. -/
theorem early_finalization_erased :
    exec (sysStep duplicatingNet sequenceType defaultConfig publisherDefaults subscriberDefaults)
        handshakeStart erasedPre = some erasedPolling ∧
      erasedPolling.sub.pc = .poll ∧
      exec (sysStep duplicatingNet sequenceType defaultConfig publisherDefaults subscriberDefaults)
        erasedPolling [.deliverPong 0] = some erasedEnd ∧
      ¬ HandshakeSafe erasedPolling.history.finals erasedEnd := by
  have hanswered : erasedEnd.pub.ctx.finishedRemote = true := by
    decide +kernel
  have hpolling : erasedEnd.sub.ctx.finished = false := by
    decide +kernel
  refine ⟨by decide +kernel, by decide +kernel, by decide +kernel, fun h => ?_⟩
  rw [h.finished hanswered] at hpolling
  cases hpolling

end PerftestLite
