import Mathlib.Algebra.BigOperators.Group.List.Basic
import Mathlib.Algebra.Order.Group.Int
import PerftestLite.Lifecycle.Setup

/-!
# The match wait of the publisher

The publisher waits until `matched_pubs` is positive. The counter moves by one for each change reported
for the pong reader, whatever its size; the ping writer is created without a listener, so its matches
move nothing. As long as the changes are reported one by one, the counter is the number of pong writers
matched.

* `MatchEvent`, `matchStep`: the publisher under both kinds of match events;
* `SignCount`, `signCount_run`: the counter is the sum of the signs of the changes;
* `match_gate`: when the wait ends.
-/

set_option autoImplicit false

namespace PerftestLite

open Word Machine

/-- An event of the publisher, or a change of the remote readers matched with the ping writer. -/
inductive MatchEvent
  | engine (e : SetupEvent)
  | writerMatched (change : ℤ)
  deriving DecidableEq

/-- One step of the publisher. The data writer has no listener: its matches are not reported. -/
def matchStep (dpse : Bool) (cfg : Config) (args : InputArgs) (s : PubSide) :
    MatchEvent → Option PubSide
  | .engine e => pubSetupStep dpse cfg args s e
  | .writerMatched _ => some s

/-- The changes reported for the pong reader. -/
def readerChanges (es : List MatchEvent) : List ℤ :=
  es.filterMap fun e => match e with
    | .engine (.matched change) => some change
    | _ => none

/-- The remote pong writers matched with the pong reader. -/
def pongWriters (es : List MatchEvent) : ℤ := (readerChanges es).sum

/-- The remote ping readers matched with the ping writer. -/
def pingReaders (es : List MatchEvent) : ℤ :=
  (es.filterMap fun e => match e with
    | .writerMatched change => some change
    | .engine _ => none).sum

section

variable {dpse : Bool} {cfg : Config} {args : InputArgs} {s s' : PubSide}

/-- The counter after these changes. -/
def SignCount (cs : List ℤ) (s : PubSide) : Prop := s.ctx.matchedPubs = (cs.map Int.sign).sum

/-- A change moves the counter by its sign. -/
theorem pubOnReaderMatched_matchedPubs (change : ℤ) (c : PubCtx) :
    (pubOnReaderMatched change c).matchedPubs = c.matchedPubs + change.sign := by
  unfold pubOnReaderMatched
  by_cases hpos : change > 0
  · rw [if_pos hpos, Int.sign_eq_one_of_pos hpos]
  · by_cases hneg : change < 0
    · rw [if_neg hpos, if_pos hneg, Int.sign_eq_neg_one_of_neg hneg]
      rfl
    · obtain rfl : change = 0 := by omega
      exact (add_zero _).symm

theorem pubOnPongSample_matchedPubs (now : ℕ) (x : PerftestSample) (c : PubCtx) :
    (pubOnPongSample cfg now x c).matchedPubs = c.matchedPubs := by
  by_cases hx : x.isData = true
  · rw [pubOnPongSample_data cfg now hx]
    rfl
  · obtain ⟨b, hb⟩ := pubOnPongSample_other cfg now hx c
    rw [hb]

/-- No statement moves the counter. -/
theorem perftestLitePublisher_matchedPubs {ok : Bool}
    (hs : perftestLitePublisher dpse cfg args ok s = some s') :
    s'.ctx.matchedPubs = s.ctx.matchedPubs := by
  obtain ⟨pc, e, ctx, pingW, pongR⟩ := s
  cases pc with
  | createReader pc =>
    rcases pubCreateReader_cases hs with ⟨reader, rfl, rfl⟩ | ⟨pc', e', -, rfl⟩
    · rfl
    · rfl
  | semaphoreNew | waitMatch | openLog =>
    simp only [perftestLitePublisher] at hs
    split_ifs at hs <;> (cases hs; rfl)
  | returned => cases hs
  | init | createWriter | checkEndpoints | allocHistory | createSample | run | destroySample
  | shutdown | closeLog | semaphoreDelete | freeHistory =>
    cases hs
    rfl

/-- **The counter is the sum of the signs of the changes reported.** -/
theorem signCount_run {es : List MatchEvent}
    (hrun : exec (matchStep dpse cfg args) pubSideInit es = some s) : SignCount (readerChanges es) s := by
  induction es using List.reverseRecOn generalizing s with
  | nil =>
    cases hrun
    rfl
  | append_singleton es e ih =>
    obtain ⟨m, hm, he⟩ := exec_snoc.mp hrun
    have hcount : m.ctx.matchedPubs = ((readerChanges es).map Int.sign).sum := ih hm
    have happ : readerChanges (es ++ [e]) = readerChanges es ++ readerChanges [e] :=
      List.filterMap_append
    unfold SignCount
    rw [happ, List.map_append, List.sum_append, ← hcount]
    cases e with
    | writerMatched change =>
      cases he
      exact (add_zero _).symm
    | engine e =>
      cases e with
      | main ok =>
        rw [perftestLitePublisher_matchedPubs he]
        exact (add_zero _).symm
      | data now x =>
        simp only [matchStep, pubSetupStep, Option.ite_none_right_eq_some, Option.some.injEq] at he
        rw [← he.2]
        refine Eq.trans ?_ (add_zero _).symm
        dsimp only
        split_ifs
        · cases x with
          | none => rfl
          | some y => exact pubOnPongSample_matchedPubs now y m.ctx
        · rfl
      | matched change =>
        simp only [matchStep, pubSetupStep, Option.ite_none_right_eq_some, Option.some.injEq] at he
        have hone : readerChanges [.engine (.matched change)] = [change] := rfl
        rw [← he.2, hone, List.map_singleton, List.sum_singleton]
        exact pubOnReaderMatched_matchedPubs change m.ctx

/-- Changes of one at most are their own signs. -/
theorem sum_sign_eq {cs : List ℤ} (h : ∀ c ∈ cs, -1 ≤ c ∧ c ≤ 1) : (cs.map Int.sign).sum = cs.sum := by
  have hsign : ∀ c ∈ cs, c.sign = id c := by
    intro c hc
    obtain ⟨h1, h2⟩ := h c hc
    obtain rfl | rfl | rfl : c = -1 ∨ c = 0 ∨ c = 1 := by omega
    · rfl
    · rfl
    · rfl
  rw [List.map_congr_left hsign, List.map_id]

/-- Where the signs add up to something positive there is a positive change. -/
theorem exists_pos_of_sum_sign {cs : List ℤ} (h : 0 < (cs.map Int.sign).sum) : ∃ c ∈ cs, 0 < c := by
  induction cs with
  | nil => exact absurd h (lt_irrefl 0)
  | cons c cs ih =>
    by_cases hc : 0 < c
    · exact ⟨c, List.mem_cons_self, hc⟩
    · have hsign : c.sign ≤ 0 := Int.sign_nonpos_iff.mpr (not_lt.mp hc)
      rw [List.map_cons, List.sum_cons] at h
      obtain ⟨d, hd, hpos⟩ := ih (by omega)
      exact ⟨d, List.mem_cons_of_mem c hd, hpos⟩

/-- The poll: the wait ends when the counter is positive. -/
theorem waitMatch_iff {ok : Bool} (hpc : s.pc = .waitMatch)
    (hs : perftestLitePublisher dpse cfg args ok s = some s') :
    s'.pc ≠ .waitMatch ↔ 1 ≤ s.ctx.matchedPubs := by
  simp only [perftestLitePublisher, hpc] at hs
  split_ifs at hs with hlt
  · cases hs
    exact ⟨fun hne => absurd hpc hne, fun hle => absurd hlt (not_lt.mpr hle)⟩
  · cases hs
    exact ⟨fun _ => not_lt.mp hlt, fun _ => by simp⟩

/-- **The match wait.** At every poll, after any match events for either endpoint: if the changes for
the pong reader were reported one by one, `matched_pubs` is the number of pong writers matched, and the
wait ends exactly if there is one. However they were reported, it ends only after a pong writer was
matched. -/
theorem match_gate {es : List MatchEvent} {ok : Bool}
    (hrun : exec (matchStep dpse cfg args) pubSideInit es = some s) (hpc : s.pc = .waitMatch)
    (hpoll : perftestLitePublisher dpse cfg args ok s = some s') :
    ((∀ c ∈ readerChanges es, -1 ≤ c ∧ c ≤ 1) →
      s.ctx.matchedPubs = pongWriters es ∧ (s'.pc ≠ .waitMatch ↔ 1 ≤ pongWriters es)) ∧
    (s'.pc ≠ .waitMatch → ∃ c ∈ readerChanges es, 0 < c) := by
  have hcount : s.ctx.matchedPubs = ((readerChanges es).map Int.sign).sum := signCount_run hrun
  have hiff := waitMatch_iff hpc hpoll
  constructor
  · intro hone
    rw [sum_sign_eq hone] at hcount
    refine ⟨hcount, hiff.trans ?_⟩
    rw [hcount]
    rfl
  · intro hleave
    have hpos := hiff.mp hleave
    rw [hcount] at hpos
    exact exists_pos_of_sum_sign hpos

end

/-- Up to the first poll. -/
def upToWait : List MatchEvent := List.replicate 15 (.engine (.main true))

/-- The publisher after `upToWait` and more. -/
def waitingAfter (es : List MatchEvent) : PubSide :=
  (exec (matchStep false defaultConfig publisherDefaults) pubSideInit (upToWait ++ es)).getD pubSideInit

theorem match_gate_one :
    (waitingAfter [.writerMatched 1, .engine (.matched 1)]).ctx.matchedPubs = 1 := by
  have hrun : exec (matchStep false defaultConfig publisherDefaults) pubSideInit
      (upToWait ++ [.writerMatched 1, .engine (.matched 1)]) =
        some (waitingAfter [.writerMatched 1, .engine (.matched 1)]) := by
    decide +kernel
  have hpc : (waitingAfter [.writerMatched 1, .engine (.matched 1)]).pc = .waitMatch := by
    decide +kernel
  have hpoll : perftestLitePublisher false defaultConfig publisherDefaults true
      (waitingAfter [.writerMatched 1, .engine (.matched 1)]) = some _ := rfl
  exact ((match_gate hrun hpc hpoll).1 (by decide)).1

/-- A pong writer is matched with the pong reader, nothing with the ping writer; and a pong writer came
and went, in changes of one and of two. In both cases the wait ends. -/
theorem unmatched_start :
    (exec (matchStep false defaultConfig publisherDefaults) pubSideInit
        (upToWait ++ [.engine (.matched 1), .engine (.main true)])).map (·.pc) = some .openLog ∧
      pongWriters (upToWait ++ [.engine (.matched 1)]) = 1 ∧
      pingReaders (upToWait ++ [.engine (.matched 1)]) = 0 ∧
      (exec (matchStep false defaultConfig publisherDefaults) pubSideInit (upToWait ++
        [.engine (.matched 1), .engine (.matched 1), .engine (.matched (-2)),
          .engine (.main true)])).map (·.pc) = some .openLog ∧
      pongWriters (upToWait ++
        [.engine (.matched 1), .engine (.matched 1), .engine (.matched (-2))]) = 0 := by
  decide +kernel

end PerftestLite
