import PerftestLite.EndToEnd.Agreement

/-!
# Where every sample is

Accounts kept beside the system: what the subscriber processed, what the publisher got back, what the networks
dropped and which echoes were not written. Over networks that do not duplicate nothing is missing in them and
nothing is there twice.

* `Account`, `keepAccount`: the accounts, kept step by step;
* `Accounted`, `accounted_step`: both topics balance;
* `every_sample_accounted`.
-/

set_option autoImplicit false

namespace PerftestLite

open Machine Channel

structure Account where
  /-- Handed to the callback of the subscriber. -/
  processed : List PerftestSample
  /-- Dropped on the ping topic. -/
  lostPings : List PerftestSample
  /-- Echoes whose write failed. -/
  unwritten : List PerftestSample
  /-- Handed to the callback of the publisher. -/
  returned : List PerftestSample
  /-- Dropped on the pong topic. -/
  lostPongs : List PerftestSample
  deriving DecidableEq, Repr

def Account.empty : Account := ⟨[], [], [], [], []⟩

/-- The subscriber echoes every sample but plain `DATA`. -/
def PerftestSample.isEchoed (x : PerftestSample) : Bool := decide (x.kind ≠ .data)

/-- The accounts after one more step. -/
def keepAccount (net : Net) (s : Sys) (o : Account) : Label → Option Account
  | .deliverPing i echoed => (deliver net.ping s.pings i).map fun d =>
      { o with
        processed := o.processed ++ [d.1.sample]
        unwritten := if d.1.sample.isEchoed ∧ echoed = false then o.unwritten ++ [d.1.sample]
          else o.unwritten }
  | .dropPing i => s.pings[i]?.map fun m => { o with lostPings := o.lostPings ++ [m.sample] }
  | .deliverPong i => (deliver net.pong s.pongs i).map fun d =>
      { o with returned := o.returned ++ [d.1.sample] }
  | .dropPong i => s.pongs[i]?.map fun m => { o with lostPongs := o.lostPongs ++ [m.sample] }
  | _ => some o

variable {net : Net} {T : TypeInterface} {cfg : Config} {args subArgs : InputArgs} {s s' : Sys}
  {l : Label} {o o' : Account}

/-- Both topics balance; in order, what is in flight comes behind what has been handed over. -/
structure Accounted (net : Net) (s : Sys) (o : Account) : Prop where
  pings : (o.processed ++ o.lostPings ++ s.pings.map Msg.sample).Perm (sent s.pub.writes)
  pongs : (o.returned ++ o.lostPongs ++ o.unwritten ++ s.pongs.map Msg.sample).Perm
    (o.processed.filter PerftestSample.isEchoed)
  pingsInOrder : net.ping = .ordered → o.processed ++ s.pings.map Msg.sample = sent s.pub.writes
  pongsInOrder : net.pong = .ordered →
    (o.returned ++ s.pongs.map Msg.sample).Sublist (o.processed.filter PerftestSample.isEchoed)
  pongsComplete : net.pong = .ordered → net.echoMayFail = false →
    o.returned ++ s.pongs.map Msg.sample = o.processed.filter PerftestSample.isEchoed

/-- A message that is dropped was there. -/
theorem getElem?_of_drop {d : Discipline} {ch rest : List Msg} {i : ℕ} (h : drop d ch i = some rest) :
    ∃ m, ch[i]? = some m ∧ ch.Perm (m :: rest) := by
  cases d with
  | ordered => cases h
  | unordered | duplicating =>
    simp only [drop, Option.ite_none_right_eq_some, Option.some.injEq] at h
    obtain ⟨hi, rfl⟩ := h
    exact ⟨ch[i], List.getElem?_eq_getElem hi, (List.getElem_cons_eraseIdx_perm hi).symm⟩

/-- No step is refused. -/
theorem keepAccount_total (hs : sysStep net T cfg args subArgs s l = some s') :
    ∃ o', keepAccount net s o l = some o' := by
  cases sysStep_cases hs with
  | deliverPing i echoed m rest hd he hpc => exact ⟨_, Option.map_eq_some_iff.mpr ⟨_, hd, rfl⟩⟩
  | dropPing i rest hd =>
    obtain ⟨m, hm, -⟩ := getElem?_of_drop hd
    exact ⟨_, Option.map_eq_some_iff.mpr ⟨m, hm, rfl⟩⟩
  | deliverPong i m rest hd hpc => exact ⟨_, Option.map_eq_some_iff.mpr ⟨_, hd, rfl⟩⟩
  | dropPong i rest hd =>
    obtain ⟨m, hm, -⟩ := getElem?_of_drop hd
    exact ⟨_, Option.map_eq_some_iff.mpr ⟨m, hm, rfl⟩⟩
  | tick d | pub ok p hp | sub q hq | pubMatched change hpc | subMatched change hpc => exact ⟨o, rfl⟩

/-- The echo in flight. -/
theorem echo_samples (m : Msg) (now : ℕ) (c : SubCtx) (echoed : Bool) :
    (echoOf m (subOnSample T now m.sample c).2 echoed).map Msg.sample =
      if m.sample.isEchoed ∧ echoed = true then [m.sample] else [] := by
  rw [subOnSample_echo]
  unfold echoOf PerftestSample.isEchoed
  cases echoed with
  | false => simp
  | true => by_cases hk : m.sample.kind = .data <;> simp [hk]

/-- How often a sample is among those of a channel a message was taken from. -/
theorem count_taken {ch rest : List Msg} {m : Msg} (h : ch.Perm (m :: rest)) (x : PerftestSample) :
    (ch.map Msg.sample).count x = (rest.map Msg.sample).count x + [m.sample].count x := by
  rw [(h.map Msg.sample).count_eq, List.map_cons, ← List.singleton_append, List.count_append, Nat.add_comm]

/-- **Both topics go on balancing.** -/
theorem accounted_step (hping : net.ping ≠ .duplicating) (hpong : net.pong ≠ .duplicating)
    (h : Accounted net s o) (hs : SysStep net T cfg args subArgs s l s')
    (ho : keepAccount net s o l = some o') :
    Accounted net s' o' := by
  have hpings := List.perm_iff_count.mp h.pings
  have hpongs := List.perm_iff_count.mp h.pongs
  simp only [List.count_append] at hpings hpongs
  cases hs with
  | tick d | sub q hq | pubMatched change hpc | subMatched change hpc =>
    cases ho
    exact ⟨h.pings, h.pongs, h.pingsInOrder, h.pongsInOrder, h.pongsComplete⟩
  | pub ok p hp =>
    cases ho
    have hsent := sent_main hp
    refine ⟨List.perm_iff_count.mpr fun x => ?_, h.pongs, fun hn => ?_, h.pongsInOrder, h.pongsComplete⟩
    · dsimp only
      rw [hsent, List.map_append]
      simp only [List.count_append]
      have := hpings x
      omega
    · dsimp only
      rw [hsent, List.map_append, ← List.append_assoc, h.pingsInOrder hn]
  | deliverPing i echoed m rest hd he hpc =>
    obtain ⟨e, he', rfl⟩ := Option.map_eq_some_iff.mp ho
    obtain rfl : e = (m, rest) := Option.some.inj (he'.symm.trans hd)
    have htaken := count_taken (perm_of_deliver hping hd)
    have hecho := echo_samples (T := T) m s.clock s.sub.ctx echoed
    have hfilter : (o.processed ++ [m.sample]).filter PerftestSample.isEchoed =
        o.processed.filter PerftestSample.isEchoed ++ if m.sample.isEchoed then [m.sample] else [] := by
      rw [List.filter_append, List.filter_singleton]
      cases m.sample.isEchoed <;> rfl
    refine ⟨List.perm_iff_count.mpr fun x => ?_, List.perm_iff_count.mpr fun x => ?_, fun hn => ?_,
      fun hn => ?_, fun hn hw => ?_⟩
    · dsimp only
      simp only [List.count_append]
      have := hpings x
      have := htaken x
      omega
    · dsimp only
      rw [hfilter, List.map_append, hecho]
      have := hpongs x
      cases echoed <;> cases m.sample.isEchoed <;>
        simp only [List.count_append, List.count_nil, Bool.false_eq_true, Bool.true_eq_false, and_true,
          and_false, if_true, if_false] <;> omega
    · rw [hn] at hd
      dsimp only
      rw [← h.pingsInOrder hn, deliver_ordered hd]
      simp
    · dsimp only
      rw [hfilter, List.map_append, hecho, ← List.append_assoc]
      refine (h.pongsInOrder hn).append ?_
      -- an echo whose write fails is left out
      cases echoed <;> cases m.sample.isEchoed <;> simp
    · dsimp only
      obtain rfl := he hw
      rw [hfilter, List.map_append, hecho, ← List.append_assoc, h.pongsComplete hn hw]
      simp
  | dropPing i rest hd =>
    obtain ⟨m, hm, hperm⟩ := getElem?_of_drop hd
    obtain ⟨n, hn, rfl⟩ := Option.map_eq_some_iff.mp ho
    obtain rfl : n = m := Option.some.inj (hn.symm.trans hm)
    refine ⟨List.perm_iff_count.mpr fun x => ?_, h.pongs, fun hn => ?_, h.pongsInOrder, h.pongsComplete⟩
    · dsimp only
      simp only [List.count_append]
      have := hpings x
      have := count_taken hperm x
      omega
    · rw [hn, drop_ordered] at hd
      cases hd
  | deliverPong i m rest hd hpc =>
    obtain ⟨e, he', rfl⟩ := Option.map_eq_some_iff.mp ho
    obtain rfl : e = (m, rest) := Option.some.inj (he'.symm.trans hd)
    have hwrites : (s.pub.pong cfg s.clock m.sample).writes = s.pub.writes := rfl
    refine ⟨h.pings, List.perm_iff_count.mpr fun x => ?_, h.pingsInOrder, fun hn => ?_, fun hn hw => ?_⟩
    · dsimp only
      simp only [List.count_append]
      have := hpongs x
      have := count_taken (perm_of_deliver hpong hd) x
      omega
    · have hsub := h.pongsInOrder hn
      rw [hn] at hd
      rw [deliver_ordered hd] at hsub
      simpa using hsub
    · rw [hn] at hd
      dsimp only
      rw [← h.pongsComplete hn hw, deliver_ordered hd]
      simp
  | dropPong i rest hd =>
    obtain ⟨m, hm, hperm⟩ := getElem?_of_drop hd
    obtain ⟨n, hn, rfl⟩ := Option.map_eq_some_iff.mp ho
    obtain rfl : n = m := Option.some.inj (hn.symm.trans hm)
    refine ⟨h.pings, List.perm_iff_count.mpr fun x => ?_, h.pingsInOrder, fun hn => ?_, fun hn hw => ?_⟩
    · dsimp only
      simp only [List.count_append]
      have := hpongs x
      have := count_taken hperm x
      omega
    · rw [hn, drop_ordered] at hd
      cases hd
    · rw [hn, drop_ordered] at hd
      cases hd

theorem accounted_init (net : Net) (T : TypeInterface) (args : InputArgs) (history : Bool) (matchedPubs : ℤ)
    (results subResults : Option Results) (clock : ℕ) :
    Accounted net (sysInit T args history matchedPubs results subResults clock) .empty :=
  ⟨.refl _, .refl _, fun _ => rfl, fun _ => List.Sublist.refl _, fun _ _ => rfl⟩

/-- **Nothing is lost or doubled.** In every run over networks that do not duplicate: the pings written are,
each once, those processed, those dropped and those in flight; and the echoes of what was processed are those
the publisher got back, those dropped, those whose write failed and those in flight. Over a ping topic in order
the ones in flight are the last ones; over a pong topic in order the echoes come back in the order in which
their samples were processed, without those whose write failed. -/
theorem every_sample_accounted (hping : net.ping ≠ .duplicating) (hpong : net.pong ≠ .duplicating)
    {history : Bool} {matchedPubs : ℤ} {results subResults : Option Results} {clock : ℕ} {ls : List Label}
    (hrun : exec (sysStep net T cfg args subArgs)
      (sysInit T args history matchedPubs results subResults clock) ls = some s) :
    ∃ o, exec (observed (sysStep net T cfg args subArgs) (keepAccount net))
      (sysInit T args history matchedPubs results subResults clock, .empty) ls = some (s, o) ∧
        Accounted net s o := by
  have htotal : ∀ s o l s', sysStep net T cfg args subArgs s l = some s' →
      ∃ o', keepAccount net s o l = some o' :=
    fun _ _ _ _ hs => keepAccount_total hs
  obtain ⟨o, ho⟩ := exec_observed_of_watch htotal hrun Account.empty
  refine ⟨o, ho, ?_⟩
  exact exec_invariant (I := fun q : Sys × Account => Accounted net q.1 q.2)
    (fun _ _ _ h hs => accounted_step hping hpong h (sysStep_cases (observed_eq_some.mp hs).1)
      (observed_eq_some.mp hs).2) ho (accounted_init _ _ _ _ _ _ _ _)

/-- The first data sample is dropped, and the answer to the `FINALIZATION` handed over. -/
def answeredRun : List Label := firstDropped ++ [.deliverPong 0]

/-- The system after that run, and its accounts. -/
def answeredEnd : Sys × Account :=
  (exec (observed (sysStep bestEffort sequenceType noBurst publisherDefaults subscriberDefaults)
    (keepAccount bestEffort)) (agreementStart, .empty) answeredRun).getD (agreementStart, .empty)

theorem every_sample_accounted_dropped :
    answeredEnd.2.lostPings.length = 1 ∧ answeredEnd.2.processed.length = 2 ∧
      answeredEnd.2.returned.length = 1 ∧ Accounted bestEffort answeredEnd.1 answeredEnd.2 := by
  have hrun : exec (observed (sysStep bestEffort sequenceType noBurst publisherDefaults subscriberDefaults)
      (keepAccount bestEffort)) (agreementStart, .empty) answeredRun =
        some (answeredEnd.1, answeredEnd.2) := by
    decide +kernel
  obtain ⟨o, ho, h⟩ := every_sample_accounted (by decide) (by decide) (exec_observed_fst hrun)
  obtain rfl : answeredEnd.2 = o := congrArg Prod.snd (Option.some.inj (hrun.symm.trans ho))
  exact ⟨by decide +kernel, by decide +kernel, by decide +kernel, h⟩

end PerftestLite
