import PerftestLite.Capture.Forgotten
import PerftestLite.Core.Publisher
import PerftestLite.Lib.Simulation

/-!
# Taking samples

`micro_reader_take` takes all that the DataReader has as one loan, hands the samples that have data to the
engine's callback one after the other and returns the loan. Meanwhile samples go on arriving and the engine
goes on running.

* `SampleEngine`: an engine as the reader sees it, `subscriberEngine`, `publisherEngine`;
* `readerStep`: the DataReader, `on_data_available_cb` and `micro_reader_take` around an engine;
* `readerStep_simulates`: an engine behind a reader is the engine, fed one sample at a time;
* `ReaderInv`, `readerInv_step`: what has become of the samples that arrived;
* `take_refines`; `balance_run`: from any reader, what waited and what arrived is handed over or waits;
* `taken_all_counted`.
-/

set_option autoImplicit false

namespace PerftestLite

open Machine

/-- An engine with its sample callback among its events. -/
structure SampleEngine (σ α : Type) where
  step : σ → ℕ × α → Option σ
  onSample : PerftestSample → α
  /-- The sample, if the event is a call of the callback. -/
  sampleOf : α → Option PerftestSample
  sampleOf_onSample : ∀ x, sampleOf (onSample x) = some x

/-- The subscriber. -/
def subscriberEngine (T : TypeInterface) (args : InputArgs) : SampleEngine SubState SubAction where
  step := subStep T args
  onSample := .sample
  sampleOf
    | .sample x => some x
    | _ => none
  sampleOf_onSample _ := rfl

/-- The publisher. -/
def publisherEngine (T : TypeInterface) (cfg : Config) (args : InputArgs) :
    SampleEngine PubState PubAction where
  step := pubStep T cfg args
  onSample := .pong
  sampleOf
    | .pong x => some x
    | _ => none
  sampleOf_onSample _ := rfl

/-- An entry of the two sequences of a take: the sample and `info->valid_data`. -/
structure Received where
  sample : PerftestSample
  validData : Bool
  deriving DecidableEq, Repr

/-- The samples that have data. -/
def valid (xs : List Received) : List PerftestSample :=
  (xs.filter fun x => x.validData).map fun x => x.sample

/-- Where the listener's thread stands in `micro_reader_take`. -/
inductive TakePc
  | outside
  | take
  | loop (i taken : ℕ)
  | returnLoan (taken : ℕ)
  deriving DecidableEq, Repr

/-- The loan is out. -/
def TakePc.lent : TakePc → Bool
  | .loop _ _ | .returnLoan _ => true
  | _ => false

/-- `taken` so far. -/
def TakePc.taken : TakePc → ℕ
  | .loop _ taken | .returnLoan taken => taken
  | _ => 0

/-- A reader and its engine: what waits in the DataReader, the sequences while they are lent, and what the
calls of `take` have returned. -/
structure ReaderSide (σ : Type) where
  engine : σ
  cache : List Received
  loan : Option (List Received)
  pc : TakePc
  returned : List ℕ
  deriving DecidableEq

/-- A reader that nothing has reached. -/
def ReaderSide.start {σ : Type} (s : σ) : ReaderSide σ := ⟨s, [], none, .outside, []⟩

inductive ReaderEvent (α : Type)
  | arrive (x : Received)
  /-- The DataReader replaces or drops an entry. -/
  | lose (i : ℕ)
  | available
  /-- The next statement of the listener's thread; `ok` is the outcome of the call it makes. -/
  | statement (now : ℕ) (ok : Bool)
  /-- Any other event of the engine. -/
  | engine (e : ℕ × α)

section

variable {σ α : Type} (E : SampleEngine σ α) (listens : Bool)

/-- `micro_reader_take`, one statement after the other. -/
def microReaderTake (now : ℕ) (ok : Bool) (r : ReaderSide σ) : Option (ReaderSide σ) :=
  match r.pc with
  | .outside => none
  | .take =>
    if ok then some { r with cache := [], loan := some r.cache, pc := .loop 0 0 }
    else some { r with pc := .outside, returned := r.returned ++ [0] }
  | .loop i taken =>
    match (r.loan.getD [])[i]? with
    | some x =>
      if x.validData then (E.step r.engine (now, E.onSample x.sample)).map fun s =>
        { r with engine := s, pc := .loop (i + 1) (taken + 1) }
      else some { r with pc := .loop (i + 1) taken }
    | none => some { r with pc := .returnLoan taken }
  | .returnLoan taken => some { r with loan := none, pc := .outside, returned := r.returned ++ [taken] }

/-- One step of a reader and its engine; `listens` says that `on_data_available` is set. -/
def readerStep (r : ReaderSide σ) : ReaderEvent α → Option (ReaderSide σ)
  | .arrive x => some { r with cache := r.cache ++ [x] }
  | .lose i => if i < r.cache.length then some { r with cache := r.cache.eraseIdx i } else none
  | .available =>
    if r.pc = .outside then some (if listens then { r with pc := .take } else r) else none
  | .statement now ok => microReaderTake E now ok r
  | .engine e =>
    if (E.sampleOf e.2).isSome then none else (E.step r.engine e).map fun s => { r with engine := s }

/-- The event of the engine that a step is, if it is one. -/
def readerLabel (r : ReaderSide σ) : ReaderEvent α → Option (ℕ × α)
  | .statement now _ =>
    match r.pc with
    | .loop i _ => ((r.loan.getD [])[i]?).bind fun x =>
      if x.validData then some (now, E.onSample x.sample) else none
    | _ => none
  | .engine e => some e
  | _ => none

end

variable {σ α : Type} {E : SampleEngine σ α} {listens : Bool} {r r' : ReaderSide σ} {e : ReaderEvent α}
  {es : List (ReaderEvent α)}

/-! ## What a step can do -/

/-- What one step of a reader and its engine can do. -/
inductive ReaderStep (E : SampleEngine σ α) (r : ReaderSide σ) :
    ReaderEvent α → Option (ℕ × α) → ReaderSide σ → Prop
  | arrive (x : Received) : ReaderStep E r (.arrive x) none { r with cache := r.cache ++ [x] }
  | lose (i : ℕ) : ReaderStep E r (.lose i) none { r with cache := r.cache.eraseIdx i }
  | ignored : r.pc = .outside → ReaderStep E r .available none r
  | called : r.pc = .outside → ReaderStep E r .available none { r with pc := .take }
  | took (now : ℕ) : r.pc = .take →
      ReaderStep E r (.statement now true) none { r with cache := [], loan := some r.cache, pc := .loop 0 0 }
  | nothing (now : ℕ) : r.pc = .take →
      ReaderStep E r (.statement now false) none { r with pc := .outside, returned := r.returned ++ [0] }
  | handed (now : ℕ) (ok : Bool) (i taken : ℕ) (x : Received) (s : σ) : r.pc = .loop i taken →
      (r.loan.getD [])[i]? = some x → x.validData = true →
      E.step r.engine (now, E.onSample x.sample) = some s →
      ReaderStep E r (.statement now ok) (some (now, E.onSample x.sample))
        { r with engine := s, pc := .loop (i + 1) (taken + 1) }
  | skipped (now : ℕ) (ok : Bool) (i taken : ℕ) (x : Received) : r.pc = .loop i taken →
      (r.loan.getD [])[i]? = some x → x.validData = false →
      ReaderStep E r (.statement now ok) none { r with pc := .loop (i + 1) taken }
  | ended (now : ℕ) (ok : Bool) (i taken : ℕ) : r.pc = .loop i taken → (r.loan.getD [])[i]? = none →
      ReaderStep E r (.statement now ok) none { r with pc := .returnLoan taken }
  | gaveBack (now : ℕ) (ok : Bool) (taken : ℕ) : r.pc = .returnLoan taken →
      ReaderStep E r (.statement now ok) none
        { r with loan := none, pc := .outside, returned := r.returned ++ [taken] }
  | engine (e : ℕ × α) (s : σ) : E.sampleOf e.2 = none → E.step r.engine e = some s →
      ReaderStep E r (.engine e) (some e) { r with engine := s }

/-- **Every step is one of `ReaderStep`.** -/
theorem readerStep_cases (h : readerStep E listens r e = some r') :
    ReaderStep E r e (readerLabel E r e) r' := by
  cases e with
  | arrive x =>
    cases h
    exact .arrive x
  | lose i =>
    simp only [readerStep, Option.ite_none_right_eq_some, Option.some.injEq] at h
    rw [← h.2]
    exact .lose i
  | available =>
    simp only [readerStep, Option.ite_none_right_eq_some, Option.some.injEq] at h
    obtain ⟨hpc, rfl⟩ := h
    cases listens with
    | true => exact .called hpc
    | false => exact .ignored hpc
  | statement now ok =>
    change microReaderTake E now ok r = some r' at h
    unfold microReaderTake at h
    cases hpc : r.pc with
    | outside =>
      rw [hpc] at h
      cases h
    | take =>
      rw [hpc] at h
      rw [show readerLabel E r (.statement now ok) = none by simp [readerLabel, hpc]]
      cases ok with
      | true =>
        cases h
        exact .took now hpc
      | false =>
        cases h
        exact .nothing now hpc
    | loop i taken =>
      simp only [hpc] at h
      cases hx : (r.loan.getD [])[i]? with
      | none =>
        simp only [hx, Option.some.injEq] at h
        rw [← h, show readerLabel E r (.statement now ok) = none by simp [readerLabel, hpc, hx]]
        exact .ended now ok i taken hpc hx
      | some x =>
        simp only [hx] at h
        cases hv : x.validData with
        | true =>
          rw [if_pos hv] at h
          obtain ⟨s, hs, rfl⟩ := Option.map_eq_some_iff.mp h
          rw [show readerLabel E r (.statement now ok) = some (now, E.onSample x.sample) by
            simp [readerLabel, hpc, hx, hv]]
          exact .handed now ok i taken x s hpc hx hv hs
        | false =>
          rw [if_neg (Bool.eq_false_iff.mp hv), Option.some.injEq] at h
          rw [← h, show readerLabel E r (.statement now ok) = none by simp [readerLabel, hpc, hx, hv]]
          exact .skipped now ok i taken x hpc hx hv
    | returnLoan taken =>
      rw [hpc] at h
      cases h
      rw [show readerLabel E r (.statement now ok) = none by simp [readerLabel, hpc]]
      exact .gaveBack now ok taken hpc
  | engine e =>
    simp only [readerStep, Option.ite_none_left_eq_some] at h
    obtain ⟨s, hs, rfl⟩ := Option.map_eq_some_iff.mp h.2
    exact .engine e s (by simpa using h.1) hs

/-- **An engine behind a reader is the engine, fed one sample at a time.** -/
theorem readerStep_simulates :
    Simulates (readerStep E listens) (readerLabel E) E.step fun r s => r.engine = s := by
  intro r s e r' hr h
  subst hr
  refine ⟨r'.engine, ?_, rfl⟩
  have hs := readerStep_cases h
  cases hl : readerLabel E r e with
  | none =>
    rw [hl] at hs
    cases hs <;> rfl
  | some a =>
    rw [hl] at hs
    apply exec_cons.mpr
    cases hs with
    | handed now ok i taken x s hpc hx hv hstep => exact ⟨s, hstep, rfl⟩
    | engine e s ho hstep => exact ⟨s, hstep, rfl⟩

/-! ## What becomes of the samples -/

/-- The samples among the events of the engine. -/
def SampleEngine.samples (E : SampleEngine σ α) (as : List (ℕ × α)) : List PerftestSample :=
  as.filterMap fun a => E.sampleOf a.2

/-- What has arrived at the DataReader. -/
def arrived (es : List (ReaderEvent α)) : List Received :=
  es.filterMap fun e =>
    match e with
    | .arrive x => some x
    | _ => none

/-- What has not been handed to the engine: the rest of the loan, then what waits in the DataReader. -/
def ReaderSide.waiting (r : ReaderSide σ) : List Received :=
  (match r.pc with
    | .loop i _ => (r.loan.getD []).drop i
    | _ => []) ++ r.cache

/-- Nothing is lost in the DataReader. -/
def Lossless (es : List (ReaderEvent α)) : Prop := ∀ i, .lose i ∉ es

/-- After the events `es`, of which `as` were events of the engine. -/
structure ReaderInv (E : SampleEngine σ α) (es : List (ReaderEvent α)) (as : List (ℕ × α))
    (r : ReaderSide σ) : Prop where
  lent : r.loan.isSome = r.pc.lent
  order : (E.samples as ++ valid r.waiting).Sublist (valid (arrived es))
  complete : Lossless es → E.samples as ++ valid r.waiting = valid (arrived es)
  counted : r.returned.sum + r.pc.taken = (E.samples as).length

theorem valid_append (xs ys : List Received) : valid (xs ++ ys) = valid xs ++ valid ys := by
  simp [valid]

theorem valid_cons (x : Received) (xs : List Received) :
    valid (x :: xs) = (if x.validData then [x.sample] else []) ++ valid xs := by
  cases hx : x.validData <;> simp [valid, hx]

theorem samples_append (as bs : List (ℕ × α)) : E.samples (as ++ bs) = E.samples as ++ E.samples bs :=
  List.filterMap_append

/-- An arrival waits behind all others. -/
theorem waiting_arrive (r : ReaderSide σ) (x : Received) :
    ({ r with cache := r.cache ++ [x] } : ReaderSide σ).waiting = r.waiting ++ [x] :=
  (List.append_assoc _ _ _).symm

/-- **What a step hands over was the next to be handed over**; only an arrival adds to the rest, and only the
DataReader takes from it. -/
theorem ReaderStep.waiting {a : Option (ℕ × α)} (h : ReaderStep E r e a r') (harrive : ∀ x, e ≠ .arrive x)
    (hlose : ∀ i, e ≠ .lose i) : E.samples a.toList ++ valid r'.waiting = valid r.waiting := by
  cases h with
  | arrive x => exact absurd rfl (harrive x)
  | lose i => exact absurd rfl (hlose i)
  | ignored hpc => rfl
  | called hpc | took now hpc | nothing now hpc | gaveBack now ok taken hpc =>
    simp [ReaderSide.waiting, hpc, SampleEngine.samples]
  | handed now ok i taken x s hpc hx hv hstep =>
    obtain ⟨hi, hget⟩ := List.getElem?_eq_some_iff.mp hx
    have hdrop : (r.loan.getD []).drop i = x :: (r.loan.getD []).drop (i + 1) := by
      rw [List.drop_eq_getElem_cons hi, hget]
    have hsample : E.samples (some (now, E.onSample x.sample)).toList = [x.sample] := by
      simp [SampleEngine.samples, E.sampleOf_onSample]
    simp only [ReaderSide.waiting, hpc]
    rw [hdrop, hsample, List.cons_append, List.cons_append, valid_cons, if_pos hv]
    rfl
  | skipped now ok i taken x hpc hx hv =>
    obtain ⟨hi, hget⟩ := List.getElem?_eq_some_iff.mp hx
    have hdrop : (r.loan.getD []).drop i = x :: (r.loan.getD []).drop (i + 1) := by
      rw [List.drop_eq_getElem_cons hi, hget]
    simp only [ReaderSide.waiting, hpc]
    rw [hdrop, List.cons_append, valid_cons, if_neg (Bool.eq_false_iff.mp hv)]
    rfl
  | ended now ok i taken hpc hx =>
    have hdrop : (r.loan.getD []).drop i = [] :=
      List.drop_eq_nil_of_le (List.getElem?_eq_none_iff.mp hx)
    simp [ReaderSide.waiting, hpc, hdrop, SampleEngine.samples]
  | engine e s ho hstep => simp [ReaderSide.waiting, SampleEngine.samples, ho]

/-- The sequences are lent from the take to `return_loan`. -/
theorem ReaderStep.lent {a : Option (ℕ × α)} (h : ReaderStep E r e a r') (hl : r.loan.isSome = r.pc.lent) :
    r'.loan.isSome = r'.pc.lent := by
  cases h with
  | arrive x | lose i | ignored hpc | took now hpc | gaveBack now ok taken hpc | engine e s ho hstep =>
    first | exact hl | rfl
  | called hpc | nothing now hpc | handed now ok i taken x s hpc hx hv hstep
  | skipped now ok i taken x hpc hx hv | ended now ok i taken hpc hx =>
    rw [hpc] at hl
    exact hl

/-- Every sample handed over is counted. -/
theorem ReaderStep.counted {a : Option (ℕ × α)} (h : ReaderStep E r e a r') :
    r'.returned.sum + r'.pc.taken = r.returned.sum + r.pc.taken + (E.samples a.toList).length := by
  cases h with
  | arrive x | lose i | ignored hpc => rfl
  | called hpc | took now hpc | nothing now hpc | skipped now ok i taken x hpc hx hv
  | ended now ok i taken hpc hx | gaveBack now ok taken hpc =>
    simp [TakePc.taken, hpc, SampleEngine.samples]
  | handed now ok i taken x s hpc hx hv hstep =>
    simp [TakePc.taken, hpc, SampleEngine.samples, E.sampleOf_onSample, Nat.add_assoc]
  | engine e s ho hstep => simp [SampleEngine.samples, ho]

theorem arrived_append (es fs : List (ReaderEvent α)) : arrived (es ++ fs) = arrived es ++ arrived fs :=
  List.filterMap_append

/-- **What a step hands over and leaves is what waited and what arrived with it.** -/
theorem ReaderStep.balance {a : Option (ℕ × α)} (h : ReaderStep E r e a r') (hlose : ∀ i, e ≠ .lose i) :
    E.samples a.toList ++ valid r'.waiting = valid r.waiting ++ valid (arrived [e]) := by
  cases e with
  | arrive x =>
    cases h
    rw [waiting_arrive, valid_append]
    rfl
  | lose i => exact absurd rfl (hlose i)
  | available | statement now ok | engine a =>
    rw [h.waiting (by simp) (by simp)]
    exact (List.append_nil _).symm

/-- A step keeps the balance of a run unless the DataReader loses something. -/
theorem ReaderStep.balance_snoc {as : List (ℕ × α)} {a : Option (ℕ × α)} {l : List PerftestSample}
    (hs : ReaderStep E r e a r') (hl : Lossless (es ++ [e]))
    (h : Lossless es → E.samples as ++ valid r.waiting = l ++ valid (arrived es)) :
    E.samples (as ++ a.toList) ++ valid r'.waiting = l ++ valid (arrived (es ++ [e])) := by
  have hlose : ∀ i, e ≠ .lose i := fun i hi =>
    hl i (List.mem_append_right _ (List.mem_singleton.mpr hi.symm))
  have hall := h fun i hi => hl i (List.mem_append_left _ hi)
  rw [samples_append, List.append_assoc, hs.balance hlose, ← List.append_assoc, hall, arrived_append,
    valid_append, List.append_assoc]

/-- **One step of a reader and its engine.** -/
theorem readerInv_step {as : List (ℕ × α)} (h : ReaderInv E es as r)
    (hs : readerStep E listens r e = some r') :
    ReaderInv E (es ++ [e]) (as ++ (readerLabel E r e).toList) r' := by
  have hcases := readerStep_cases hs
  have hcount : r'.returned.sum + r'.pc.taken =
      (E.samples (as ++ (readerLabel E r e).toList)).length := by
    rw [hcases.counted, h.counted, samples_append, List.length_append]
  refine ⟨hcases.lent h.lent, ?_, fun hl => ?_, hcount⟩
  · cases e with
    | lose i =>
      cases hcases
      have harrived : arrived (es ++ [.lose i]) = arrived es :=
        List.filterMap_append.trans (List.append_nil _)
      have hless : ({ r with cache := r.cache.eraseIdx i } : ReaderSide σ).waiting.Sublist r.waiting :=
        (List.Sublist.refl _).append (List.eraseIdx_sublist _ _)
      simp only [readerLabel, Option.toList_none, List.append_nil]
      rw [harrived]
      exact ((List.Sublist.refl _).append ((hless.filter _).map _)).trans h.order
    | arrive x | available | statement now ok | engine a =>
      rw [samples_append, List.append_assoc, hcases.balance (by simp), ← List.append_assoc,
        arrived_append, valid_append]
      exact h.order.append_right _
  · exact hcases.balance_snoc (l := []) hl h.complete

/-- **A reader hands over what arrives.** Behind `micro_reader_take` an engine goes through a run of its own,
one sample at a time. What it has been given, and then what still waits in the loan and the DataReader, are
the samples with data that arrived: each at most once and in order, all of them unless the DataReader loses
one. The sequences are lent exactly between the take and `return_loan`, and the calls of `take` return how
many samples they handed over. -/
theorem take_refines {s₀ : σ} (hrun : exec (readerStep E listens) (.start s₀) es = some r) :
    exec E.step s₀ (trace (readerStep E listens) (readerLabel E) (.start s₀) es) = some r.engine ∧
      ReaderInv E es (trace (readerStep E listens) (readerLabel E) (.start s₀) es) r := by
  obtain ⟨s, hs, rfl⟩ := exec_trace readerStep_simulates rfl hrun
  exact ⟨hs, exec_traced ⟨rfl, .refl _, fun _ => rfl, rfl⟩ (fun _ _ _ _ _ => readerInv_step) hrun⟩

/-- **What a run hands over and leaves is what waited at its start and what arrived since**, from any reader
and with a DataReader that loses nothing. -/
theorem balance_run {r₀ : ReaderSide σ} (hl : Lossless es)
    (hrun : exec (readerStep E listens) r₀ es = some r) :
    E.samples (trace (readerStep E listens) (readerLabel E) r₀ es) ++ valid r.waiting =
      valid r₀.waiting ++ valid (arrived es) := by
  refine exec_traced (I := fun es as r => Lossless es →
    E.samples as ++ valid r.waiting = valid r₀.waiting ++ valid (arrived es)) (fun _ => ?_) ?_ hrun hl
  · exact (List.append_nil _).symm
  · intro es as r e r' h hs hl
    exact (readerStep_cases hs).balance_snoc hl h

/-! ## What the subscriber counts -/

/-- What the callback of the subscriber is given. -/
theorem samples_received (T : TypeInterface) (args : InputArgs) (as : List (ℕ × SubAction)) :
    (subscriberEngine T args).samples as = (received as).map Prod.snd := by
  induction as with
  | nil => rfl
  | cons a as ih =>
    obtain ⟨now, a⟩ := a
    rw [← List.singleton_append, samples_append, received_append, List.map_append, ih]
    cases a <;> rfl

/-- The data samples of a list. -/
theorem dataCount_eq (ds : List (ℕ × PerftestSample)) :
    dataCount ds = (ds.map Prod.snd).countP PerftestSample.isData := by
  rw [dataCount, ← List.countP_eq_length_filter, List.countP_map]
  rfl

/-- **Every data sample is counted once**: from the reset block on, with a DataReader that loses nothing, the
total and what still waits are the data samples that waited at the reset and those that arrived since. -/
theorem taken_all_counted {T : TypeInterface} {args : InputArgs} {q : SubState} {now : ℕ}
    {es : List (ReaderEvent SubAction)} {r₀ r : ReaderSide SubState} (hreset : r₀.engine = q.afterReset now)
    (hl : Lossless es) (hrun : exec (readerStep (subscriberEngine T args) listens) r₀ es = some r) :
    r.engine.ctx.totalReceived + (valid r.waiting).countP PerftestSample.isData =
      (valid r₀.waiting).countP PerftestSample.isData +
        (valid (arrived es)).countP PerftestSample.isData := by
  obtain ⟨s, hengine, rfl⟩ := exec_trace readerStep_simulates hreset hrun
  have htotal := (counts_since_reset hengine).1
  rw [dataCount_eq, ← samples_received T args] at htotal
  rw [htotal, ← List.countP_append, ← List.countP_append, balance_run hl hrun]

/-! ## A run -/

/-- Two samples and an entry without data wait when the listener is called; a third sample arrives while they
are lent. -/
def batchRun : List (ReaderEvent SubAction) :=
  [.arrive ⟨sampleOf .data 1, true⟩, .arrive ⟨sampleOf .data 2, false⟩, .arrive ⟨sampleOf .data 3, true⟩,
    .available, .statement 2000 true, .statement 2010 true, .arrive ⟨sampleOf .data 4, true⟩,
    .engine (2015, .main), .statement 2020 true, .statement 2030 true, .statement 2040 true,
    .statement 2050 true]

/-- The subscriber at the start of its polling loop. -/
def pollingStart : SubState := (subInit none).afterReset 1000

/-- The reader and the subscriber after `batchRun`. -/
def batchEnd : ReaderSide SubState :=
  (exec (readerStep (subscriberEngine sequenceType subscriberDefaults) true) (.start pollingStart)
    batchRun).getD (.start pollingStart)

theorem take_refines_batch :
    batchEnd.pc = .outside ∧ batchEnd.returned = [2] ∧
      ReaderInv (subscriberEngine sequenceType subscriberDefaults) batchRun
        (trace (readerStep (subscriberEngine sequenceType subscriberDefaults) true)
          (readerLabel (subscriberEngine sequenceType subscriberDefaults)) (.start pollingStart) batchRun)
        batchEnd := by
  have hrun : exec (readerStep (subscriberEngine sequenceType subscriberDefaults) true)
      (.start pollingStart) batchRun = some batchEnd := by
    decide +kernel
  exact ⟨by decide +kernel, by decide +kernel, (take_refines hrun).2⟩

/-- A reader whose listener is handing over two samples when the reset block runs; a third waits behind. -/
def reachedByReset : ReaderSide SubState where
  engine := pollingStart
  cache := [⟨sampleOf .data 3, true⟩]
  loan := some [⟨sampleOf .data 1, true⟩, ⟨sampleOf .data 2, true⟩]
  pc := .loop 1 1
  returned := []

/-- The rest of that loan is handed over, one more sample arrives. -/
def takenOn : List (ReaderEvent SubAction) :=
  [.statement 1010 true, .statement 1020 true, .arrive ⟨sampleOf .data 4, true⟩, .statement 1030 true]

theorem taken_all_counted_takenOn :
    ∃ r, exec (readerStep (subscriberEngine sequenceType subscriberDefaults) true) reachedByReset takenOn =
      some r ∧ r.engine.ctx.totalReceived + 2 = 3 := by
  have hl : Lossless takenOn := fun i hi => by simp [takenOn] at hi
  obtain ⟨r, hrun, hwaiting⟩ :
      ∃ r, exec (readerStep (subscriberEngine sequenceType subscriberDefaults) true) reachedByReset takenOn =
        some r ∧ (valid r.waiting).countP PerftestSample.isData = 2 :=
    ⟨(exec (readerStep (subscriberEngine sequenceType subscriberDefaults) true) reachedByReset
      takenOn).getD reachedByReset, by decide +kernel, by decide +kernel⟩
  have hbefore : (valid reachedByReset.waiting).countP PerftestSample.isData = 2 := by decide +kernel
  have harrived : (valid (arrived takenOn)).countP PerftestSample.isData = 1 := by decide +kernel
  have h := taken_all_counted (q := subInit none) (by rfl) hl hrun
  rw [hwaiting, hbefore, harrived] at h
  exact ⟨r, hrun, h⟩

end PerftestLite
