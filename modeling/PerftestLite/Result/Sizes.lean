import PerftestLite.Loss.Conservation
import Mathlib.Algebra.BigOperators.Group.List.Basic
import Mathlib.Algebra.Order.Group.Int

/-!
# One size, end to end

A sample takes three sizes in a run: the full payload it is created with, the size of the warm-up, the
test size restored after it. The results of the resizing calls are ignored; that the test size is in
place when the measurement starts rests on what the type layer accepts.

* `SizeContract`: what the engines rely on, kept by both types (`TypeVariant.sizeContract`);
* `PubSized`: the size of the sample, statement by statement;
* `sizes_agree`: the sizes written, reported and counted.
-/

set_option autoImplicit false

namespace PerftestLite

open Word Machine

/-! ## The contract of the type layer -/

/-- The type a build selects. -/
inductive TypeVariant
  | sequence (maxPayload defaultDatalen : ℤ)
  | zcopy (datalen : ℤ)
  deriving DecidableEq, Repr

/-- `perftest_lite_type_get`; the calls on octet sequences are those of the middleware. -/
def TypeVariant.interface (calls : OctetSeqCalls) : TypeVariant → TypeInterface
  | .sequence maxPayload defaultDatalen => typeDefault calls maxPayload defaultDatalen
  | .zcopy datalen => typeZcopy datalen

/-- The payload buffers the type works with; that of a sequence has the compiled maximum. -/
def TypeVariant.Fits : TypeVariant → OctetSeq → Prop
  | .sequence maxPayload _, s => s.maximum = maxPayload
  | .zcopy _, _ => True

/-- What the engines take for granted: an accepted size can be set, a size that was set is the one reported, and
a failure changes nothing. -/
structure SizeContract (T : TypeInterface) (Fits : OctetSeq → Prop) : Prop where
  create : Fits T.create.binData
  accepted : ∀ {args : InputArgs} {x : PerftestSample}, InInt32 args.datalen → Fits x.binData →
    T.validateInput args = true → (T.setSampleSize x args.datalen).1 = true
  set : ∀ {x : PerftestSample} {size : ℤ}, InInt32 size → Fits x.binData →
    (T.setSampleSize x size).1 = true →
      Fits (T.setSampleSize x size).2.binData ∧ T.getSampleSize (T.setSampleSize x size).2 = size
  failed : ∀ {x : PerftestSample} {size : ℤ}, InInt32 size → Fits x.binData →
    (T.setSampleSize x size).1 = false → (T.setSampleSize x size).2 = x
  payload : ∀ {x y : PerftestSample}, x.binData = y.binData → T.getSampleSize x = T.getSampleSize y

namespace TypeDefault

variable {calls : OctetSeqCalls} {maxPayload size n : ℤ} {x : PerftestSample}

/-- A length within the maximum is set without growing the buffer. -/
theorem setPayloadLength_within (hcalls : calls.Lawful) (h0 : 0 ≤ n) (hn : n ≤ x.binData.maximum) :
    setPayloadLength calls x n = (true, { x with binData := ⟨x.binData.maximum, n⟩ }) := by
  have hgrown : ¬ n > x.binData.maximum := by omega
  unfold setPayloadLength
  simp only [if_neg hgrown, hcalls.setLength h0 hn, if_true]

/-- The two bounds on a size, without the wrap-around. -/
theorem payload_of_size (hs : InInt32 size) (h : typeOverhead ≤ size) :
    i32 (size - typeOverhead) = size - typeOverhead := by
  obtain ⟨h1, h2⟩ := hs
  unfold typeOverhead at *
  exact i32_of_range ⟨by omega, by omega⟩

theorem setSampleSize_within (hcalls : calls.Lawful) (hs : InInt32 size) (h : typeOverhead ≤ size)
    (hfit : size - typeOverhead ≤ maxPayload) (hx : x.binData.maximum = maxPayload) :
    setSampleSize calls maxPayload x size =
      (true, { x with binData := ⟨maxPayload, size - typeOverhead⟩ }) := by
  unfold setSampleSize
  rw [payload_of_size hs h, if_neg (by omega), setPayloadLength_within hcalls (by omega) (by omega), hx]

/-- A size outside the bounds is refused and the sample stays. -/
theorem setSampleSize_outside (hs : InInt32 size)
    (h : ¬ (typeOverhead ≤ size ∧ size - typeOverhead ≤ maxPayload)) :
    setSampleSize calls maxPayload x size = (false, x) := by
  unfold setSampleSize
  apply if_pos
  by_cases hle : typeOverhead ≤ size
  · rw [payload_of_size hs hle]
    exact .inr (by omega)
  · exact .inl (by omega)

/-- **One call on a sample with its full buffer.** -/
theorem setSampleSize_eq (hcalls : calls.Lawful) (hs : InInt32 size) (hx : x.binData.maximum = maxPayload) :
    setSampleSize calls maxPayload x size =
      if typeOverhead ≤ size ∧ size - typeOverhead ≤ maxPayload then
        (true, { x with binData := ⟨maxPayload, size - typeOverhead⟩ })
      else (false, x) := by
  split_ifs with h
  · exact setSampleSize_within hcalls hs h.1 h.2 hx
  · exact setSampleSize_outside hs h

theorem sizeContract (hcalls : calls.Lawful) (maxPayload defaultDatalen : ℤ) :
    SizeContract (typeDefault calls maxPayload defaultDatalen) fun s => s.maximum = maxPayload where
  create := rfl
  accepted := by
    intro args x hs hx hok
    change validateInput maxPayload args = true at hok
    simp only [validateInput, Bool.and_eq_true, decide_eq_true_eq] at hok
    obtain ⟨hle, hfit⟩ := hok
    rw [payload_of_size hs hle] at hfit
    exact congrArg Prod.fst (setSampleSize_within hcalls hs hle hfit hx)
  set := by
    intro x size hs hx h
    change (setSampleSize calls maxPayload x size).1 = true at h
    change (setSampleSize calls maxPayload x size).2.binData.maximum = maxPayload ∧
      getSampleSize (setSampleSize calls maxPayload x size).2 = size
    rw [setSampleSize_eq hcalls hs hx] at h ⊢
    split_ifs at h ⊢ with hbounds
    · refine ⟨rfl, ?_⟩
      change i32 (size - typeOverhead + typeOverhead) = size
      rw [Int.sub_add_cancel]
      exact i32_of_range hs
  failed := by
    intro x size hs hx h
    change (setSampleSize calls maxPayload x size).1 = false at h
    change (setSampleSize calls maxPayload x size).2 = x
    rw [setSampleSize_eq hcalls hs hx] at h ⊢
    split_ifs at h ⊢
    · rfl
  payload := by
    intro x y h
    change i32 (x.binData.length + typeOverhead) = i32 (y.binData.length + typeOverhead)
    rw [h]

end TypeDefault

theorem TypeZcopy.sizeContract (datalen : ℤ) : SizeContract (typeZcopy datalen) fun _ => True where
  create := trivial
  accepted := by
    intro args x _ _ hok
    exact hok
  set := by
    intro x size _ _ h
    exact ⟨trivial, (of_decide_eq_true h).symm⟩
  failed _ _ _ := rfl
  payload _ := rfl

/-- **Both types keep the contract.** -/
theorem TypeVariant.sizeContract (V : TypeVariant) {calls : OctetSeqCalls} (hcalls : calls.Lawful) :
    SizeContract (V.interface calls) V.Fits := by
  cases V with
  | sequence maxPayload defaultDatalen => exact TypeDefault.sizeContract hcalls maxPayload defaultDatalen
  | zcopy datalen => exact TypeZcopy.sizeContract datalen

/-! ## The size of the sample, statement by statement -/

section Run

variable {T : TypeInterface} {Fits : OctetSeq → Prop} {cfg : Config} {args : InputArgs} {now : ℕ}
  {ok : Bool} {results : Option Results} {s s' : PubState}

/-- An accepted size is set, though nobody looks at the outcome. -/
theorem SizeContract.resize (hT : SizeContract T Fits) (hd : InInt32 args.datalen)
    (hok : T.validateInput args = true) {x : PerftestSample} (hx : Fits x.binData) :
    Fits (T.resize x args.datalen).binData ∧
      T.getSampleSize (T.resize x args.datalen) = args.datalen :=
  hT.set hd hx (hT.accepted hd hx hok)

/-- The warm-up has the init size, or the test size where that one is not accepted. -/
theorem SizeContract.warmup (hT : SizeContract T Fits) (hd : InInt32 args.datalen)
    (hi : InInt32 cfg.initSampleSize) (hok : T.validateInput args = true) {x : PerftestSample}
    (hx : Fits x.binData) :
    Fits (warmupSample T cfg args x).binData ∧
      (T.getSampleSize (warmupSample T cfg args x) = cfg.initSampleSize ∨
        T.getSampleSize (warmupSample T cfg args x) = args.datalen) := by
  have hx' : Fits ({ x with kind := .initialization } : PerftestSample).binData := hx
  have hset := hT.set hi hx'
  have hfailed := hT.failed hi hx'
  unfold warmupSample
  dsimp only at hset hfailed ⊢
  split
  case h_1 y heq =>
    rw [heq] at hset
    exact ⟨(hset rfl).1, .inl (hset rfl).2⟩
  case h_2 y heq =>
    rw [heq] at hfailed
    have hy : y = { x with kind := .initialization } := hfailed rfl
    have hr := hT.resize hd hok (x := y) (by rw [hy]; exact hx)
    exact ⟨hr.1, .inr hr.2⟩

/-- The test size is in place again. -/
def PubPc.restored : PubPc → Bool
  | .warmup | .burst _ | .settle => false
  | _ => true

/-- The sizes of the sample, of what was written and of what is reported. -/
structure PubSized (T : TypeInterface) (Fits : OctetSeq → Prop) (cfg : Config) (args : InputArgs)
    (results : Option Results) (s : PubState) : Prop where
  payload : Fits s.sample.binData
  burst : ∀ i, s.pc = .burst i → T.getSampleSize s.sample = cfg.initSampleSize ∨
    T.getSampleSize s.sample = args.datalen
  restored : s.pc.restored = true → T.getSampleSize s.sample = args.datalen
  written : ∀ w ∈ s.writes, T.getSampleSize w.1 = args.datalen ∨
    w.1.kind = .initialization ∧ T.getSampleSize w.1 = cfg.initSampleSize
  stored : s.pc.tallied = true → s.tmp.sizeBytes = args.datalen
  results : s.results = if s.pc.phase = 2 then appendResult s.tmp results else results

/-- A write of the test size. -/
theorem PubSized.wrote (h : PubSized T Fits cfg args results s)
    (hx : T.getSampleSize s.sample = args.datalen) (ok : Bool) :
    ∀ w ∈ s.wrote s.sample ok, T.getSampleSize w.1 = args.datalen ∨
      w.1.kind = .initialization ∧ T.getSampleSize w.1 = cfg.initSampleSize := by
  intro w hw
  rcases List.mem_append.mp hw with hw | hw
  · exact h.written w hw
  · rw [List.mem_singleton.mp hw]
    exact .inl hx

/-- The size in the result. -/
theorem PubSized.assigned (h : PubSized T Fits cfg args results s) {f : FinishPc} (hpc : s.pc = .finish f)
    (hf : f = .elapsed ∨ s.pc.tallied = true) : (f.assign args now s).sizeBytes = args.datalen := by
  rcases hf with rfl | hst
  · rfl
  · have hsize := h.stored hst
    cases f with
    | elapsed => rfl
    | sort | count =>
      unfold FinishPc.assign
      dsimp only
      split_ifs <;> exact hsize
    | percentiles | received | average sum | minimum | maximum => exact hsize

theorem pubSized_main (hT : SizeContract T Fits) (hd : InInt32 args.datalen)
    (hi : InInt32 cfg.initSampleSize) (hok : T.validateInput args = true) (ho : PubOrder args s)
    (h : PubSized T Fits cfg args results s) (hs : PubMain T cfg args now ok s s') :
    PubSized T Fits cfg args results s' := by
  have hres := h.results
  cases hs with
  | warmup hpc =>
    rw [hpc] at hres
    obtain ⟨hfit, hsize⟩ := hT.warmup hd hi hok h.payload
    exact ⟨hfit, fun _ _ => hsize, by simp [PubPc.restored], h.written, fun ht => (by cases ht), hres⟩
  | burst i hpc hlt =>
    rw [hpc] at hres
    have hsize : T.getSampleSize { s.sample with timestampUs := now } = T.getSampleSize s.sample :=
      hT.payload rfl
    refine ⟨h.payload, fun _ _ => ?_, by simp [PubPc.restored], ?_, fun ht => (by cases ht), hres⟩
    · rw [hsize]
      exact h.burst i hpc
    · intro w hw
      rcases List.mem_append.mp hw with hw | hw
      · exact h.written w hw
      · rw [List.mem_singleton.mp hw, hsize]
        exact (h.burst i hpc).symm.imp_right fun hinit => ⟨ho.burst i hpc, hinit⟩
  | burstEnd i hpc _ =>
    rw [hpc] at hres
    exact ⟨h.payload, by simp, by simp [PubPc.restored], h.written, fun ht => (by cases ht), hres⟩
  | settle hpc =>
    rw [hpc] at hres
    obtain ⟨hfit, hsize⟩ := hT.resize hd hok h.payload
    exact ⟨hfit, by simp, fun _ => hsize, h.written, fun ht => (by cases ht), hres⟩
  | reset hpc | begin hpc | again hpc _ | leave hpc _ | sleep hpc | tick hpc _ | tickLine hpc _ _
  | line _ _ hpc _ | lineEnd _ hpc _ =>
    rw [hpc] at hres
    have hsize := h.restored (by rw [hpc]; rfl)
    exact ⟨h.payload, by simp, fun _ => hsize, h.written, fun ht => (by cases ht), hres⟩
  | taken _ hpc _ _ | expired _ hpc _ _ _ =>
    rw [hpc] at hres
    have hsize := h.restored (by rw [hpc]; rfl)
    exact ⟨h.payload, by simp, fun _ => hsize, h.written, fun ht => (by cases ht), hres⟩
  | prepare hpc =>
    rw [hpc] at hres
    have hsize := h.restored (by rw [hpc]; rfl)
    exact ⟨h.payload, by simp, fun _ => (hT.payload (by rfl)).trans hsize, h.written,
      fun ht => (by cases ht), hres⟩
  | writeWait hpc _ _ _ | writeOn hpc _ =>
    rw [hpc] at hres
    have hsize := h.restored (by rw [hpc]; rfl)
    exact ⟨h.payload, by simp, fun _ => hsize, h.wrote hsize _, fun ht => (by cases ht), hres⟩
  | finish f f' hpc hf =>
    have hph : s.pc.phase ≠ 2 := by simp [hpc, PubPc.phase]
    rw [if_neg hph] at hres
    exact ⟨h.payload, by simp, fun _ => h.restored (by rw [hpc]; rfl), h.written,
      fun hst => h.assigned hpc (hpc ▸ FinishPc.tallied_of_next hf hst), hres⟩
  | finishEnd f hpc hf =>
    have hph : s.pc.phase ≠ 2 := by simp [hpc, PubPc.phase]
    rw [if_neg hph] at hres
    exact ⟨h.payload, by simp, fun _ => h.restored (by rw [hpc]; rfl), h.written,
      fun _ => h.assigned hpc (.inr (by rw [hpc, FinishPc.eq_maximum hf]; rfl)), hres⟩
  | report hpc =>
    rw [hpc] at hres
    have hsize := h.restored (by rw [hpc]; rfl)
    have hm := h.stored (by rw [hpc]; rfl)
    refine ⟨h.payload, by simp, fun _ => (hT.payload (by rfl)).trans hsize, h.written,
      fun _ => hm, ?_⟩
    change appendResult s.tmp s.results = appendResult s.tmp results
    rw [hres]
    rfl
  | final k hpc _ _ =>
    rw [hpc] at hres
    have hsize := h.restored (by rw [hpc]; rfl)
    have hm := h.stored (by rw [hpc]; rfl)
    exact ⟨h.payload, by simp, fun _ => hsize, h.wrote hsize _, fun _ => hm, hres⟩
  | finalEnd k hpc _ | finalSleep k hpc | shutdown hpc =>
    rw [hpc] at hres
    have hsize := h.restored (by rw [hpc]; rfl)
    have hm := h.stored (by rw [hpc]; rfl)
    exact ⟨h.payload, by simp, fun _ => hsize, h.written, fun _ => hm, hres⟩

/-- The callbacks touch neither the sample nor the results. -/
theorem PubSized.callback (h : PubSized T Fits cfg args results s) (c : PubCtx)
    (r : List (ℕ × PerftestSample)) :
    PubSized T Fits cfg args results { s with ctx := c, records := r } :=
  ⟨h.payload, h.burst, h.restored, h.written, h.stored, h.results⟩

theorem pubSized_exec (hT : SizeContract T Fits) (hd : InInt32 args.datalen)
    (hi : InInt32 cfg.initSampleSize) (hok : T.validateInput args = true) {history : Bool}
    {matchedPubs : ℤ} {es : List (ℕ × PubAction)} {p : PubState}
    (hrun : exec (pubStep T cfg args) (pubInit T args history matchedPubs results) es = some p) :
    PubSized T Fits cfg args results p := by
  have hinit : PubSized T Fits cfg args results (pubInit T args history matchedPubs results) :=
    ⟨hT.create, by simp [pubInit], by simp [pubInit, PubPc.restored], by simp [pubInit],
      fun hst => (by cases hst), rfl⟩
  refine (exec_invariant (I := fun s => PubInv args s ∧ PubSized T Fits cfg args results s) ?_ hrun
    ⟨pubInv_init T args history matchedPubs results, hinit⟩).2
  rintro s ⟨now, act⟩ s' ⟨hinv, h⟩ hs
  refine ⟨pubInv_step hinv hs, ?_⟩
  cases act with
  | main ok => exact pubSized_main hT hd hi hok hinv.order h (pubMain_cases hs)
  | pong x =>
    simp only [pubStep, Option.ite_none_left_eq_some, Option.some.injEq] at hs
    rw [← hs.2]
    exact h.callback _ _
  | matched change =>
    simp only [pubStep, Option.ite_none_left_eq_some, Option.some.injEq] at hs
    rw [← hs.2]
    exact h.callback _ s.records

end Run

/-! ## What the subscriber makes of it -/

/-- The samples the subscriber counts. -/
def dataOf (ds : List (ℕ × PerftestSample)) : List PerftestSample :=
  (ds.map Prod.snd).filter PerftestSample.isData

/-- **One remembered size stands for all.** If every data sample has size `n`, then the count times
the size remembered is the number of bytes received. -/
theorem bytes_receive {T : TypeInterface} {n : ℤ} (c : SubCtx) {ds : List (ℕ × PerftestSample)}
    (hn : ∀ x ∈ dataOf ds, T.getSampleSize x = n) :
    (subReceive T (subReset c) ds).totalReceived = (dataOf ds).length ∧
      (dataOf ds ≠ [] → (subReceive T (subReset c) ds).currentSizeBytes = n) := by
  induction ds using List.reverseRecOn with
  | nil => exact ⟨rfl, fun h => absurd rfl h⟩
  | append_singleton ds d ih =>
    have hsplit : dataOf (ds ++ [d]) = dataOf ds ++ dataOf [d] := by
      unfold dataOf
      rw [List.map_append, List.filter_append]
    rw [hsplit] at hn ⊢
    obtain ⟨htotal, hsize⟩ := ih fun x hx => hn x (List.mem_append_left _ hx)
    rw [subReceive_append]
    change (subOnSample T d.1 d.2 (subReceive T (subReset c) ds)).1.totalReceived = _ ∧
      (_ → (subOnSample T d.1 d.2 (subReceive T (subReset c) ds)).1.currentSizeBytes = n)
    by_cases hd : d.2.isData = true
    · have hone : dataOf [d] = [d.2] := List.filter_cons_of_pos hd
      rw [hone] at hn ⊢
      rw [subOnSample_data hd, List.length_append, List.length_singleton]
      exact ⟨congrArg (· + 1) htotal, fun _ => hn d.2 (List.mem_append_right _ List.mem_cons_self)⟩
    · have hnone : dataOf [d] = [] := List.filter_cons_of_neg hd
      obtain ⟨lost, fin, heq⟩ : ∃ lost fin, (subOnSample T d.1 d.2 (subReceive T (subReset c) ds)).1 =
        { subReceive T (subReset c) ds with lostSamples := lost, finished := fin } := subOnSample_other hd
      rw [hnone, List.append_nil, heq]
      exact ⟨htotal, hsize⟩

/-- **Sizes agree.** For either type and any accepted arguments, in every state of every run: what is
written after the warm-up has the configured length, what is written in the warm-up has that one or
the init size, the result reports it, and whatever part of the data samples reaches the subscriber, its
count times the size it remembers is the sum of the sizes received. -/
theorem sizes_agree (V : TypeVariant) {calls : OctetSeqCalls} (hcalls : calls.Lawful) {cfg : Config}
    {args : InputArgs} {history : Bool} {matchedPubs : ℤ} {results : Option Results}
    {es : List (ℕ × PubAction)} {p : PubState} (hd : InInt32 args.datalen) (hi : InInt32 cfg.initSampleSize)
    (hok : (V.interface calls).validateInput args = true)
    (hrun : exec (pubStep (V.interface calls) cfg args)
      (pubInit (V.interface calls) args history matchedPubs results) es = some p) :
    (∀ w ∈ p.writes, w.1.kind ≠ .initialization →
      (V.interface calls).getSampleSize w.1 = args.datalen) ∧
    (∀ w ∈ p.writes, w.1.kind = .initialization →
      (V.interface calls).getSampleSize w.1 = cfg.initSampleSize ∨
        (V.interface calls).getSampleSize w.1 = args.datalen) ∧
    (p.pc.measured = true → p.tmp.sizeBytes = args.datalen) ∧
    (p.pc.phase = 2 → p.results = appendResult p.tmp results) ∧
    ∀ (c : SubCtx) (ds : List (ℕ × PerftestSample)), (∀ d ∈ ds, d.2 ∈ p.writes.map Prod.fst) →
      ((subReceive (V.interface calls) (subReset c) ds).totalReceived : ℤ) *
          (subReceive (V.interface calls) (subReset c) ds).currentSizeBytes =
        ((dataOf ds).map (V.interface calls).getSampleSize).sum := by
  have h : PubSized (V.interface calls) V.Fits cfg args results p :=
    pubSized_exec (V.sizeContract hcalls) hd hi hok hrun
  have hkind : ∀ w ∈ p.writes, w.1.kind ≠ .initialization →
      (V.interface calls).getSampleSize w.1 = args.datalen := by
    intro w hw hk
    rcases h.written w hw with hsize | ⟨hinit, -⟩
    · exact hsize
    · exact absurd hinit hk
  refine ⟨hkind, fun w hw _ => ?_, fun hm => h.stored (PubPc.tallied_of_measured hm), fun hph => ?_,
    fun c ds hds => ?_⟩
  · exact (h.written w hw).symm.imp_left And.right
  · rw [h.results, if_pos hph]
  · have hall : ∀ x ∈ dataOf ds, (V.interface calls).getSampleSize x = args.datalen := by
      intro x hx
      obtain ⟨hmem, hdata⟩ := List.mem_filter.mp hx
      obtain ⟨d, hdm, rfl⟩ := List.mem_map.mp hmem
      obtain ⟨w, hw, hwd⟩ := List.mem_map.mp (hds d hdm)
      rw [← hwd] at hdata ⊢
      refine hkind w hw fun hk => ?_
      rw [PerftestSample.isData_eq hk] at hdata
      cases hdata
    obtain ⟨htotal, hsize⟩ := bytes_receive (T := V.interface calls) c hall
    have hsum : ((dataOf ds).map (V.interface calls).getSampleSize).sum =
        (dataOf ds).length * args.datalen := by
      rw [List.map_congr_left hall, List.map_const', List.sum_replicate, nsmul_eq_mul]
    by_cases hnil : dataOf ds = []
    · rw [hsum, htotal, hnil, List.length_nil, Int.natCast_zero, zero_mul, zero_mul]
    · rw [hsum, htotal, hsize hnil]

theorem sizes_agree_two :
    (∀ w ∈ twoSamplesEnd.writes, w.1.kind ≠ .initialization → sequenceType.getSampleSize w.1 = 100) ∧
      twoSamplesEnd.tmp.sizeBytes = 100 := by
  have hok : sequenceType.validateInput publisherDefaults = true := by decide
  have h := sizes_agree (.sequence 64000 100) growingCalls_lawful (by decide) (by decide) hok exec_twoSamples
  exact ⟨h.1, h.2.2.1 (by decide +kernel)⟩

end PerftestLite
