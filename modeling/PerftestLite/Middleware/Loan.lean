import PerftestLite.Core.Types
import PerftestLite.Lib.Ledger

/-!
# Writing through a loan

`micro_writer_write_zcopy` borrows a sample from the DataWriter, fills in the metadata and writes the
borrowed one; whatever fails after the loan is there gives the loan back. `micro_writer_write` writes the
caller's sample itself.

The loans are numbered in the order in which they are obtained, so a buffer that is lent again is another
loan; `history` lists what was done with them.

* `microWriterWriteZcopy`, `microWriterWrite`: the two write functions, over the outcomes of the calls;
* `ZcopyWrite`, `microWriterWriteZcopy_cases`: what one call can do;
* `LoanInv`, `loanInv_exec`: what is outstanding is what could not be given back;
* `zcopy_write_path`: no loan is lost, and what is delivered has the metadata of the plain path.
-/

set_option autoImplicit false

namespace PerftestLite

open Machine

/-- Where a sample is: with the caller, or lent by the DataWriter. -/
inductive Place
  | sample (p : ℕ)
  | loan (n : ℕ)
  deriving DecidableEq, Repr

abbrev Memory := Place → PerftestSample

/-- What became of a loan. `discarded` is a call of `DDS_DataWriter_discard_loan` and its outcome. -/
inductive LoanEvent
  | obtained (n : ℕ)
  | consumed (n : ℕ)
  | discarded (n : ℕ) (ok : Bool)
  deriving DecidableEq, Repr

def LoanEvent.loan : LoanEvent → ℕ
  | .obtained n | .consumed n | .discarded n _ => n

/-- The entry in the ledger of loans. -/
def LoanEvent.move : LoanEvent → Option (Move ℕ)
  | .obtained n => some (.acquire n)
  | .consumed n => some (.release n)
  | .discarded n ok => if ok then some (.release n) else none

/-- The DataWriter and the samples around it; `next` is the number of the next loan. -/
structure DataWriter where
  memory : Memory
  next : ℕ
  history : List LoanEvent
  delivered : List PerftestSample

/-- A DataWriter that has lent and delivered nothing. -/
def DataWriter.fresh (memory : Memory) : DataWriter := ⟨memory, 0, [], []⟩

/-! ## Calls of the DataWriter -/

/-- `DDS_DataWriter_get_loan`: the contents of the buffer it lends, or why it lends none. -/
inductive LoanOutcome
  | ok (buffer : PerftestSample)
  | outOfResources
  | error
  deriving DecidableEq, Repr

/-- Loan number `next`, in a buffer with old contents. -/
def DataWriter.lend (w : DataWriter) (buffer : PerftestSample) : DataWriter :=
  { w with
    memory := Function.update w.memory (.loan w.next) buffer
    next := w.next + 1
    history := w.history ++ [.obtained w.next] }

/-- A successful write: the sample is delivered, a loan is consumed with it. -/
def DataWriter.deliver (w : DataWriter) (place : Place) : DataWriter :=
  { w with
    delivered := w.delivered ++ [w.memory place]
    history := match place with
      | .sample _ => w.history
      | .loan n => w.history ++ [.consumed n] }

/-- `DDS_DataWriter_discard_loan`. -/
def DataWriter.discardLoan (w : DataWriter) (n : ℕ) (ok : Bool) : DataWriter :=
  { w with history := w.history ++ [.discarded n ok] }

/-! ## The write functions -/

/-- One call of `writer->write`: the sample and the outcomes of the calls it may make. -/
structure WriteCall where
  sample : ℕ
  loan : LoanOutcome
  writeOk : Bool
  discardOk : Bool
  deriving DecidableEq, Repr

/-- `type_copy_for_write` of the zero-copy type: the payload stays as it is. -/
def TypeZcopy.typeCopyForWrite (dst src : Place) (m : Memory) : ℤ × Memory :=
  (0, Function.update m dst { m dst with
    sequenceNumber := (m src).sequenceNumber
    kind := (m src).kind
    timestampUs := (m src).timestampUs })

/-- `micro_writer_write`. -/
def microWriterWrite (c : WriteCall) (w : DataWriter) : ℤ × DataWriter :=
  if c.writeOk then (0, w.deliver (.sample c.sample)) else (-1, w)

/-- `micro_writer_write_zcopy`, with the `copy_for_write` of the selected type. -/
def microWriterWriteZcopy (copyForWrite : Place → Place → Memory → ℤ × Memory) (c : WriteCall)
    (w : DataWriter) : ℤ × DataWriter :=
  match c.loan with
  | .outOfResources => (-1, w)
  | .error => (-1, w)
  | .ok buffer =>
    let loaned := w.next
    let w := w.lend buffer
    let copied := copyForWrite (.loan loaned) (.sample c.sample) w.memory
    let w := { w with memory := copied.2 }
    if copied.1 ≠ 0 then (-1, w.discardLoan loaned c.discardOk)
    else if c.writeOk then (0, w.deliver (.loan loaned))
    else (-1, w.discardLoan loaned c.discardOk)

section Write

variable {copyForWrite : Place → Place → Memory → ℤ × Memory} {c : WriteCall} {w w' : DataWriter}
  {rc : ℤ}

/-- What one call of `micro_writer_write_zcopy` can do. -/
inductive ZcopyWrite (copyForWrite : Place → Place → Memory → ℤ × Memory) (c : WriteCall)
    (w : DataWriter) : ℤ → DataWriter → Prop
  | noLoan : (∀ b, c.loan ≠ .ok b) → ZcopyWrite copyForWrite c w (-1) w
  | written (b : PerftestSample) : c.loan = .ok b →
      ZcopyWrite copyForWrite c w 0 (({ w.lend b with
        memory := (copyForWrite (.loan w.next) (.sample c.sample) (w.lend b).memory).2 }).deliver
          (.loan w.next))
  | returned (b : PerftestSample) : c.loan = .ok b →
      ZcopyWrite copyForWrite c w (-1) (({ w.lend b with
        memory := (copyForWrite (.loan w.next) (.sample c.sample) (w.lend b).memory).2 }).discardLoan
          w.next c.discardOk)

theorem microWriterWriteZcopy_cases (h : microWriterWriteZcopy copyForWrite c w = (rc, w')) :
    ZcopyWrite copyForWrite c w rc w' := by
  unfold microWriterWriteZcopy at h
  split at h
  case h_1 hl =>
    cases h
    exact .noLoan fun b hb => by rw [hl] at hb; cases hb
  case h_2 hl =>
    cases h
    exact .noLoan fun b hb => by rw [hl] at hb; cases hb
  case h_3 b hl =>
    dsimp only at h
    split_ifs at h
    · cases h
      exact .returned b hl
    · cases h
      exact .written b hl
    · cases h
      exact .returned b hl

/-! ## The loans of a run -/

/-- What happens to the DataWriter and the samples: the caller changes one of its own, or writes one. -/
inductive WriterEvent
  | edit (p : ℕ) (x : PerftestSample)
  | write (c : WriteCall)
  deriving DecidableEq, Repr

def writerStep (copyForWrite : Place → Place → Memory → ℤ × Memory) (w : DataWriter) :
    WriterEvent → Option DataWriter
  | .edit p x => some { w with memory := Function.update w.memory (.sample p) x }
  | .write c => some (microWriterWriteZcopy copyForWrite c w).2

/-- A write is one of `ZcopyWrite`. -/
theorem writerStep_cases (hs : writerStep copyForWrite w (.write c) = some w') :
    ∃ rc, ZcopyWrite copyForWrite c w rc w' := by
  cases hs
  exact ⟨_, microWriterWriteZcopy_cases Prod.mk.eta.symm⟩

/-- A loan that has to be given back can be. -/
def WriterEvent.discards : WriterEvent → Bool
  | .edit _ _ => true
  | .write c => c.discardOk

/-- The entries of the ledger. -/
def DataWriter.moves (w : DataWriter) : List (Move ℕ) := w.history.filterMap LoanEvent.move

/-- Outstanding is what could not be given back; every number below `next` was obtained once. -/
structure LoanInv (w : DataWriter) : Prop where
  ledger : Ledger.replay w.moves = some fun n => decide (.discarded n false ∈ w.history)
  fresh : ∀ e ∈ w.history, e.loan < w.next
  obtained : ∀ n < w.next, w.history.count (.obtained n) = 1

theorem LoanInv.congr (h : LoanInv w) (hhist : w'.history = w.history) (hnext : w'.next = w.next) :
    LoanInv w' := by
  obtain ⟨h1, h2, h3⟩ := h
  constructor
  · unfold DataWriter.moves
    rw [hhist]
    exact h1
  · rw [hhist, hnext]
    exact h2
  · rw [hhist, hnext]
    exact h3

/-- The number of the next loan has not been used. -/
theorem LoanInv.next_free (h : LoanInv w) {e : LoanEvent} (he : e.loan = w.next) : e ∉ w.history := by
  intro hmem
  have := h.fresh e hmem
  omega

/-- **One loan, obtained and then done with in one of the ways there are.** -/
theorem LoanInv.settle (h : LoanInv w) {e : LoanEvent} (he : e.loan = w.next)
    (hob : e ≠ .obtained w.next) (hnext : w'.next = w.next + 1)
    (hhist : w'.history = w.history ++ [.obtained w.next, e]) : LoanInv w' := by
  have hfree : ∀ e : LoanEvent, e.loan = w.next → e ∉ w.history := fun e he => h.next_free he
  have hlent : Ledger.replay (w.moves ++ [.acquire w.next]) =
      some fun n => if n = w.next then true else decide (.discarded n false ∈ w.history) :=
    Ledger.replay_acquire h.ledger (by simpa using hfree (.discarded w.next false) rfl) fun _ => rfl
  have hmoves : w'.moves = w.moves ++ [.acquire w.next] ++ [e].filterMap LoanEvent.move := by
    unfold DataWriter.moves
    rw [hhist, List.append_cons, List.filterMap_append, List.filterMap_append]
    rfl
  constructor
  · rw [hmoves, hhist]
    cases e with
    | obtained n =>
      obtain rfl : n = w.next := he
      exact absurd rfl hob
    | consumed n =>
      obtain rfl : n = w.next := he
      refine Ledger.replay_release hlent (if_pos rfl) fun n => ?_
      by_cases hn : n = w.next
      · simp [hn, hfree (.discarded w.next false) rfl]
      · simp [hn]
    | discarded n ok =>
      obtain rfl : n = w.next := he
      cases ok with
      | true =>
        refine Ledger.replay_release hlent (if_pos rfl) fun n => ?_
        by_cases hn : n = w.next
        · simp [hn, hfree (.discarded w.next false) rfl]
        · simp [hn]
      | false =>
        refine Ledger.replay_idle hlent fun n => ?_
        by_cases hn : n = w.next
        · simp [hn]
        · simp [hn]
  · rw [hhist, hnext]
    intro e' he'
    simp only [List.mem_append, List.mem_cons, List.not_mem_nil, or_false] at he'
    rcases he' with hold | rfl | rfl
    · have := h.fresh e' hold
      omega
    · exact Nat.lt_succ_self _
    · omega
  · rw [hhist, hnext]
    intro n hn
    rw [List.count_append, List.count_cons, List.count_singleton]
    by_cases hlast : n = w.next
    · subst hlast
      simp [List.count_eq_zero_of_not_mem (hfree (.obtained w.next) rfl), hob]
    · have hone := h.obtained n (by omega)
      have hne : e ≠ .obtained n := by
        rintro rfl
        exact hlast he
      simp [hone, hne, Ne.symm hlast]

theorem loanInv_step (h : LoanInv w) {e : WriterEvent} (hs : writerStep copyForWrite w e = some w') :
    LoanInv w' := by
  cases e with
  | edit p x =>
    cases hs
    exact h.congr rfl rfl
  | write c =>
    obtain ⟨rc, hcase⟩ := writerStep_cases hs
    cases hcase with
    | noLoan hl => exact h
    | written b hl => exact h.settle (e := .consumed w.next) rfl (by simp) rfl (List.append_assoc _ _ _)
    | returned b hl =>
      exact h.settle (e := .discarded w.next c.discardOk) rfl (by simp) rfl (List.append_assoc _ _ _)

theorem loanInv_exec {memory : Memory} {es : List WriterEvent}
    (hrun : exec (writerStep copyForWrite) (.fresh memory) es = some w) : LoanInv w :=
  exec_invariant (fun _ _ _ h hs => loanInv_step h hs) hrun
    ⟨rfl, fun e he => (by cases he), fun n hn => absurd hn (Nat.not_lt_zero n)⟩

/-- Without a failing `discard_loan` there is no trace of one. -/
theorem not_mem_failed {memory : Memory} {es : List WriterEvent}
    (hok : ∀ e ∈ es, e.discards = true)
    (hrun : exec (writerStep copyForWrite) (.fresh memory) es = some w) (n : ℕ) :
    LoanEvent.discarded n false ∉ w.history := by
  refine exec_invariant_along (I := fun w : DataWriter => LoanEvent.discarded n false ∉ w.history)
    (P := fun _ e => e.discards = true) ?_ hrun (along_of_forall hok _) (by simp [DataWriter.fresh])
  rintro w e w' h he hs
  cases e with
  | edit p x =>
    cases hs
    exact h
  | write c =>
    have hc : c.discardOk = true := he
    obtain ⟨rc, hcase⟩ := writerStep_cases hs
    cases hcase with
    | noLoan hl => exact h
    | written b hl => simpa [DataWriter.deliver, DataWriter.lend] using h
    | returned b hl => simpa [DataWriter.discardLoan, DataWriter.lend, hc] using h

theorem count_acquire (l : List LoanEvent) (n : ℕ) :
    (l.filterMap LoanEvent.move).count (.acquire n) = l.count (.obtained n) := by
  induction l with
  | nil => rfl
  | cons e l ih =>
    cases e with
    | obtained k => simp [LoanEvent.move, List.count_cons, ih]
    | consumed k => simp [LoanEvent.move, ih]
    | discarded k ok => cases ok <;> simp [LoanEvent.move, ih]

/-- A loan is released by the write that consumes it or by giving it back. -/
theorem count_release (l : List LoanEvent) (n : ℕ) :
    (l.filterMap LoanEvent.move).count (.release n) =
      l.count (.consumed n) + l.count (.discarded n true) := by
  induction l with
  | nil => rfl
  | cons e l ih =>
    cases e with
    | obtained k => simp [LoanEvent.move, ih]
    | consumed k =>
      by_cases hk : k = n
      · simp [LoanEvent.move, ih, hk]
        omega
      · simp [LoanEvent.move, ih, hk]
    | discarded k ok =>
      cases ok with
      | true =>
        by_cases hk : k = n
        · simp [LoanEvent.move, ih, hk]
          omega
        · simp [LoanEvent.move, ih, hk]
      | false => simp [LoanEvent.move, ih]

/-- **A loan that can be given back is done with once**: consumed by a write or given back. -/
theorem LoanInv.settled (h : LoanInv w) (hok : ∀ n, LoanEvent.discarded n false ∉ w.history) :
    Ledger.replay w.moves = some (fun _ => false) ∧
      ∀ n < w.next, w.history.count (.consumed n) + w.history.count (.discarded n true) = 1 := by
  have hidle : Ledger.replay w.moves = some fun _ => false := by
    rw [h.ledger]
    congr 1
    funext n
    exact decide_eq_false (hok n)
  refine ⟨hidle, fun n hn => ?_⟩
  have hcount := (Ledger.released_iff hidle).mpr (fun _ => rfl) n
  unfold DataWriter.moves at hcount
  rw [count_release, count_acquire, h.obtained n hn] at hcount
  exact hcount

/-! ## What is delivered -/

theorem typeCopyForWrite_memory (b : PerftestSample) (w : DataWriter) (p : ℕ) :
    ((TypeZcopy.typeCopyForWrite (.loan w.next) (.sample p) (w.lend b).memory).2 (.loan w.next)) =
      { b with
        sequenceNumber := (w.memory (.sample p)).sequenceNumber
        kind := (w.memory (.sample p)).kind
        timestampUs := (w.memory (.sample p)).timestampUs } := by
  simp [TypeZcopy.typeCopyForWrite, DataWriter.lend]

/-- The caller's samples are left alone. -/
theorem typeCopyForWrite_sample (b : PerftestSample) (w : DataWriter) (p q : ℕ) :
    (TypeZcopy.typeCopyForWrite (.loan w.next) (.sample p) (w.lend b).memory).2 (.sample q) =
      w.memory (.sample q) := by
  simp [TypeZcopy.typeCopyForWrite, DataWriter.lend]

/-- **The two write functions on one sample.** -/
theorem zcopy_matches (datalen : ℤ) (c : WriteCall) (w : DataWriter)
    (h : ZcopyWrite TypeZcopy.typeCopyForWrite c w rc w') :
    (rc = 0 → ∃ x, w'.delivered = w.delivered ++ [x] ∧ x.SameMetadata (w.memory (.sample c.sample)) ∧
      (typeZcopy datalen).getSampleSize x =
        (typeZcopy datalen).getSampleSize (w.memory (.sample c.sample))) ∧
    (rc ≠ 0 → w'.delivered = w.delivered) ∧
    ∀ p, w'.memory (.sample p) = w.memory (.sample p) := by
  cases h with
  | noLoan hl => exact ⟨fun h => absurd h (by decide), fun _ => rfl, fun _ => rfl⟩
  | written b hl =>
    refine ⟨fun _ => ⟨_, rfl, ?_, rfl⟩, fun h => absurd rfl h, typeCopyForWrite_sample b w c.sample⟩
    change PerftestSample.SameMetadata ((TypeZcopy.typeCopyForWrite _ _ _).2 _) _
    rw [typeCopyForWrite_memory]
    exact ⟨rfl, rfl, rfl⟩
  | returned b hl =>
    exact ⟨fun h => absurd h (by decide), fun _ => rfl, typeCopyForWrite_sample b w c.sample⟩

end Write

/-- **The loan path loses no loan and delivers what the plain path delivers.** After any sequence of writes
in which `discard_loan` does not fail: nothing is outstanding, every loan was obtained once and either
consumed by one write or given back once; and whatever the outcomes of the next write are, it returns 0
exactly if a sample is delivered, which has the metadata and the size of the one `micro_writer_write`
delivers, and the samples of the caller are unchanged. -/
theorem zcopy_write_path (datalen : ℤ) {memory : Memory} {es : List WriterEvent} {w : DataWriter}
    (hok : ∀ e ∈ es, e.discards = true)
    (hrun : exec (writerStep TypeZcopy.typeCopyForWrite) (.fresh memory) es = some w) :
    Ledger.replay w.moves = some (fun _ => false) ∧
    (∀ n < w.next, w.history.count (.obtained n) = 1 ∧
      w.history.count (.consumed n) + w.history.count (.discarded n true) = 1) ∧
    ∀ c : WriteCall,
      let zcopy := microWriterWriteZcopy TypeZcopy.typeCopyForWrite c w
      (zcopy.1 = 0 ↔ zcopy.2.delivered ≠ w.delivered) ∧
      (zcopy.1 = 0 → ∃ x y, zcopy.2.delivered = w.delivered ++ [x] ∧
        (microWriterWrite { c with writeOk := true } w).2.delivered = w.delivered ++ [y] ∧
        x.SameMetadata y ∧
        (typeZcopy datalen).getSampleSize x = (typeZcopy datalen).getSampleSize y) ∧
      ∀ p, zcopy.2.memory (.sample p) = w.memory (.sample p) := by
  have hinv := loanInv_exec hrun
  obtain ⟨hidle, hdone⟩ := hinv.settled (not_mem_failed hok hrun)
  refine ⟨hidle, fun n hn => ⟨hinv.obtained n hn, hdone n hn⟩, fun c => ?_⟩
  obtain ⟨hzero, hother, hsample⟩ := zcopy_matches datalen c w (microWriterWriteZcopy_cases
    (Prod.mk.eta (p := microWriterWriteZcopy TypeZcopy.typeCopyForWrite c w)).symm)
  refine ⟨⟨fun h => ?_, fun h => ?_⟩, fun h => ?_, hsample⟩
  · obtain ⟨x, hx, -⟩ := hzero h
    rw [hx]
    simp
  · by_contra hne
    exact h (hother hne)
  · obtain ⟨x, hx, hmeta, hsize⟩ := hzero h
    exact ⟨x, _, hx, rfl, hmeta, hsize⟩

/-- A write that fails, one that succeeds and one that gets no loan. -/
def threeWrites : List WriterEvent := [
  .write ⟨0, .ok ⟨3, .data, 1, ⟨0, 0⟩⟩, false, true⟩,
  .write ⟨0, .ok ⟨3, .data, 1, ⟨0, 0⟩⟩, true, true⟩,
  .write ⟨0, .outOfResources, true, true⟩]

theorem zcopy_write_path_three : ∃ w,
    exec (writerStep TypeZcopy.typeCopyForWrite) (.fresh fun _ => ⟨7, .dataPing, 42, ⟨0, 0⟩⟩)
      threeWrites = some w ∧
    w.history = [.obtained 0, .discarded 0 true, .obtained 1, .consumed 1] ∧
    Ledger.replay w.moves = some (fun _ => false) := by
  have hok : ∀ e ∈ threeWrites, e.discards = true := by decide
  refine ⟨_, rfl, rfl, ?_⟩
  exact (zcopy_write_path 64028 hok rfl).1

end PerftestLite
