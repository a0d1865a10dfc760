import PerftestLite.Lib.Word
import Mathlib.Data.Rat.Defs

/-!
# Samples, arguments, results

The data the two engines share: the sample behind the type interface, the input arguments, the
result record and the compile-time configuration. Event counters of type `uint64_t` that advance by
one (samples sent, received, recorded) are natural numbers; every other fixed-width value keeps its
width through `Word`. A `double` is a rational number.

* `PerftestSample`, `TypeInterface`: the type layer; `typeDefault` and `typeZcopy` are its variants, the first
  over any `OctetSeqCalls`;
* `InputArgs`, `Config`, `SizeResult`, `Results`.
-/

set_option autoImplicit false

namespace PerftestLite

open Word

/-- What a sample is for. -/
inductive PerftestTypeKind
  | data
  | dataPing
  | initialization
  | finalization
  deriving DecidableEq, Repr

/-- The measured kinds: `DATA` and `DATA_PING`. -/
def PerftestTypeKind.isData : PerftestTypeKind → Bool
  | .data | .dataPing => true
  | .initialization | .finalization => false

/-- A bounded octet sequence; its contents are never inspected. -/
structure OctetSeq where
  maximum : ℤ
  length : ℤ
  deriving DecidableEq, Repr

/-- One generated sample. The fixed array of the zero-copy variant leaves `binData` unused. -/
structure PerftestSample where
  sequenceNumber : ℤ
  kind : PerftestTypeKind
  timestampUs : ℕ
  binData : OctetSeq
  deriving DecidableEq, Repr

/-- `DATA` or `DATA_PING`. -/
def PerftestSample.isData (x : PerftestSample) : Bool := x.kind.isData

theorem PerftestSample.isData_eq {x : PerftestSample} {k : PerftestTypeKind} (h : x.kind = k) :
    x.isData = k.isData := congrArg PerftestTypeKind.isData h

/-- The other kinds begin and end the test. -/
theorem PerftestSample.kind_of_not_isData {x : PerftestSample} (h : ¬ x.isData = true) :
    x.kind = .initialization ∨ x.kind = .finalization := by
  cases hk : x.kind with
  | initialization => exact .inl rfl
  | finalization => exact .inr rfl
  | data | dataPing => exact absurd (PerftestSample.isData_eq hk) h

/-- Everything but the payload agrees. -/
def PerftestSample.SameMetadata (x y : PerftestSample) : Prop :=
  x.sequenceNumber = y.sequenceNumber ∧ x.kind = y.kind ∧ x.timestampUs = y.timestampUs

/-! ## Input arguments and results -/

inductive Role
  | publisher
  | subscriber
  deriving DecidableEq, Repr

/-- The immutable test settings. -/
structure InputArgs where
  role : Role
  domainId : ℤ
  nic : String
  peer : String
  transportId : String
  latencyLogFile : Option String
  latencyStream : Bool
  datalen : ℤ
  execSeconds : ℤ
  pubrate : ℤ
  latencyCount : ℤ
  subSleepUs : ℤ
  reliable : Bool
  latencyTest : Bool
  printEverySecond : Bool
  printConfig : Bool
  printResourceLimits : Bool
  deriving DecidableEq, Repr

/-- Compile-time settings of the engines. -/
structure Config where
  initSampleSize : ℤ
  initBurst : ℕ
  pubMinSleepUs : ℤ
  latencyHistorySize : ℕ
  deriving DecidableEq, Repr

/-- The settings of `perftest_lite_config.h`. -/
def defaultConfig : Config where
  initSampleSize := 1234
  initBurst := 50
  pubMinSleepUs := 0
  latencyHistorySize := 0

/-- The measurement of one size. -/
structure SizeResult where
  sizeBytes : ℤ
  totalSamples : ℕ
  latencySamplesReceived : ℕ
  avgLatencyUs : ℕ
  minLatencyUs : ℕ
  maxLatencyUs : ℕ
  p50LatencyUs : ℕ
  p90LatencyUs : ℕ
  p99LatencyUs : ℕ
  avgThroughputMbps : ℚ
  lostSamples : ℕ
  elapsedUs : ℕ
  deriving DecidableEq, Repr

/-- `memset` of a result record. -/
def SizeResult.zero : SizeResult := ⟨0, 0, 0, 0, 0, 0, 0, 0, 0, 0, 0, 0⟩

/-- Caller-owned result storage; `sizes = none` is a null pointer. The caller promises at least
`sizeCapacity` entries. -/
structure Results where
  sizeCount : ℕ
  sizeCapacity : ℤ
  sizes : Option (List SizeResult)
  storage : ∀ l, sizes = some l → sizeCapacity ≤ l.length
  deriving DecidableEq

namespace Results

/-- `results && results->sizes && results->size_count < results->size_capacity`. -/
def hasRoom (r : Results) : Bool := r.sizes.isSome && decide ((r.sizeCount : ℤ) < r.sizeCapacity)

/-- Entry `i` of the storage. -/
def entry (r : Results) (i : ℕ) : Option SizeResult := r.sizes.bind fun l => l[i]?

/-- Write entry `size_count` and count it. -/
def push (r : Results) (write : SizeResult → SizeResult) : Results where
  sizeCount := r.sizeCount + 1
  sizeCapacity := r.sizeCapacity
  sizes := r.sizes.map fun l => l.modify r.sizeCount write
  storage l h := by
    obtain ⟨l', h', rfl⟩ := Option.map_eq_some_iff.mp h
    simpa using r.storage l' h'

theorem exists_entry_of_hasRoom {r : Results} (h : r.hasRoom) : ∃ x, r.entry r.sizeCount = some x := by
  simp only [hasRoom, Bool.and_eq_true, decide_eq_true_eq, Option.isSome_iff_exists] at h
  obtain ⟨⟨l, hl⟩, hlt⟩ := h
  have hlen : r.sizeCount < l.length := by have := r.storage l hl; omega
  exact ⟨l[r.sizeCount], by simp [entry, hl, hlen]⟩

theorem entry_push (r : Results) (write : SizeResult → SizeResult) :
    (r.push write).entry r.sizeCount = (r.entry r.sizeCount).map write := by
  cases h : r.sizes with
  | none => simp [push, entry, h]
  | some l => simp [push, entry, h]

end Results

/-! ## The type layer -/

/-- The type interface as the engines use it. `setSampleSize` says whether the C function returned zero and what
it left of the sample. -/
structure TypeInterface where
  validateInput : InputArgs → Bool
  defaultSampleSize : ℤ
  create : PerftestSample
  setSampleSize : PerftestSample → ℤ → Bool × PerftestSample
  getSampleSize : PerftestSample → ℤ
  /-- Resizing leaves the metadata alone. -/
  setSampleSize_metadata : ∀ x n, (setSampleSize x n).2.SameMetadata x

/-- `T->set_sample_size(sample, size)` where the caller ignores the result. -/
def TypeInterface.resize (T : TypeInterface) (x : PerftestSample) (size : ℤ) : PerftestSample :=
  (T.setSampleSize x size).2

theorem TypeInterface.resize_metadata (T : TypeInterface) (x : PerftestSample) (size : ℤ) :
    (T.resize x size).SameMetadata x := T.setSampleSize_metadata x size

/-- `PERFTEST_TYPE_OVERHEAD`. -/
def typeOverhead : ℤ := 28

/-- `DDS_OctetSeq_set_maximum` and `DDS_OctetSeq_set_length`: whether the call succeeded, and the sequence
it leaves. -/
structure OctetSeqCalls where
  setMaximum : OctetSeq → ℤ → Bool × OctetSeq
  setLength : OctetSeq → ℤ → Bool × OctetSeq

/-- A maximum that was set is there, and a length up to the maximum can be set. -/
structure OctetSeqCalls.Lawful (calls : OctetSeqCalls) : Prop where
  setMaximum : ∀ {s t : OctetSeq} {n : ℤ}, calls.setMaximum s n = (true, t) → t.maximum = n
  setLength : ∀ {s : OctetSeq} {n : ℤ}, 0 ≤ n → n ≤ s.maximum →
    calls.setLength s n = (true, { s with length := n })

/-- Sequences that grow to any maximum. -/
def growingCalls : OctetSeqCalls where
  setMaximum s n := if 0 ≤ n then (true, { s with maximum := n }) else (false, s)
  setLength s n := if 0 ≤ n ∧ n ≤ s.maximum then (true, { s with length := n }) else (false, s)

theorem growingCalls_lawful : growingCalls.Lawful where
  setMaximum := by
    intro s t n h
    change (if 0 ≤ n then (true, { s with maximum := n }) else (false, s)) = (true, t) at h
    split_ifs at h with h0
    · cases h
      rfl
    · cases h
  setLength h0 hn := if_pos ⟨h0, hn⟩

namespace TypeDefault

variable (calls : OctetSeqCalls)

def setPayloadLength (x : PerftestSample) (length : ℤ) : Bool × PerftestSample :=
  let grown := if length > x.binData.maximum then calls.setMaximum x.binData length else (true, x.binData)
  if grown.1 then
    let sized := calls.setLength grown.2 length
    (sized.1, { x with binData := sized.2 })
  else (false, { x with binData := grown.2 })

def setSampleSize (maxPayload : ℤ) (x : PerftestSample) (size : ℤ) : Bool × PerftestSample :=
  if size < typeOverhead ∨ i32 (size - typeOverhead) > maxPayload then (false, x)
  else setPayloadLength calls x (i32 (size - typeOverhead))

def getSampleSize (x : PerftestSample) : ℤ := i32 (x.binData.length + typeOverhead)

def validateInput (maxPayload : ℤ) (args : InputArgs) : Bool :=
  decide (args.datalen ≥ typeOverhead) && decide (i32 (args.datalen - typeOverhead) ≤ maxPayload)

def defaultSampleSize (maxPayload defaultDatalen : ℤ) : ℤ :=
  if defaultDatalen < typeOverhead then typeOverhead
  else if i32 (defaultDatalen - typeOverhead) > maxPayload then i32 (typeOverhead + maxPayload)
  else defaultDatalen

/-- What `type_create`, where it succeeds, and `type_initialize` make: the payload has its full length. -/
def create (maxPayload : ℤ) : PerftestSample := ⟨0, .data, 0, ⟨maxPayload, maxPayload⟩⟩

theorem setPayloadLength_metadata (x : PerftestSample) (n : ℤ) :
    (setPayloadLength calls x n).2.SameMetadata x := by
  unfold setPayloadLength
  dsimp only
  split_ifs <;> exact ⟨rfl, rfl, rfl⟩

end TypeDefault

/-- `type_default.c`: a bounded sequence of at most `maxPayload` octets. -/
def typeDefault (calls : OctetSeqCalls) (maxPayload defaultDatalen : ℤ) : TypeInterface where
  validateInput := TypeDefault.validateInput maxPayload
  defaultSampleSize := TypeDefault.defaultSampleSize maxPayload defaultDatalen
  create := TypeDefault.create maxPayload
  setSampleSize := TypeDefault.setSampleSize calls maxPayload
  getSampleSize := TypeDefault.getSampleSize
  setSampleSize_metadata x n := by
    unfold TypeDefault.setSampleSize
    split_ifs
    · exact ⟨rfl, rfl, rfl⟩
    · exact TypeDefault.setPayloadLength_metadata calls x _

/-- `type_zcopy.c`: a fixed array, the reported size is the compiled one. -/
def typeZcopy (datalen : ℤ) : TypeInterface where
  validateInput args := decide (args.datalen = datalen)
  defaultSampleSize := datalen
  create := ⟨0, .data, 0, ⟨0, 0⟩⟩
  setSampleSize x size := (decide (size = datalen), x)
  getSampleSize _ := datalen
  setSampleSize_metadata _ _ := ⟨rfl, rfl, rfl⟩

end PerftestLite
