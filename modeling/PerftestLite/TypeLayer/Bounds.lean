import PerftestLite.Lib.Checked
import PerftestLite.Result.Sizes

/-!
# The sizes a type accepts

The size functions of the type layer, call by call: every `int32_t` operation checked, the outcomes of
the sequence calls and the sample a failure leaves included. All of them describe one set of sizes.

* `TypeDefault.typeSetSampleSize` and its siblings, `SizeFunctions`: the functions of both variants;
* `TypeVariant.Accepts`: the set; `validateInput_eq`, `setSampleSize_eq`, `defaultSampleSize_eq`: what the
  functions are in terms of it;
* `TypeVariant.interface_refines`: the interface the engines use abstracts from them;
* `size_functions_agree`: the functions agree with each other and never overflow.
-/

set_option autoImplicit false

namespace PerftestLite

open Word

/-- The size functions of a type. An outer `none` is a signed overflow; `create` starts from the sample
the generated code returns. -/
structure SizeFunctions where
  validateInput : InputArgs → Option ℤ
  defaultSampleSize : Option ℤ
  create : PerftestSample → Option PerftestSample
  setSampleSize : PerftestSample → ℤ → Option (ℤ × PerftestSample)
  getSampleSize : PerftestSample → Option ℤ

namespace TypeDefault

variable (calls : OctetSeqCalls) (maxPayload defaultDatalen : ℤ)

def typeValidateInput (args : InputArgs) : Option ℤ :=
  if args.datalen ≥ typeOverhead then
    (Checked.sub args.datalen typeOverhead).map fun payload => if payload ≤ maxPayload then 0 else -1
  else some (-1)

def typeDefaultSampleSize : Option ℤ :=
  if defaultDatalen < typeOverhead then some typeOverhead
  else (Checked.sub defaultDatalen typeOverhead).bind fun payload =>
    if payload > maxPayload then Checked.add typeOverhead maxPayload else some defaultDatalen

def typeCreate (s : PerftestSample) : Option PerftestSample :=
  match calls.setMaximum s.binData maxPayload with
  | (false, _) => none
  | (true, grown) =>
    match calls.setLength grown maxPayload with
    | (false, _) => none
    | (true, sized) => some { s with binData := sized }

def typeSetPayloadLength (s : PerftestSample) (length : ℤ) : ℤ × PerftestSample :=
  let grown := if length > s.binData.maximum then calls.setMaximum s.binData length
    else (true, s.binData)
  if grown.1 then
    let sized := calls.setLength grown.2 length
    (if sized.1 then 0 else -1, { s with binData := sized.2 })
  else (-1, { s with binData := grown.2 })

def typeSetSampleSize (s : PerftestSample) (size : ℤ) : Option (ℤ × PerftestSample) :=
  if size < typeOverhead then some (-1, s)
  else (Checked.sub size typeOverhead).bind fun payload =>
    if payload > maxPayload then some (-1, s)
    else (Checked.sub size typeOverhead).map (typeSetPayloadLength calls s)

def typeGetSampleSize (s : PerftestSample) : Option ℤ := Checked.add s.binData.length typeOverhead

end TypeDefault

namespace TypeZcopy

variable (datalen : ℤ)

def typeValidateInput (args : InputArgs) : Option ℤ := some (if args.datalen = datalen then 0 else -1)

def typeSetSampleSize (s : PerftestSample) (size : ℤ) : Option (ℤ × PerftestSample) :=
  some (if size = datalen then 0 else -1, s)

end TypeZcopy

/-- `type_initialize`, the same in both variants. -/
def typeInitialize (s : PerftestSample) : PerftestSample :=
  { s with sequenceNumber := 0, kind := .data, timestampUs := 0 }

/-- The size functions of the type a build selects. -/
def TypeVariant.sizeFunctions (calls : OctetSeqCalls) : TypeVariant → SizeFunctions
  | .sequence maxPayload defaultDatalen => {
      validateInput := TypeDefault.typeValidateInput maxPayload
      defaultSampleSize := TypeDefault.typeDefaultSampleSize maxPayload defaultDatalen
      create := TypeDefault.typeCreate calls maxPayload
      setSampleSize := TypeDefault.typeSetSampleSize calls maxPayload
      getSampleSize := TypeDefault.typeGetSampleSize }
  | .zcopy datalen => {
      validateInput := TypeZcopy.typeValidateInput datalen
      defaultSampleSize := some datalen
      create := some
      setSampleSize := TypeZcopy.typeSetSampleSize datalen
      getSampleSize := fun _ => some datalen }

/-- The bounds a type is compiled with. -/
def TypeVariant.Compiled : TypeVariant → Prop
  | .sequence maxPayload defaultDatalen =>
    1 ≤ maxPayload ∧ maxPayload ≤ int32Max ∧ InInt32 defaultDatalen
  | .zcopy datalen => 29 ≤ datalen ∧ datalen ≤ int32Max

/-- A sample from `create` and any number of calls of `set_sample_size`. -/
inductive Obtained (F : SizeFunctions) : PerftestSample → Prop
  | create {s x : PerftestSample} : F.create s = some x → Obtained F x
  | set {x y : PerftestSample} {size rc : ℤ} : Obtained F x → InInt32 size →
      F.setSampleSize x size = some (rc, y) → Obtained F y

/-! ## One set of sizes -/

/-- The sizes a type accepts. -/
def TypeVariant.Accepts : TypeVariant → ℤ → Prop
  | .sequence maxPayload _, size => typeOverhead ≤ size ∧ size - typeOverhead ≤ maxPayload
  | .zcopy datalen, size => size = datalen

instance (V : TypeVariant) (size : ℤ) : Decidable (V.Accepts size) := by
  cases V <;> (unfold TypeVariant.Accepts; infer_instance)

/-- The sample with a size that was accepted. -/
def TypeVariant.resized (x : PerftestSample) (size : ℤ) : TypeVariant → PerftestSample
  | .sequence maxPayload _ => { x with binData := ⟨maxPayload, size - typeOverhead⟩ }
  | .zcopy _ => x

section Functions

variable {calls : OctetSeqCalls} {V : TypeVariant} {maxPayload defaultDatalen size n : ℤ}
  {x y : PerftestSample}

/-- Above the overhead nothing is subtracted that could overflow. -/
theorem sub_typeOverhead (hs : InInt32 size) (h : typeOverhead ≤ size) :
    Checked.sub size typeOverhead = some (size - typeOverhead) := by
  obtain ⟨h1, h2⟩ := hs
  unfold typeOverhead at *
  exact Checked.sub_of_range ⟨by omega, by omega⟩

theorem TypeDefault.typeSetPayloadLength_within (hcalls : calls.Lawful) (h0 : 0 ≤ n)
    (hn : n ≤ x.binData.maximum) :
    typeSetPayloadLength calls x n = (0, { x with binData := ⟨x.binData.maximum, n⟩ }) := by
  have hgrown : ¬ n > x.binData.maximum := by omega
  unfold typeSetPayloadLength
  simp only [if_neg hgrown, hcalls.setLength h0 hn, if_true]

theorem validateInput_eq {args : InputArgs} (hd : InInt32 args.datalen) :
    (V.sizeFunctions calls).validateInput args = some (if V.Accepts args.datalen then 0 else -1) := by
  cases V with
  | zcopy datalen => rfl
  | sequence maxPayload defaultDatalen =>
    change TypeDefault.typeValidateInput maxPayload args = _
    unfold TypeDefault.typeValidateInput
    by_cases hle : typeOverhead ≤ args.datalen
    · rw [if_pos hle, sub_typeOverhead hd hle]
      simp [TypeVariant.Accepts, hle]
    · rw [if_neg hle]
      simp [TypeVariant.Accepts, hle]

/-- **One call of `set_sample_size`** on a sample with its full buffer. -/
theorem setSampleSize_eq (hcalls : calls.Lawful) (hs : InInt32 size) (hx : V.Fits x.binData) :
    (V.sizeFunctions calls).setSampleSize x size =
      some (if V.Accepts size then (0, V.resized x size) else (-1, x)) := by
  cases V with
  | zcopy datalen =>
    change some (if size = datalen then 0 else -1, x) = some (if size = datalen then (0, x) else (-1, x))
    split_ifs <;> rfl
  | sequence maxPayload defaultDatalen =>
    have hmax : x.binData.maximum = maxPayload := hx
    change TypeDefault.typeSetSampleSize calls maxPayload x size = _
    unfold TypeDefault.typeSetSampleSize
    by_cases hle : size < typeOverhead
    · rw [if_pos hle, if_neg fun h => absurd h.1 (by omega)]
    · have hsub := sub_typeOverhead hs (by omega)
      rw [if_neg hle, hsub, Option.bind_some, Option.map_some]
      by_cases hfit : size - typeOverhead > maxPayload
      · rw [if_pos hfit, if_neg fun h => absurd h.2 (by omega)]
      · rw [if_neg hfit, if_pos ⟨by omega, by omega⟩,
          TypeDefault.typeSetPayloadLength_within hcalls (by omega) (by omega), hmax]
        rfl

theorem getSampleSize_resized (hs : InInt32 size) (h : V.Accepts size) :
    (V.sizeFunctions calls).getSampleSize (V.resized x size) = some size := by
  cases V with
  | zcopy datalen =>
    have heq : size = datalen := h
    rw [heq]
    rfl
  | sequence maxPayload defaultDatalen =>
    have hadd : size - typeOverhead + typeOverhead = size := Int.sub_add_cancel _ _
    change Checked.add (size - typeOverhead) typeOverhead = some size
    rw [Checked.add_of_range (by rw [hadd]; exact hs), hadd]

/-- **The default is accepted**, and for a sequence it is the configured length moved into the bounds. -/
theorem defaultSampleSize_eq (calls : OctetSeqCalls) (hV : V.Compiled) :
    ∃ d, (V.sizeFunctions calls).defaultSampleSize = some d ∧ InInt32 d ∧ V.Accepts d ∧
      ∀ maxPayload defaultDatalen, V = .sequence maxPayload defaultDatalen →
        d = if defaultDatalen < typeOverhead then typeOverhead
          else if defaultDatalen - typeOverhead > maxPayload then typeOverhead + maxPayload
          else defaultDatalen := by
  cases V with
  | zcopy datalen =>
    obtain ⟨h1, h2⟩ := hV
    exact ⟨datalen, rfl, ⟨by omega, h2⟩, rfl, by simp⟩
  | sequence maxPayload defaultDatalen =>
    obtain ⟨h1, h2, hdef⟩ := hV
    have hrange := hdef
    obtain ⟨h3, h4⟩ := hrange
    unfold int32Max at h2 h4
    change ∃ d, TypeDefault.typeDefaultSampleSize maxPayload defaultDatalen = some d ∧ _
    unfold TypeDefault.typeDefaultSampleSize
    by_cases hlow : defaultDatalen < typeOverhead
    · refine ⟨typeOverhead, if_pos hlow, by decide, ⟨by omega, by omega⟩, ?_⟩
      rintro p d ⟨⟩
      rw [if_pos hlow]
    · rw [if_neg hlow, sub_typeOverhead hdef (by omega), Option.bind_some]
      by_cases hhigh : defaultDatalen - typeOverhead > maxPayload
      · -- the sum is below a value that fits
        have hfit : InInt32 (typeOverhead + maxPayload) := by
          unfold typeOverhead at *
          exact ⟨by omega, by unfold int32Max; omega⟩
        refine ⟨typeOverhead + maxPayload, ?_, hfit, ⟨by omega, by omega⟩, ?_⟩
        · rw [if_pos hhigh]
          exact Checked.add_of_range hfit
        · rintro p d ⟨⟩
          rw [if_neg hlow, if_pos hhigh]
      · refine ⟨defaultDatalen, if_neg hhigh, hdef, ⟨by omega, by omega⟩, ?_⟩
        rintro p d ⟨⟩
        rw [if_neg hlow, if_neg hhigh]

/-! ## Samples keep their buffer -/

theorem fits_create (hcalls : calls.Lawful) (hV : V.Compiled) {s : PerftestSample}
    (h : (V.sizeFunctions calls).create s = some x) : V.Fits x.binData := by
  cases V with
  | zcopy datalen => trivial
  | sequence maxPayload defaultDatalen =>
    change TypeDefault.typeCreate calls maxPayload s = some x at h
    unfold TypeDefault.typeCreate at h
    split at h
    case h_1 => cases h
    case h_2 grown hgrown =>
      have hmax := hcalls.setMaximum hgrown
      rw [hcalls.setLength (by have := hV.1; omega) (by omega)] at h
      cases h
      exact hmax

theorem fits_resized (x : PerftestSample) (hx : V.Fits x.binData) (size : ℤ) :
    V.Fits (V.resized x size).binData := by
  cases V with
  | zcopy datalen => trivial
  | sequence maxPayload defaultDatalen => rfl

/-- **Whatever sizes were set, the buffer has the compiled maximum.** -/
theorem Obtained.fits (hcalls : calls.Lawful) (hV : V.Compiled)
    (h : Obtained (V.sizeFunctions calls) x) : V.Fits x.binData := by
  induction h with
  | create hcreate => exact fits_create hcalls hV hcreate
  | @set x y size rc _ hs hset ih =>
    rw [setSampleSize_eq hcalls hs ih] at hset
    split_ifs at hset with hok
    · cases hset
      exact fits_resized x ih size
    · cases hset
      exact ih

/-! ## What the engines see -/

/-- The default of the interface does not wrap around either. -/
theorem interface_defaultSampleSize (hV : V.Compiled) :
    (V.sizeFunctions calls).defaultSampleSize = some (V.interface calls).defaultSampleSize := by
  cases V with
  | zcopy datalen => rfl
  | sequence maxPayload defaultDatalen =>
    obtain ⟨d, hd, hrange, -, heq⟩ := defaultSampleSize_eq calls hV
    have hsize := heq _ _ rfl
    rw [hd]
    change some d = some (TypeDefault.defaultSampleSize maxPayload defaultDatalen)
    unfold TypeDefault.defaultSampleSize
    rw [hsize]
    congr 1
    by_cases hlow : defaultDatalen < typeOverhead
    · rw [if_pos hlow, if_pos hlow]
    · rw [if_neg hlow, if_neg hlow, TypeDefault.payload_of_size hV.2.2 (by omega)]
      by_cases hhigh : defaultDatalen - typeOverhead > maxPayload
      · rw [if_neg hlow, if_pos hhigh] at hsize
        rw [if_pos hhigh, if_pos hhigh, i32_of_range (by rw [← hsize]; exact hrange)]
      · rw [if_neg hhigh, if_neg hhigh]

theorem interface_validateInput {args : InputArgs} (hd : InInt32 args.datalen) :
    (V.interface calls).validateInput args = true ↔ V.Accepts args.datalen := by
  cases V with
  | zcopy datalen => exact decide_eq_true_iff
  | sequence maxPayload defaultDatalen =>
    change TypeDefault.validateInput maxPayload args = true ↔ _
    simp only [TypeDefault.validateInput, Bool.and_eq_true, decide_eq_true_eq]
    exact and_congr_right fun hle => by rw [TypeDefault.payload_of_size hd hle]

theorem interface_setSampleSize (hcalls : calls.Lawful) (hs : InInt32 size) (hx : V.Fits x.binData) :
    (V.interface calls).setSampleSize x size =
      if V.Accepts size then (true, V.resized x size) else (false, x) := by
  cases V with
  | zcopy datalen =>
    change (decide (size = datalen), x) = if size = datalen then (true, x) else (false, x)
    split_ifs with h
    · rw [decide_eq_true h]
    · rw [decide_eq_false h]
  | sequence maxPayload defaultDatalen => exact TypeDefault.setSampleSize_eq hcalls hs hx

/-- The sample the engines start from, if the generated code returns one with no payload. -/
theorem interface_create (hcalls : calls.Lawful) (hV : V.Compiled) {s : PerftestSample}
    (hempty : s.binData = ⟨0, 0⟩) (h : (V.sizeFunctions calls).create s = some x) :
    typeInitialize x = (V.interface calls).create := by
  cases V with
  | zcopy datalen =>
    cases h
    unfold typeInitialize
    rw [hempty]
    rfl
  | sequence maxPayload defaultDatalen =>
    change TypeDefault.typeCreate calls maxPayload s = some x at h
    unfold TypeDefault.typeCreate at h
    split at h
    case h_1 => cases h
    case h_2 grown hgrown =>
      have hmax := hcalls.setMaximum hgrown
      rw [hcalls.setLength (by have := hV.1; omega) (by omega)] at h
      cases h
      change (⟨0, .data, 0, ⟨grown.maximum, maxPayload⟩⟩ : PerftestSample) = TypeDefault.create maxPayload
      rw [hmax]
      rfl

/-- A size that is reported without overflow is the size the interface reports. -/
theorem interface_getSampleSize (h : (V.sizeFunctions calls).getSampleSize x = some n) :
    (V.interface calls).getSampleSize x = n := by
  cases V with
  | zcopy datalen => exact Option.some.inj h
  | sequence maxPayload defaultDatalen => exact Checked.add_i32 h

/-- **The interface of the engines abstracts from the calls.** The first sample is the one created and
initialized; on any sample obtained, `set_sample_size` does the same and so does its result; the sizes reported,
the arguments accepted and the default are the same. -/
theorem TypeVariant.interface_refines (hcalls : calls.Lawful) (hV : V.Compiled)
    (hx : Obtained (V.sizeFunctions calls) x) (hs : InInt32 size) {args : InputArgs}
    (hd : InInt32 args.datalen) :
    (∀ s y, s.binData = ⟨0, 0⟩ → (V.sizeFunctions calls).create s = some y →
        typeInitialize y = (V.interface calls).create) ∧
      (V.sizeFunctions calls).setSampleSize x size =
        some (if ((V.interface calls).setSampleSize x size).1 then 0 else -1,
          ((V.interface calls).setSampleSize x size).2) ∧
      (∀ n, (V.sizeFunctions calls).getSampleSize x = some n → (V.interface calls).getSampleSize x = n) ∧
      (V.sizeFunctions calls).defaultSampleSize = some (V.interface calls).defaultSampleSize ∧
      (V.sizeFunctions calls).validateInput args =
        some (if (V.interface calls).validateInput args then 0 else -1) := by
  refine ⟨fun _ _ => interface_create hcalls hV, ?_, fun _ hn => interface_getSampleSize hn,
    interface_defaultSampleSize hV, ?_⟩
  · rw [setSampleSize_eq hcalls hs (hx.fits hcalls hV),
      interface_setSampleSize hcalls hs (hx.fits hcalls hV)]
    by_cases hok : V.Accepts size
    · simp [hok]
    · simp [hok]
  · rw [validateInput_eq hd]
    simp only [interface_validateInput hd]

/-- **The size functions agree.** For either type, whatever bounds it is compiled with, on every sample
from `create` and calls of `set_sample_size`: a size can be set exactly if the arguments with it are
valid, a size that was set is reported, a failure changes nothing, the default is valid and, for a
sequence, of the valid sizes the one nearest to the configured length; and nothing overflows. -/
theorem size_functions_agree (V : TypeVariant) {calls : OctetSeqCalls} (hV : V.Compiled)
    (hcalls : calls.Lawful) :
    (∀ x, Obtained (V.sizeFunctions calls) x → ∀ size, InInt32 size → ∃ rc y,
      (V.sizeFunctions calls).setSampleSize x size = some (rc, y) ∧
      (∀ args : InputArgs, args.datalen = size →
        (rc = 0 ↔ (V.sizeFunctions calls).validateInput args = some 0)) ∧
      (rc = 0 → (V.sizeFunctions calls).getSampleSize y = some size) ∧ (rc ≠ 0 → y = x)) ∧
    (∀ args : InputArgs, InInt32 args.datalen →
      ∃ rc, (V.sizeFunctions calls).validateInput args = some rc) ∧
    ∃ d, (V.sizeFunctions calls).defaultSampleSize = some d ∧ InInt32 d ∧
      (∀ args : InputArgs, args.datalen = d → (V.sizeFunctions calls).validateInput args = some 0) ∧
      ∀ maxPayload defaultDatalen, V = .sequence maxPayload defaultDatalen →
        ∀ args : InputArgs, InInt32 args.datalen →
          (V.sizeFunctions calls).validateInput args = some 0 → args.datalen ≠ d →
          (d - defaultDatalen).natAbs < (args.datalen - defaultDatalen).natAbs := by
  have hvalid : ∀ {args : InputArgs}, InInt32 args.datalen →
      ((V.sizeFunctions calls).validateInput args = some 0 ↔ V.Accepts args.datalen) := by
    intro args hd
    rw [validateInput_eq hd]
    split_ifs with hok <;> simp [hok]
  refine ⟨fun x hx size hs => ?_, fun args hd => ⟨_, validateInput_eq hd⟩, ?_⟩
  · have hset := setSampleSize_eq (V := V) hcalls hs (hx.fits hcalls hV)
    by_cases hok : V.Accepts size
    · rw [if_pos hok] at hset
      refine ⟨0, V.resized x size, hset, ?_, fun _ => getSampleSize_resized hs hok, by simp⟩
      rintro args rfl
      exact iff_of_true rfl ((hvalid hs).mpr hok)
    · rw [if_neg hok] at hset
      refine ⟨-1, x, hset, ?_, by simp, fun _ => rfl⟩
      rintro args rfl
      exact iff_of_false (by decide) fun h => hok ((hvalid hs).mp h)
  · obtain ⟨d, hd, hrange, hok, hsize⟩ := defaultSampleSize_eq calls hV
    refine ⟨d, hd, hrange, ?_, ?_⟩
    · rintro args rfl
      exact (hvalid hrange).mpr hok
    · rintro maxPayload defaultDatalen rfl args hargs haccept hne
      obtain ⟨hlow, hhigh⟩ := (hvalid hargs).mp haccept
      have heq := hsize _ _ rfl
      -- the accepted sizes are an interval and the default is the point of it nearest to the length
      unfold typeOverhead at *
      split_ifs at heq <;> omega

end Functions

/-- A configured length above the largest payload: the default is the largest size, and it can be set. -/
theorem size_functions_agree_short :
    (∃ y, ((TypeVariant.sequence 32 100).sizeFunctions growingCalls).setSampleSize
      ⟨0, .data, 0, ⟨32, 32⟩⟩ 60 = some (0, y) ∧
      ((TypeVariant.sequence 32 100).sizeFunctions growingCalls).getSampleSize y = some 60) ∧
    ((TypeVariant.sequence 32 100).sizeFunctions growingCalls).defaultSampleSize = some 60 := by
  have hcreate : ((TypeVariant.sequence 32 100).sizeFunctions growingCalls).create
      ⟨0, .data, 0, ⟨0, 0⟩⟩ = some ⟨0, .data, 0, ⟨32, 32⟩⟩ := by decide
  obtain ⟨hset, -, -⟩ := size_functions_agree (.sequence 32 100)
    ⟨by decide, by decide, by decide⟩ growingCalls_lawful
  obtain ⟨rc, y, hy, -, hget, -⟩ := hset _ (.create hcreate) 60 (by decide)
  have hrc : rc = 0 := by
    have hok : ((TypeVariant.sequence 32 100).sizeFunctions growingCalls).setSampleSize
        ⟨0, .data, 0, ⟨32, 32⟩⟩ 60 = some (0, ⟨0, .data, 0, ⟨32, 32⟩⟩) := by decide
    rw [hok] at hy
    cases hy
    rfl
  subst hrc
  exact ⟨⟨y, hy, hget rfl⟩, by decide⟩

end PerftestLite
