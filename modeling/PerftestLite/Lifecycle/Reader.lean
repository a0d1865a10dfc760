import Mathlib.Tactic.Common

/-!
# Building a reader

`micro_create_reader`, one statement after the other, and what `on_data_available_cb` finds in the
heap block when the middleware calls it. The listener is armed when the data reader is created; the
fields the callback goes on to read are assigned after that.

* `microCreateReader`: the statements, with the outcome of each call that may fail;
* `ReaderPc.Holds`, `microCreateReader_holds`: the endpoint at each statement;
* `ready_iff_filled`: the fields are there from the last assignment on, and not before.
-/

set_option autoImplicit false

namespace PerftestLite

/-- The fields of a reader, true once assigned. -/
structure MicroReader where
  listener : Bool
  dr : Bool
  tdr : Bool
  take : Bool
  impl : Bool
  deriving DecidableEq, Repr

/-- A heap block. -/
inductive Block
  | null
  | live (r : MicroReader)
  | freed
  deriving DecidableEq, Repr

/-- The reader's block, and whether the middleware may call its listener: from the return of
`DDS_Subscriber_create_datareader` until `shutdown`. -/
structure Endpoint where
  block : Block
  armed : Bool
  deriving DecidableEq, Repr

/-- No reader. -/
def Endpoint.absent : Endpoint := ⟨.null, false⟩

/-- The next statement of `micro_create_reader`. -/
inductive ReaderPc
  | topic
  | allocate
  | listener
  | createDatareader
  | assertRemote
  | dr
  | tdr
  | take
  | impl
  | ret (reader : Bool)
  deriving DecidableEq, Repr

/-- An assignment to a field. -/
def Endpoint.assign (e : Endpoint) (f : MicroReader → MicroReader) : Endpoint :=
  match e.block with
  | .live r => { e with block := .live (f r) }
  | _ => e

/-- One statement of `micro_create_reader`; `ok` is the outcome of the call it makes, `dpse` is static
endpoint discovery. -/
def microCreateReader (dpse ok : Bool) (e : Endpoint) : ReaderPc → Option (ReaderPc × Endpoint)
  | .topic => some (if ok then .allocate else .ret false, e)
  | .allocate =>
    if ok then some (.listener, { e with block := .live ⟨false, false, false, false, false⟩ })
    else some (.ret false, e)
  | .listener => some (.createDatareader, e.assign fun r => { r with listener := true })
  | .createDatareader =>
    if ok then some (if dpse then .assertRemote else .dr, { e with armed := true })
    else some (.ret false, { e with block := .freed })
  | .assertRemote =>
    -- the block is freed, the data reader stays
    if ok then some (.dr, e) else some (.ret false, { e with block := .freed })
  | .dr => some (.tdr, e.assign fun r => { r with dr := true })
  | .tdr => some (.take, e.assign fun r => { r with tdr := true })
  | .take => some (.impl, e.assign fun r => { r with take := true })
  | .impl => some (.ret true, e.assign fun r => { r with impl := true })
  | .ret _ => none

/-! ## The callback -/

/-- `on_data_available_cb` goes on to the engine: the listener has a data callback. Nothing stops it
on a block that was freed. -/
def Endpoint.reachesEngine (e : Endpoint) : Bool :=
  match e.block with
  | .live r => r.listener
  | _ => true

/-- `tdr` and `base.take` are set, which is what `reader->take` needs. -/
def Endpoint.ready (e : Endpoint) : Bool :=
  match e.block with
  | .live r => r.tdr && r.take
  | _ => false

/-! ## The endpoint at each statement -/

/-- The endpoint left by a call of `micro_create_reader` that returned a reader or did not. -/
def Endpoint.Made (e : Endpoint) : Bool → Prop
  | true => e = ⟨.live ⟨true, true, true, true, true⟩, true⟩
  | false => e.armed = true → e.block = .freed

/-- The endpoint at each statement. -/
def ReaderPc.Holds (e : Endpoint) : ReaderPc → Prop
  | .topic | .allocate => e = .absent
  | .listener => e = ⟨.live ⟨false, false, false, false, false⟩, false⟩
  | .createDatareader => e = ⟨.live ⟨true, false, false, false, false⟩, false⟩
  | .assertRemote | .dr => e = ⟨.live ⟨true, false, false, false, false⟩, true⟩
  | .tdr => e = ⟨.live ⟨true, true, false, false, false⟩, true⟩
  | .take => e = ⟨.live ⟨true, true, true, false, false⟩, true⟩
  | .impl => e = ⟨.live ⟨true, true, true, true, false⟩, true⟩
  | .ret reader => e.Made reader

theorem microCreateReader_holds {dpse ok : Bool} {e e' : Endpoint} {pc pc' : ReaderPc}
    (h : pc.Holds e) (hs : microCreateReader dpse ok e pc = some (pc', e')) : pc'.Holds e' := by
  cases pc with
  | ret reader => cases hs
  | topic =>
    cases hs
    rw [show e = .absent from h]
    cases ok with
    | true => rfl
    | false => exact fun ha => by cases ha
  | allocate =>
    rw [show e = .absent from h] at hs
    cases ok with
    | true =>
      cases hs
      rfl
    | false =>
      cases hs
      exact fun ha => by cases ha
  | createDatareader =>
    rw [show e = _ from h] at hs
    cases ok with
    | true =>
      cases hs
      cases dpse <;> rfl
    | false =>
      cases hs
      exact fun ha => by cases ha
  | assertRemote =>
    rw [show e = _ from h] at hs
    cases ok with
    | true =>
      cases hs
      rfl
    | false =>
      cases hs
      exact fun _ => rfl
  | listener | dr | tdr | take | impl =>
    rw [show e = _ from h] at hs
    cases hs
    rfl

/-- `base.take`, the last field a callback needs, is assigned. -/
def ReaderPc.filled : ReaderPc → Bool
  | .impl => true
  | .ret reader => reader
  | _ => false

/-- What a callback finds once the call has returned. -/
theorem Endpoint.Made.ready_iff {e : Endpoint} {reader : Bool} (h : e.Made reader)
    (ha : e.armed = true) : e.reachesEngine = true ∧ (e.ready = true ↔ reader = true) := by
  cases reader with
  | true =>
    rw [show e = _ from h]
    exact ⟨rfl, Iff.rfl⟩
  | false =>
    have hb : e.block = .freed := h ha
    simp [Endpoint.reachesEngine, Endpoint.ready, hb]

/-- **A callback finds its fields from the last assignment on, and not before.** -/
theorem ready_iff_filled {e : Endpoint} {pc : ReaderPc} (h : pc.Holds e) (ha : e.armed = true) :
    e.reachesEngine = true ∧ (e.ready = true ↔ pc.filled = true) := by
  cases pc with
  | ret reader => exact Endpoint.Made.ready_iff h ha
  | topic | allocate | listener | createDatareader =>
    rw [show e = _ from h] at ha
    cases ha
  | assertRemote | dr | tdr | take | impl =>
    rw [show e = _ from h]
    exact ⟨rfl, Iff.rfl⟩

end PerftestLite
