import Mathlib.Algebra.Order.Ring.Int
import PerftestLite.Core.Args
import PerftestLite.Lifecycle.Init

/-!
# The endpoints

What `micro_create_writer` and `micro_create_reader` ask the middleware for, and what they tell it about the
endpoints of the peer where discovery is static.

* `MiddlewareConfig`, `publisherConfig`, `subscriberConfig`: what the engines pass to `init`;
* `WriterQos`, `ReaderQos`, `microWriterQos`, `microReaderQos`: the QoS of the endpoints;
* `microWriterQos_valid`, `microReaderQos_valid`: every queue has room for its history;
* `EndpointData`: an endpoint as others see it, created or asserted;
* `asserted_reader_iff`, `asserted_writer_iff`: what is asserted is what the peer creates;
* `Matching`, `Matching.pairs`, `Matching.alike`: what the middleware makes of it.
-/

set_option autoImplicit false

namespace PerftestLite

/-! ## The configuration -/

/-- `PerftestLiteMiddlewareConfig`; of the type interface the name of the type. -/
structure MiddlewareConfig where
  typeName : String
  domainId : ℤ
  participantName : String
  participantId : ℤ
  peer : String
  nic : String
  transportId : String
  reliable : Bool
  isPublisher : Bool
  latencyTest : Bool
  remoteParticipantName : Option String
  deriving DecidableEq, Repr

def participantNamePub : String := "PerftestLite_publisher"

def participantNameSub : String := "PerftestLite_subscriber"

def pingTopicName : String := "Perftest_ping"

def pongTopicName : String := "Perftest_pong"

/-- The configuration of `perftest_lite_publisher`. -/
def publisherConfig (typeName : String) (args : InputArgs) : MiddlewareConfig where
  typeName := typeName
  domainId := args.domainId
  participantName := participantNamePub
  participantId := 1
  peer := args.peer
  nic := args.nic
  transportId := args.transportId
  reliable := args.reliable
  isPublisher := true
  latencyTest := args.latencyTest
  remoteParticipantName := some participantNameSub

/-- The configuration of `perftest_lite_subscriber`. -/
def subscriberConfig (typeName : String) (args : InputArgs) : MiddlewareConfig where
  typeName := typeName
  domainId := args.domainId
  participantName := participantNameSub
  participantId := 2
  peer := args.peer
  nic := args.nic
  transportId := args.transportId
  reliable := args.reliable
  isPublisher := false
  latencyTest := args.latencyTest
  remoteParticipantName := some participantNamePub

/-! ## Quality of service -/

/-- The history depth and the samples reserved for one kind of endpoint in one mode, as the preprocessor lets
them pass. -/
structure PoolLimits where
  historyDepth : ℤ
  maxSamples : ℤ
  valid : 1 ≤ historyDepth ∧ historyDepth ≤ maxSamples

/-- The limits of `perftest_lite_config.h` that the endpoints read. -/
structure EndpointLimits where
  dwLatency : PoolLimits
  dwThroughput : PoolLimits
  drLatency : PoolLimits
  drThroughput : PoolLimits
  dwMaxInstances : ℤ
  drMaxInstances : ℤ
  drMaxRemoteWriters : ℤ
  dwHeartbeatPeriodNs : ℤ

/-- The settings of `perftest_lite_config.h`. -/
def defaultLimits : EndpointLimits where
  dwLatency := ⟨2, 2, by decide⟩
  dwThroughput := ⟨8, 256, by decide⟩
  drLatency := ⟨2, 2, by decide⟩
  drThroughput := ⟨16, 256, by decide⟩
  dwMaxInstances := 1
  drMaxInstances := 1
  drMaxRemoteWriters := 1
  dwHeartbeatPeriodNs := 10000000

inductive HistoryKind
  | keepAll
  | keepLast
  deriving DecidableEq, Repr

/-- `DDS_DataWriterQos`, as far as it is set. -/
structure WriterQos where
  reliable : Bool
  historyKind : HistoryKind
  historyDepth : ℤ
  maxSamplesPerInstance : ℤ
  maxInstances : ℤ
  maxSamples : ℤ
  /-- Seconds and nanoseconds. -/
  heartbeatPeriod : Option (ℤ × ℤ)
  rtpsObjectId : Option ℤ
  deriving DecidableEq, Repr

/-- `DDS_DataReaderQos`, as far as it is set. -/
structure ReaderQos where
  reliable : Bool
  historyKind : HistoryKind
  historyDepth : ℤ
  maxSamplesPerInstance : ℤ
  maxInstances : ℤ
  maxSamples : ℤ
  maxRemoteWriters : ℤ
  maxRemoteWritersPerInstance : ℤ
  rtpsObjectId : Option ℤ
  deriving DecidableEq, Repr

/-- `local_writer_object_id`. -/
def localWriterObjectId (topicName : String) : ℤ := if topicName = pingTopicName then 101 else 211

/-- `local_reader_object_id`. -/
def localReaderObjectId (topicName : String) : ℤ := if topicName = pingTopicName then 111 else 201

/-- `remote_writer_object_id`. -/
def remoteWriterObjectId (topicName : String) : ℤ := if topicName = pingTopicName then 101 else 211

/-- `remote_reader_object_id`. -/
def remoteReaderObjectId (topicName : String) : ℤ := if topicName = pingTopicName then 111 else 201

/-- `topic_by_name`: the two topics of the participant. -/
def topicByName (name : String) : Option String :=
  if name = pingTopicName then some pingTopicName
  else if name = pongTopicName then some pongTopicName
  else none

section Qos

variable (b : Build) (lim : EndpointLimits) (cfg : MiddlewareConfig) (topicName : String) (reliable : Bool)

/-- The pool of the writers, by the mode of the test. -/
def writerPool : PoolLimits := if cfg.latencyTest then lim.dwLatency else lim.dwThroughput

/-- The pool of the readers. -/
def readerPool : PoolLimits := if cfg.latencyTest then lim.drLatency else lim.drThroughput

/-- The QoS of `micro_create_writer`, or none where the topic is unknown. -/
def microWriterQos : Option WriterQos :=
  (topicByName topicName).map fun _ =>
    -- Zero Copy does not support `KEEP_ALL`
    let keepAll := !b.hasZerocopy && reliable
    { reliable := reliable
      historyKind := if keepAll then .keepAll else .keepLast
      historyDepth := if keepAll then (writerPool lim cfg).maxSamples else (writerPool lim cfg).historyDepth
      maxSamplesPerInstance := (writerPool lim cfg).maxSamples
      maxInstances := lim.dwMaxInstances
      maxSamples := (writerPool lim cfg).maxSamples * lim.dwMaxInstances
      heartbeatPeriod :=
        if reliable then
          some (lim.dwHeartbeatPeriodNs.tdiv 1000000000, lim.dwHeartbeatPeriodNs.tmod 1000000000)
        else none
      rtpsObjectId := if b.dpse then some (localWriterObjectId topicName) else none }

/-- The QoS of `micro_create_reader`. -/
def microReaderQos : Option ReaderQos :=
  (topicByName topicName).map fun _ =>
    { reliable := reliable
      historyKind := .keepLast
      historyDepth := (readerPool lim cfg).historyDepth
      maxSamplesPerInstance := (readerPool lim cfg).maxSamples
      maxInstances := lim.drMaxInstances
      maxSamples := (readerPool lim cfg).maxSamples * lim.drMaxInstances
      maxRemoteWriters := lim.drMaxRemoteWriters
      maxRemoteWritersPerInstance := lim.drMaxRemoteWriters
      rtpsObjectId := if b.dpse then some (localReaderObjectId topicName) else none }

variable {b lim cfg topicName reliable}

/-- **The queue of a writer has room for its history**, and for every instance. -/
theorem microWriterQos_valid {q : WriterQos} (hinst : 1 ≤ lim.dwMaxInstances)
    (hq : microWriterQos b lim cfg topicName reliable = some q) :
    1 ≤ q.historyDepth ∧ q.historyDepth ≤ q.maxSamplesPerInstance ∧
      q.maxSamplesPerInstance ≤ q.maxSamples := by
  obtain ⟨t, -, rfl⟩ := Option.map_eq_some_iff.mp hq
  obtain ⟨hone, hle⟩ := (writerPool lim cfg).valid
  have hpos : 0 ≤ (writerPool lim cfg).maxSamples := by omega
  refine ⟨?_, ?_, le_mul_of_one_le_right hpos hinst⟩
  · dsimp only
    split_ifs
    · exact hone.trans hle
    · exact hone
  · dsimp only
    split_ifs
    · exact le_rfl
    · exact hle

/-- So has the queue of a reader. -/
theorem microReaderQos_valid {q : ReaderQos} (hinst : 1 ≤ lim.drMaxInstances)
    (hq : microReaderQos b lim cfg topicName reliable = some q) :
    1 ≤ q.historyDepth ∧ q.historyDepth ≤ q.maxSamplesPerInstance ∧
      q.maxSamplesPerInstance ≤ q.maxSamples := by
  obtain ⟨t, -, rfl⟩ := Option.map_eq_some_iff.mp hq
  obtain ⟨hone, hle⟩ := (readerPool lim cfg).valid
  have hpos : 0 ≤ (readerPool lim cfg).maxSamples := by omega
  exact ⟨hone, hle, le_mul_of_one_le_right hpos hinst⟩

end Qos

/-! ## The endpoints of the peer -/

/-- What a participant knows of an endpoint: created here, announced by the peer, or asserted of it. -/
structure EndpointData where
  domainId : ℤ
  participant : Option String
  topicName : String
  typeName : String
  reliable : Bool
  objectId : Option ℤ
  deriving DecidableEq, Repr

section Peer

variable (b : Build) (lim : EndpointLimits) (cfg : MiddlewareConfig) (topicName : String)

/-- The writer that `micro_create_writer` creates for an engine. -/
def createdWriter : Option EndpointData :=
  (microWriterQos b lim cfg topicName cfg.reliable).map fun qos =>
    ⟨cfg.domainId, some cfg.participantName, topicName, cfg.typeName, qos.reliable, qos.rtpsObjectId⟩

/-- The reader that `micro_create_reader` creates for an engine. -/
def createdReader : Option EndpointData :=
  (microReaderQos b lim cfg topicName cfg.reliable).map fun qos =>
    ⟨cfg.domainId, some cfg.participantName, topicName, cfg.typeName, qos.reliable, qos.rtpsObjectId⟩

/-- `assert_remote_subscription`, behind the creation of the writer. -/
def assertRemoteSubscription : Option EndpointData :=
  (microWriterQos b lim cfg topicName cfg.reliable).map fun qos =>
    ⟨cfg.domainId, cfg.remoteParticipantName, topicName, cfg.typeName, qos.reliable,
      some (remoteReaderObjectId topicName)⟩

/-- `assert_remote_publication`, behind the creation of the reader. -/
def assertRemotePublication : Option EndpointData :=
  (microReaderQos b lim cfg topicName cfg.reliable).map fun qos =>
    ⟨cfg.domainId, cfg.remoteParticipantName, topicName, cfg.typeName, qos.reliable,
      some (remoteWriterObjectId topicName)⟩

variable {b lim cfg topicName} {b' : Build} {lim' : EndpointLimits} {cfg' : MiddlewareConfig}

/-- **What is asserted of a reader is what the peer creates**, if both were started alike. -/
theorem asserted_reader_iff (htopic : (topicByName topicName).isSome = true) (hdpse : b'.dpse = true)
    (hname : cfg.remoteParticipantName = some cfg'.participantName) :
    assertRemoteSubscription b lim cfg topicName = createdReader b' lim' cfg' topicName ↔
      cfg.domainId = cfg'.domainId ∧ cfg.typeName = cfg'.typeName ∧ cfg.reliable = cfg'.reliable := by
  obtain ⟨t, ht⟩ := Option.isSome_iff_exists.mp htopic
  simp [assertRemoteSubscription, createdReader, microWriterQos, microReaderQos, ht, hdpse, hname,
    remoteReaderObjectId, localReaderObjectId]

/-- So is what is asserted of a writer. -/
theorem asserted_writer_iff (htopic : (topicByName topicName).isSome = true) (hdpse : b'.dpse = true)
    (hname : cfg.remoteParticipantName = some cfg'.participantName) :
    assertRemotePublication b lim cfg topicName = createdWriter b' lim' cfg' topicName ↔
      cfg.domainId = cfg'.domainId ∧ cfg.typeName = cfg'.typeName ∧ cfg.reliable = cfg'.reliable := by
  obtain ⟨t, ht⟩ := Option.isSome_iff_exists.mp htopic
  simp [assertRemotePublication, createdWriter, microWriterQos, microReaderQos, ht, hdpse, hname,
    remoteWriterObjectId, localWriterObjectId]

/-- What is known of the writer of the peer: asserted, or announced. -/
def knownWriter (b : Build) (lim : EndpointLimits) (cfg : MiddlewareConfig) (b' : Build)
    (lim' : EndpointLimits) (cfg' : MiddlewareConfig) (topicName : String) : Option EndpointData :=
  if b.dpse then assertRemotePublication b lim cfg topicName
  else if b'.dpse then none
  else createdWriter b' lim' cfg' topicName

end Peer

/-! ## Matching -/

/-- The middleware's decision on a writer and a reader. It pairs endpoints of one domain, one topic and one type
only, and offers no reader less than it requests. -/
structure Matching where
  decides : EndpointData → EndpointData → Bool
  requires : ∀ w r, decides w r = true → w.domainId = r.domainId ∧ w.topicName = r.topicName ∧
    w.typeName = r.typeName ∧ (r.reliable = true → w.reliable = true)

/-- A middleware that asks for nothing else. -/
def Matching.plain : Matching where
  decides w r := decide (w.domainId = r.domainId) && decide (w.topicName = r.topicName) &&
    decide (w.typeName = r.typeName) && (!r.reliable || w.reliable)
  requires w r h := by
    simpa [and_assoc, or_iff_not_imp_left] using h

/-- The reader of an engine is matched with the writer of its peer. -/
def Matching.pairs (M : Matching) (b : Build) (lim : EndpointLimits) (cfg : MiddlewareConfig) (b' : Build)
    (lim' : EndpointLimits) (cfg' : MiddlewareConfig) (topicName : String) : Bool :=
  match knownWriter b lim cfg b' lim' cfg' topicName, createdReader b lim cfg topicName with
  | some w, some r => M.decides w r
  | _, _ => false

/-- With dynamic discovery the two were started alike, up to a writer that offers more. -/
theorem Matching.alike {M : Matching} {b b' : Build} {lim lim' : EndpointLimits} {cfg cfg' : MiddlewareConfig}
    {topicName : String} (h : M.pairs b lim cfg b' lim' cfg' topicName = true) (hdpse : b.dpse = false) :
    cfg'.domainId = cfg.domainId ∧ cfg'.typeName = cfg.typeName ∧
      (cfg.reliable = true → cfg'.reliable = true) := by
  unfold Matching.pairs at h
  split at h
  case h_1 w r hw hr =>
    obtain ⟨hdomain, -, htype, hrel⟩ := M.requires w r h
    rw [knownWriter, hdpse] at hw
    simp only [Bool.false_eq_true, if_false, Option.ite_none_left_eq_some] at hw
    obtain ⟨-, hw⟩ := hw
    obtain ⟨q, hq, rfl⟩ := Option.map_eq_some_iff.mp hw
    obtain ⟨q', hq', rfl⟩ := Option.map_eq_some_iff.mp hr
    obtain ⟨t, -, rfl⟩ := Option.map_eq_some_iff.mp hq
    obtain ⟨t', -, rfl⟩ := Option.map_eq_some_iff.mp hq'
    exact ⟨hdomain, htype, hrel⟩
  case h_2 => cases h

end PerftestLite
