import PerftestLite.Lib.Attempt

/-!
# Middleware initialisation

`micro_init`, statement by statement, on the singleton and the process-wide registry it leaves behind,
and `micro_shutdown`, which leaves the registry alone.

* `microInitParticipant`, `microInitEntities`, `microInit`: up to the participant, and with it;
* `microShutdown`, `engineRun`, `returnCodes`: one run of an engine, and runs one after the other;
* `microInit_fresh`, `microInit_again`: what `micro_init` returns before and after its first success;
* `init_repeats_iff`: the sequences on which it returns what it returns in a fresh process.
-/

set_option autoImplicit false

namespace PerftestLite

/-- The names registered with the process-wide registry. -/
inductive Component
  | writerHistory
  | readerHistory
  | udp
  | shmem
  | notif
  | dpse
  | dpde
  deriving DecidableEq, Repr

/-- What is compiled in, and whether the OS layer hands out an address for the interface. -/
structure Build where
  hasShmem : Bool
  hasZerocopy : Bool
  typeZcopy : Bool
  /-- Static endpoint discovery, otherwise dynamic. -/
  dpse : Bool
  nicAddress : Bool
  deriving DecidableEq, Repr

/-- A call whose outcome `micro_init` depends on. -/
inductive InitCall
  | allocUdp
  | udpTableEntry
  | unregisterUdp
  | register (n : Component)
  | allocShmem
  | zerocopyInitialize
  | allocNotifMechanism
  | allocNotifInterface
  | discoveryName
  | shmemQos
  | zerocopyQos
  | createParticipant
  | assertRemoteParticipant
  | registerType
  | createPingTopic
  | createPongTopic
  | createPublisher
  | createSubscriber
  deriving DecidableEq, Repr

/-- The singleton `g_micro_state` as far as init and shutdown use it, with the registry. -/
structure MicroMW where
  isZerocopy : Bool
  isShmem : Bool
  /-- `self->participant` is not null. -/
  participant : Bool
  registry : List Component
  deriving DecidableEq, Repr

section Code

variable (b : Build) (calls : InitCall → Bool)

/-- `RT_Registry_register`, which rejects a name that is registered. -/
def registryRegister (n : Component) : Attempt MicroMW := fun self =>
  if n ∈ self.registry ∨ calls (.register n) = false then (false, self)
  else (true, { self with registry := n :: self.registry })

/-- `RT_Registry_unregister`; the outcome is ignored. -/
def registryUnregister (n : Component) : Attempt MicroMW := .update fun self =>
  if calls .unregisterUdp then { self with registry := self.registry.filter (· ≠ n) } else self

/-- A call that touches neither the singleton nor the registry. -/
def called (c : InitCall) : Attempt MicroMW := .check fun _ => calls c

/-- The transport the id asks for; a null id is `UDPv4`. -/
def selectTransport (transportId : Option String) : Attempt MicroMW := fun self =>
  let self := { self with isZerocopy := false, isShmem := false }
  match transportId with
  | none => (true, self)
  | some id =>
    if id = "UDPv4" then (true, self)
    else if id = "SHMEM" then
      if b.hasShmem && !b.typeZcopy then (true, { self with isShmem := true }) else (false, self)
    else if id = "ZeroCopy" then
      if b.hasZerocopy && b.typeZcopy then (true, { self with isZerocopy := true }) else (false, self)
    else (false, self)

/-- `configure_udp`: whatever has the name is unregistered first. -/
def configureUdp : Attempt MicroMW := .all [
  called calls .allocUdp,
  .check fun _ => !b.nicAddress || calls .udpTableEntry,
  registryUnregister calls .udp,
  registryRegister calls .udp]

/-- `configure_shmem`. -/
def configureShmem : Attempt MicroMW := .all [
  called calls .allocShmem,
  registryRegister calls .shmem]

/-- `configure_zerocopy`. -/
def configureZerocopy : Attempt MicroMW := .all [
  called calls .zerocopyInitialize,
  called calls .allocNotifMechanism,
  called calls .allocNotifInterface,
  registryRegister calls .notif]

/-- `configure_dpse` or `configure_dpde`. -/
def configureDiscovery : Attempt MicroMW := .all [
  registryRegister calls (if b.dpse then .dpse else .dpde),
  called calls .discoveryName]

/-- `DDS_DomainParticipantFactory_create_participant`. -/
def createParticipant : Attempt MicroMW := fun self =>
  (calls .createParticipant, { self with participant := calls .createParticipant })

/-- `micro_init` up to the participant. -/
def microInitParticipant (transportId : Option String) : Attempt MicroMW := .all [
  selectTransport b transportId,
  registryRegister calls .writerHistory,
  registryRegister calls .readerHistory,
  configureUdp b calls,
  .onlyIf MicroMW.isShmem (configureShmem calls),
  .onlyIf MicroMW.isZerocopy (configureZerocopy calls),
  configureDiscovery b calls,
  .onlyIf MicroMW.isShmem (called calls .shmemQos),
  .onlyIf MicroMW.isZerocopy (called calls .zerocopyQos),
  createParticipant calls]

/-- The rest of `micro_init`, the participant being there. -/
def microInitEntities : Attempt MicroMW := .all [
  .check fun _ => !b.dpse || calls .assertRemoteParticipant,
  called calls .registerType,
  .check fun _ => calls .createPingTopic && calls .createPongTopic,
  .check fun _ => calls .createPublisher && calls .createSubscriber]

/-- `micro_init`; it succeeds where the function returns zero. -/
def microInit (transportId : Option String) : Attempt MicroMW := .all [
  microInitParticipant b calls transportId,
  microInitEntities b calls]

/-- `micro_shutdown`. -/
def microShutdown (self : MicroMW) : MicroMW := { self with participant := false }

/-- What one run of an engine does to the middleware. -/
def engineRun (transportId : Option String) : Attempt MicroMW := fun self =>
  let r := microInit b calls transportId self
  (r.1, if r.1 then microShutdown r.2 else r.2)

/-- What `micro_init` returns in runs one after the other. -/
def returnCodes : List (Option String) → MicroMW → List Bool
  | [], _ => []
  | id :: ids, self => (engineRun b calls id self).1 :: returnCodes ids (engineRun b calls id self).2

end Code

/-! ## One call of `micro_init` -/

/-- The transports a build supports. -/
def supported (b : Build) : Option String → Bool
  | none => true
  | some id => decide (id = "UDPv4") || (decide (id = "SHMEM") && (b.hasShmem && !b.typeZcopy)) ||
      (decide (id = "ZeroCopy") && (b.hasZerocopy && b.typeZcopy))

/-- Every call succeeds that the registry does not reject. -/
def allSucceed : InitCall → Bool := fun _ => true

/-- A process in which `micro_init` has not succeeded yet: the default UDP plugin may be registered. -/
def MicroMW.Fresh (self : MicroMW) : Prop := ∀ n ∈ self.registry, n = .udp

variable {b : Build} {calls : InitCall → Bool} {id : Option String} {self : MicroMW}

theorem selectTransport_fst : (selectTransport b id self).1 = supported b id := by
  cases id with
  | none => rfl
  | some id =>
    unfold selectTransport supported
    by_cases h1 : id = "UDPv4"
    · simp [h1]
    · by_cases h2 : id = "SHMEM"
      · cases hs : b.hasShmem && !b.typeZcopy <;> simp [h2]
      · by_cases h3 : id = "ZeroCopy"
        · cases hz : b.hasZerocopy && b.typeZcopy <;> simp [h3]
        · simp [h1, h2, h3]

/-- The choice of the transport leaves the registry alone. -/
theorem selectTransport_registry : (selectTransport b id self).2.registry = self.registry := by
  cases id with
  | none => rfl
  | some id =>
    unfold selectTransport
    dsimp only
    split_ifs <;> rfl

/-- A transport that is not supported is rejected before anything is registered. -/
theorem microInit_unsupported (h : supported b id = false) :
    (microInit b calls id self).1 = false ∧
      (microInit b calls id self).2.registry = self.registry := by
  have hfirst : (selectTransport b id self).1 = false := selectTransport_fst.trans h
  have hpart : microInitParticipant b calls id self = (false, (selectTransport b id self).2) :=
    Attempt.all_cons_false hfirst
  have hinit : microInit b calls id self = (false, (microInitParticipant b calls id self).2) :=
    Attempt.all_cons_false (congrArg Prod.fst hpart)
  rw [hinit, hpart]
  exact ⟨rfl, selectTransport_registry⟩

/-- Once the writer history is registered, `micro_init` fails at its first registration. -/
theorem microInit_again (h : .writerHistory ∈ self.registry) :
    (microInit b calls id self).1 = false ∧
      .writerHistory ∈ (microInit b calls id self).2.registry := by
  cases hs : supported b id with
  | false =>
    obtain ⟨hfst, hreg⟩ : (microInit b calls id self).1 = false ∧
      (microInit b calls id self).2.registry = self.registry := microInit_unsupported hs
    exact ⟨hfst, hreg ▸ h⟩
  | true =>
    have hmem : .writerHistory ∈ (selectTransport b id self).2.registry := by
      rw [selectTransport_registry]
      exact h
    have hreg : registryRegister calls .writerHistory (selectTransport b id self).2 =
        (false, (selectTransport b id self).2) := if_pos (.inl hmem)
    have hpart : microInitParticipant b calls id self = (false, (selectTransport b id self).2) := by
      unfold microInitParticipant
      rw [Attempt.all_cons_true (selectTransport_fst.trans hs),
        Attempt.all_cons_false (congrArg Prod.fst hreg), hreg]
    have hinit : microInit b calls id self = (false, (microInitParticipant b calls id self).2) :=
      Attempt.all_cons_false (congrArg Prod.fst hpart)
    rw [hinit, hpart]
    exact ⟨rfl, hmem⟩

/-! ## The first success -/

/-- Of the names but that of UDP, those in `lo` are registered, and none but those in `hi`. -/
def Registered (lo hi : List Component) (self : MicroMW) : Prop :=
  ∀ n, n ≠ .udp → (n ∈ lo → n ∈ self.registry) ∧ (n ∈ self.registry → n ∈ hi)

variable {lo hi : List Component} {n : Component}

/-- A new name is registered. -/
theorem register_succeeds (hn : n ≠ .udp) (hnew : n ∉ hi) :
    Attempt.Succeeds (Registered lo hi) (registryRegister allSucceed n)
      (Registered (n :: lo) (n :: hi)) := by
  intro self h
  have hout : ¬ (n ∈ self.registry ∨ allSucceed (.register n) = false) := by
    rintro (hmem | hfalse)
    · exact hnew ((h n hn).2 hmem)
    · cases hfalse
  unfold registryRegister
  rw [if_neg hout]
  refine ⟨rfl, fun m hm => ⟨fun hlo => ?_, fun hreg => ?_⟩⟩
  · rcases List.mem_cons.mp hlo with rfl | hlo
    · exact List.mem_cons_self
    · exact List.mem_cons_of_mem n ((h m hm).1 hlo)
  · rcases List.mem_cons.mp hreg with rfl | hreg
    · exact List.mem_cons_self
    · exact List.mem_cons_of_mem n ((h m hm).2 hreg)

theorem called_succeeds {P : MicroMW → Prop} (c : InitCall) :
    Attempt.Succeeds P (called allSucceed c) P := .check fun _ _ => rfl

/-- The default UDP plugin makes room for the one configured here. -/
theorem configureUdp_succeeds :
    Attempt.Succeeds (Registered lo hi) (configureUdp b allSucceed) (Registered lo hi) := by
  refine (called_succeeds _).cons (.cons (.check fun _ _ => ?_) (.cons (Q := fun self =>
    Registered lo hi self ∧ .udp ∉ self.registry) (.update fun self h => ⟨fun m hm => ?_, ?_⟩)
    (.cons (fun self h => ?_) Attempt.succeeds_nil)))
  · exact Bool.or_true _
  · change (m ∈ lo → m ∈ self.registry.filter (· ≠ .udp)) ∧ (m ∈ self.registry.filter (· ≠ .udp) → m ∈ hi)
    rw [List.mem_filter]
    exact ⟨fun hlo => ⟨(h m hm).1 hlo, decide_eq_true hm⟩, fun hreg => (h m hm).2 hreg.1⟩
  · intro hmem
    exact of_decide_eq_true (List.mem_filter.mp hmem).2 rfl
  · unfold registryRegister
    rw [if_neg (by rintro (hmem | hfalse); exacts [h.2 hmem, Bool.noConfusion hfalse])]
    refine ⟨rfl, fun m hm => ⟨fun hlo => List.mem_cons_of_mem _ ((h.1 m hm).1 hlo), fun hreg => ?_⟩⟩
    rcases List.mem_cons.mp hreg with rfl | hreg
    · exact absurd rfl hm
    · exact (h.1 m hm).2 hreg

/-- A name more than may be registered. -/
theorem Registered.widen (h : Registered lo hi self) (n : Component) : Registered lo (n :: hi) self :=
  fun m hm => ⟨(h m hm).1, fun hreg => List.mem_cons_of_mem n ((h m hm).2 hreg)⟩

/-- One name less is asked for. -/
theorem Registered.forget (h : Registered (n :: lo) hi self) : Registered lo hi self :=
  fun m hm => ⟨fun hlo => (h m hm).1 (List.mem_cons_of_mem n hlo), (h m hm).2⟩

/-- An optional transport, under a new name. -/
theorem optional_succeeds {p : MicroMW → Bool} {a : Attempt MicroMW}
    (ha : Attempt.Succeeds (Registered lo hi) a (Registered (n :: lo) (n :: hi))) :
    Attempt.Succeeds (Registered lo hi) (.onlyIf p a) (Registered lo (n :: hi)) :=
  .onlyIf (ha.mono fun _ h => h.forget) fun _ h => h.widen n

theorem configureShmem_succeeds (hnew : .shmem ∉ hi) :
    Attempt.Succeeds (Registered lo hi) (configureShmem allSucceed)
      (Registered (.shmem :: lo) (.shmem :: hi)) :=
  (called_succeeds _).cons ((register_succeeds (n := .shmem) (by decide) hnew).cons Attempt.succeeds_nil)

theorem configureZerocopy_succeeds (hnew : .notif ∉ hi) :
    Attempt.Succeeds (Registered lo hi) (configureZerocopy allSucceed)
      (Registered (.notif :: lo) (.notif :: hi)) :=
  (called_succeeds _).cons ((called_succeeds _).cons ((called_succeeds _).cons
    ((register_succeeds (n := .notif) (by decide) hnew).cons Attempt.succeeds_nil)))

theorem configureDiscovery_succeeds (hnew : (if b.dpse then Component.dpse else .dpde) ∉ hi) :
    Attempt.Succeeds (Registered lo hi) (configureDiscovery b allSucceed) (Registered lo
      ((if b.dpse then Component.dpse else .dpde) :: hi)) := by
  have hudp : (if b.dpse then Component.dpse else .dpde) ≠ .udp := by split_ifs <;> decide
  have hreg : Attempt.Succeeds (Registered lo hi) _ _ := register_succeeds hudp hnew
  exact (hreg.mono fun _ h => h.forget).cons ((called_succeeds _).cons Attempt.succeeds_nil)

theorem createParticipant_succeeds :
    Attempt.Succeeds (Registered lo hi) (createParticipant allSucceed) (Registered lo hi) :=
  fun _ h => ⟨rfl, h⟩

theorem microInitEntities_succeeds {P : MicroMW → Prop} :
    Attempt.Succeeds P (microInitEntities b allSucceed) P :=
  .cons (.check fun _ _ => Bool.or_true _) ((called_succeeds _).cons
    (.cons (.check fun _ _ => rfl) (.cons (.check fun _ _ => rfl) Attempt.succeeds_nil)))

/-- **The first success.** In a fresh process `micro_init` accepts every transport supported, and
leaves the writer history registered. -/
theorem microInit_fresh (hs : supported b id = true) (h : self.Fresh) :
    (microInit b allSucceed id self).1 = true ∧
      .writerHistory ∈ (microInit b allSucceed id self).2.registry := by
  have hselect : Attempt.Succeeds (Registered [] []) (selectTransport b id) (Registered [] []) := by
    intro self h
    refine ⟨selectTransport_fst.trans hs, fun m hm => ?_⟩
    rw [selectTransport_registry]
    exact h m hm
  have hdisc : (if b.dpse then Component.dpse else .dpde) ∉
      [Component.notif, .shmem, .readerHistory, .writerHistory] := by
    split_ifs <;> decide
  have hparticipant := hselect.cons <| (register_succeeds (n := .writerHistory) (by decide) (by decide)).cons <|
    (register_succeeds (n := .readerHistory) (by decide) (by decide)).cons <|
    (configureUdp_succeeds (b := b)).cons <|
    (optional_succeeds (p := MicroMW.isShmem) (configureShmem_succeeds (by decide))).cons <|
    (optional_succeeds (p := MicroMW.isZerocopy) (configureZerocopy_succeeds (by decide))).cons <|
    (configureDiscovery_succeeds hdisc).cons <|
    (Attempt.Succeeds.onlyIf (p := MicroMW.isShmem) (called_succeeds .shmemQos) fun _ h => h).cons <|
    (Attempt.Succeeds.onlyIf (p := MicroMW.isZerocopy) (called_succeeds .zerocopyQos) fun _ h => h).cons <|
    createParticipant_succeeds.cons Attempt.succeeds_nil
  have hinit := hparticipant.cons ((microInitEntities_succeeds (b := b)).cons Attempt.succeeds_nil)
  have hstart : Registered [] [] self := fun m hm =>
    ⟨fun hlo => (List.not_mem_nil hlo).elim, fun hreg => absurd (h m hreg) hm⟩
  obtain ⟨hfst, hreg⟩ := hinit self hstart
  exact ⟨hfst, (hreg .writerHistory (by decide)).1 (by decide)⟩

/-! ## Runs one after the other -/

theorem engineRun_fst : (engineRun b calls id self).1 = (microInit b calls id self).1 := rfl

/-- Shutdown leaves the registry alone. -/
theorem engineRun_registry :
    (engineRun b calls id self).2.registry = (microInit b calls id self).2.registry := by
  unfold engineRun
  dsimp only
  split_ifs
  · rfl
  · rfl

/-- In a fresh process the return code says whether the transport is supported. -/
theorem freshCode (h : self.Fresh) : (microInit b allSucceed id self).1 = supported b id := by
  cases hs : supported b id with
  | false => exact (microInit_unsupported hs).1
  | true => exact (microInit_fresh hs h).1

/-- Once the writer history is registered, every run fails. -/
theorem returnCodes_registered {ids : List (Option String)} (h : .writerHistory ∈ self.registry) :
    returnCodes b calls ids self = ids.map fun _ => false := by
  induction ids generalizing self with
  | nil => rfl
  | cons id ids ih =>
    obtain ⟨hfst, hreg⟩ : (microInit b calls id self).1 = false ∧
      .writerHistory ∈ (microInit b calls id self).2.registry := microInit_again h
    rw [← engineRun_registry] at hreg
    change (engineRun b calls id self).1 :: returnCodes b calls ids (engineRun b calls id self).2 = _
    rw [ih hreg, engineRun_fst, hfst]
    rfl

/-- **Runs one after the other.** From a fresh process, with every other call succeeding: each
`micro_init` returns what it returns in a fresh process exactly if at most one of the runs has a
transport the build supports. -/
theorem init_repeats_iff (b : Build) {self : MicroMW} (h : self.Fresh) (ids : List (Option String)) :
    returnCodes b allSucceed ids self = ids.map (fun id => (microInit b allSucceed id self).1) ↔
      (ids.filter (supported b)).length ≤ 1 := by
  have hfresh : (fun id => (microInit b allSucceed id self).1) = supported b := by
    funext id
    exact freshCode h
  rw [hfresh]
  clear hfresh
  induction ids generalizing self with
  | nil => exact ⟨fun _ => Nat.zero_le 1, fun _ => rfl⟩
  | cons id ids ih =>
    have hcodes : returnCodes b allSucceed (id :: ids) self = (engineRun b allSucceed id self).1 ::
        returnCodes b allSucceed ids (engineRun b allSucceed id self).2 := rfl
    rw [hcodes, engineRun_fst, freshCode h, List.map_cons, List.cons_inj_right]
    cases hs : supported b id with
    | false =>
      have hreg : (microInit b allSucceed id self).2.registry = self.registry := (microInit_unsupported hs).2
      rw [← engineRun_registry] at hreg
      have hfresh' : (engineRun b allSucceed id self).2.Fresh := by
        unfold MicroMW.Fresh
        rw [hreg]
        exact h
      rw [List.filter_cons_of_neg (by rw [hs]; exact Bool.false_ne_true)]
      exact ih hfresh'
    | true =>
      have hreg := (microInit_fresh hs h).2
      rw [← engineRun_registry] at hreg
      have hnone : (ids.filter (supported b)).length + 1 ≤ 1 ↔ ids.filter (supported b) = [] := by
        rw [← List.length_eq_zero_iff]
        omega
      rw [returnCodes_registered hreg, List.filter_cons_of_pos hs, List.length_cons, hnone,
        List.filter_eq_nil_iff, List.map_inj_left]
      exact forall₂_congr fun id _ => by cases supported b id <;> simp

/-- A build with static discovery and nothing optional. -/
def plainBuild : Build := ⟨false, false, false, true, false⟩

/-- A fresh process with the default UDP plugin. -/
def freshProcess : MicroMW := ⟨false, false, false, [.udp]⟩

theorem init_repeats_iff_shmem :
    returnCodes plainBuild allSucceed [some "SHMEM", some "UDPv4", some "ZeroCopy"] freshProcess =
      [some "SHMEM", some "UDPv4", some "ZeroCopy"].map fun id =>
        (microInit plainBuild allSucceed id freshProcess).1 := by
  have hfresh : freshProcess.Fresh := by
    unfold MicroMW.Fresh
    decide
  exact (init_repeats_iff plainBuild hfresh _).mpr (by decide)

/-- Two runs over `UDPv4`, each as the engines make it: the second fails. -/
theorem second_init_fails :
    returnCodes plainBuild allSucceed [some "UDPv4", some "UDPv4"] freshProcess = [true, false] ∧
      (microInit plainBuild allSucceed (some "UDPv4") freshProcess).1 = true := by
  decide

end PerftestLite
