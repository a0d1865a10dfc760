import PerftestLite.Lib.ByteOrder
import Mathlib.Data.List.Basic

/-!
# The UDP interface table

`configure_udp` binds the transport to the NIC the user names: two searches through the interface list
of the host, one for the address and one for the netmask, give the entry of the interface table. Each
search stops at the first entry it does not skip, and they do not skip the same ones.

* `linuxNicAddressIpv4`, `linuxNicNetmaskIpv4`: the searches, `0xFFFFFFFF` where nothing is found;
* `configureUdpProperty`: the property of the transport; `configureUdpProperty_ifTable`: its table;
* `TableServes`: the table has the NIC's own address and mask;
* `tableServes_iff`: exactly when it does.
-/

set_option autoImplicit false

namespace PerftestLite

open ByteOrder

/-! ## The interface list -/

/-- `struct sockaddr`: an IPv4 address (`AF_INET`) or one of another family. -/
inductive SockAddr
  | inet (sinAddr : Octets)
  | other
  deriving DecidableEq, Repr

/-- One element of the list `getifaddrs` returns; `none` is a null pointer. The netmask is read as an
IPv4 address. -/
structure Ifaddrs where
  ifaName : String
  ifaAddr : Option SockAddr
  ifaNetmask : Option Octets
  deriving DecidableEq, Repr

/-- What the address search finds in an entry, `none` where it goes on. -/
def ifaAddress (name : String) (ifa : Ifaddrs) : Option Octets :=
  match ifa.ifaAddr with
  | some (.inet a) => if ifa.ifaName ≠ name then none else some a
  | _ => none

/-- What the netmask search finds in an entry: it goes on at an entry without one, too. -/
def ifaMask (name : String) (ifa : Ifaddrs) : Option Octets :=
  match ifa.ifaAddr with
  | some (.inet _) => if ifa.ifaNetmask = none ∨ ifa.ifaName ≠ name then none else ifa.ifaNetmask
  | _ => none

section Search

variable (host : Host)

/-- A search through the interface list, which is `none` where `getifaddrs` failed. -/
def nicSearch (found : String → Ifaddrs → Option Octets) (ifs : Option (List Ifaddrs))
    (name : Option String) : BitVec 32 :=
  match name, ifs with
  | some name, some ifs => ((ifs.findSome? (found name)).map (load host)).getD 0xFFFFFFFF#32
  | _, _ => 0xFFFFFFFF#32

/-- `linux_nic_address_ipv4`. -/
def linuxNicAddressIpv4 : Option (List Ifaddrs) → Option String → BitVec 32 := nicSearch host ifaAddress

/-- `linux_nic_netmask_ipv4`. -/
def linuxNicNetmaskIpv4 : Option (List Ifaddrs) → Option String → BitVec 32 := nicSearch host ifaMask

end Search

/-- The NIC functions of the OS interface; a port may leave one out. -/
structure NicFunctions where
  nicAddressIpv4 : Option (Option String → BitVec 32)
  nicNetmaskIpv4 : Option (Option String → BitVec 32)

/-- Those of the Linux port. -/
def linuxNicFunctions (host : Host) (ifs : Option (List Ifaddrs)) : NicFunctions where
  nicAddressIpv4 := some (linuxNicAddressIpv4 host ifs)
  nicNetmaskIpv4 := some (linuxNicNetmaskIpv4 host ifs)

/-! ## `configure_udp` -/

/-- An entry of `UDP_InterfaceTable`, in host byte order. -/
structure InterfaceTableEntry where
  address : BitVec 32
  netmask : BitVec 32
  name : Option String
  deriving DecidableEq, Repr

/-- `struct UDP_InterfaceFactoryProperty`. -/
structure UdpProperty where
  maxMessageSize : ℤ
  maxReceiveBufferSize : ℤ
  maxSendBufferSize : ℤ
  allowInterface : List (Option String)
  disableAutoInterfaceConfig : Bool
  ifTable : List InterfaceTableEntry
  deriving DecidableEq, Repr

/-- The compile-time sizes of the UDP transport. -/
structure UdpSizes where
  maxMessageSize : ℤ
  maxRecvBufferSize : ℤ
  maxSendBufferSize : ℤ
  deriving DecidableEq, Repr

/-- The sizes of `perftest_lite_config.h`. -/
def defaultUdpSizes : UdpSizes := ⟨65507, 4194304, 2097152⟩

/-- The conversion from network to host byte order. -/
def toHostOrder : Host → BitVec 32 → BitVec 32
  | .little, x => swap x
  | .big, x => x

/-- The defaults overridden where the compiled size is reasonable, one interface allowed. -/
def udpBaseProperty (sizes : UdpSizes) (nic : Option String) (p : UdpProperty) : UdpProperty :=
  { p with
    maxMessageSize := if sizes.maxMessageSize > 0 ∧ sizes.maxMessageSize ≤ 65507
      then sizes.maxMessageSize else p.maxMessageSize
    maxReceiveBufferSize := if sizes.maxRecvBufferSize > 0 then sizes.maxRecvBufferSize
      else p.maxReceiveBufferSize
    maxSendBufferSize := if sizes.maxSendBufferSize > 0 then sizes.maxSendBufferSize
      else p.maxSendBufferSize
    allowInterface := [nic] }

/-- The property `configure_udp` registers, from the defaults `p`, where the heap calls and
`UDP_InterfaceTable_add_entry` succeed. -/
def configureUdpProperty (host : Host) (sizes : UdpSizes) (os : Option NicFunctions)
    (nic : Option String) (p : UdpProperty) : UdpProperty :=
  let p := udpBaseProperty sizes nic p
  let addrBe := ((os.bind (·.nicAddressIpv4)).map fun f => f nic).getD 0#32
  let maskBe := ((os.bind (·.nicNetmaskIpv4)).map fun f => f nic).getD 0xFFFFFFFF#32
  if addrBe ≠ 0#32 ∧ addrBe ≠ 0xFFFFFFFF#32 ∧ maskBe ≠ 0#32 ∧ maskBe ≠ 0xFFFFFFFF#32 then
    { p with
      disableAutoInterfaceConfig := true
      ifTable := p.ifTable ++ [⟨toHostOrder host addrBe, toHostOrder host maskBe, nic⟩] }
  else p

/-! ## What is in the table -/

/-- `0.0.0.0`. -/
def zeroAddress : Octets := ⟨0, 0, 0, 0⟩

/-- `255.255.255.255`. -/
def onesAddress : Octets := ⟨255, 255, 255, 255⟩

/-- Not one of the two values that stand for a failure. -/
def Proper (o : Octets) : Prop := o ≠ zeroAddress ∧ o ≠ onesAddress

instance (o : Octets) : Decidable (Proper o) := inferInstanceAs (Decidable (_ ∧ _))

section Table

variable {host : Host} {sizes : UdpSizes} {p : UdpProperty} {ifs : List Ifaddrs} {name : String}

theorem load_ne_zero_iff {o : Octets} : load host o ≠ 0#32 ↔ o ≠ zeroAddress :=
  not_congr (load_eq_iff (by cases host <;> decide))

theorem load_ne_ones_iff {o : Octets} : load host o ≠ 0xFFFFFFFF#32 ↔ o ≠ onesAddress :=
  not_congr (load_eq_iff (by cases host <;> decide))

/-- The conversion gives the number the octets stand for, on either host. -/
theorem toHostOrder_load (host : Host) (o : Octets) : toHostOrder host (load host o) = number o := by
  cases host with
  | little => exact swap_load o
  | big => rfl

theorem nicSearch_eq (found : String → Ifaddrs → Option Octets) :
    nicSearch host found (some ifs) (some name) =
      ((ifs.findSome? (found name)).map (load host)).getD 0xFFFFFFFF#32 := rfl

/-- The guard of `configure_udp` on values that were found. -/
theorem guard_iff {a m : Octets} :
    (load host a ≠ 0#32 ∧ load host a ≠ 0xFFFFFFFF#32 ∧ load host m ≠ 0#32 ∧
      load host m ≠ 0xFFFFFFFF#32) ↔ Proper a ∧ Proper m := by
  rw [load_ne_zero_iff, load_ne_ones_iff, load_ne_zero_iff, load_ne_ones_iff]
  exact and_assoc.symm

/-- The entries `configure_udp` adds: one, if both searches found a proper value. -/
def addedEntries (name : String) (ifs : List Ifaddrs) : List InterfaceTableEntry :=
  match ifs.findSome? (ifaAddress name), ifs.findSome? (ifaMask name) with
  | some a, some m => if Proper a ∧ Proper m then [⟨number a, number m, some name⟩] else []
  | _, _ => []

/-- **The table**, on either host. -/
theorem configureUdpProperty_ifTable (host : Host) (sizes : UdpSizes) (p : UdpProperty)
    (ifs : List Ifaddrs) (name : String) :
    (configureUdpProperty host sizes (some (linuxNicFunctions host (some ifs))) (some name) p).ifTable =
      p.ifTable ++ addedEntries name ifs := by
  have hguard : (configureUdpProperty host sizes (some (linuxNicFunctions host (some ifs))) (some name)
      p).ifTable = p.ifTable ++
        if nicSearch host ifaAddress (some ifs) (some name) ≠ 0#32 ∧
            nicSearch host ifaAddress (some ifs) (some name) ≠ 0xFFFFFFFF#32 ∧
            nicSearch host ifaMask (some ifs) (some name) ≠ 0#32 ∧
            nicSearch host ifaMask (some ifs) (some name) ≠ 0xFFFFFFFF#32 then
          [⟨toHostOrder host (nicSearch host ifaAddress (some ifs) (some name)),
            toHostOrder host (nicSearch host ifaMask (some ifs) (some name)), some name⟩]
        else [] := by
    unfold configureUdpProperty
    dsimp only [linuxNicFunctions, linuxNicAddressIpv4, linuxNicNetmaskIpv4, Option.bind_some,
      Option.map_some, Option.getD_some]
    split_ifs
    · rfl
    · exact (List.append_nil _).symm
  rw [hguard, nicSearch_eq, nicSearch_eq]
  unfold addedEntries
  congr 1
  cases ifs.findSome? (ifaAddress name) with
  | none => exact if_neg fun h => h.2.1 rfl
  | some a =>
    cases ifs.findSome? (ifaMask name) with
    | none => exact if_neg fun h => h.2.2.2 rfl
    | some m =>
      simp only [Option.map_some, Option.getD_some, toHostOrder_load]
      exact if_congr guard_iff rfl rfl

/-! ## Whose address, whose mask -/

/-- An IPv4 entry for the name whose address is no failure value and whose netmask is there and not
zero. -/
def UsableEntry (name : String) (e : Ifaddrs) : Prop :=
  ∃ a m, e.ifaAddr = some (.inet a) ∧ e.ifaName = name ∧ e.ifaNetmask = some m ∧ Proper a ∧
    m ≠ zeroAddress

/-- The NIC's own address and mask are added where it has a usable entry, and nothing where it has no
IPv4 entry. -/
def TableServes (host : Host) (sizes : UdpSizes) (p : UdpProperty) (ifs : List Ifaddrs)
    (name : String) : Prop :=
  let table := (configureUdpProperty host sizes (some (linuxNicFunctions host (some ifs))) (some name)
    p).ifTable
  ((∃ e ∈ ifs, UsableEntry name e) →
    ∃ e ∈ ifs, ∃ a m, e.ifaAddr = some (.inet a) ∧ e.ifaName = name ∧ e.ifaNetmask = some m ∧
      table = p.ifTable ++ [⟨number a, number m, some name⟩]) ∧
  ((∀ e ∈ ifs, ∀ a, e.ifaAddr = some (.inet a) → e.ifaName ≠ name) → table = p.ifTable)

/-- The first IPv4 entry for the name and the first one with a netmask: the address of the one and the
mask of the other are no failure values, and some entry has both. -/
def OneEntryFirst (name : String) (ifs : List Ifaddrs) : Prop :=
  ∃ a m, ifs.findSome? (ifaAddress name) = some a ∧ ifs.findSome? (ifaMask name) = some m ∧
    Proper a ∧ Proper m ∧
    ∃ e ∈ ifs, e.ifaAddr = some (.inet a) ∧ e.ifaName = name ∧ e.ifaNetmask = some m

theorem ifaAddress_eq_some {e : Ifaddrs} {a : Octets} :
    ifaAddress name e = some a ↔ e.ifaAddr = some (.inet a) ∧ e.ifaName = name := by
  unfold ifaAddress
  split
  case h_1 b hb =>
    rw [hb]
    by_cases hn : e.ifaName = name
    · simp [hn]
    · simp [hn]
  case h_2 hb =>
    constructor
    · intro h
      cases h
    · exact fun h => absurd h.1 (hb a)

theorem ifaMask_eq_some {e : Ifaddrs} {m : Octets} :
    ifaMask name e = some m ↔ (∃ a, ifaAddress name e = some a) ∧ e.ifaNetmask = some m := by
  simp only [ifaAddress_eq_some]
  unfold ifaMask
  split
  case h_1 b hb =>
    rw [hb]
    by_cases hn : e.ifaName = name
    · cases e.ifaNetmask with
      | none => simp
      | some m' => simp [hn]
    · simp [hn]
  case h_2 hb =>
    constructor
    · intro h
      cases h
    · exact fun h => absurd h.1.choose_spec.1 (hb _)

theorem addedEntries_eq {a m : Octets} (ha : ifs.findSome? (ifaAddress name) = some a)
    (hm : ifs.findSome? (ifaMask name) = some m) (h : Proper a ∧ Proper m) :
    addedEntries name ifs = [⟨number a, number m, some name⟩] := by
  unfold addedEntries
  rw [ha, hm]
  exact if_pos h

theorem mem_addedEntries {t : InterfaceTableEntry} (ht : t ∈ addedEntries name ifs) :
    ∃ a m, ifs.findSome? (ifaAddress name) = some a ∧ ifs.findSome? (ifaMask name) = some m ∧
      Proper a ∧ Proper m ∧ t = ⟨number a, number m, some name⟩ := by
  unfold addedEntries at ht
  split at ht
  case h_1 a m ha hm =>
    split_ifs at ht with hok
    · exact ⟨a, m, ha, hm, hok.1, hok.2, List.mem_singleton.mp ht⟩
    · cases ht
  case h_2 => cases ht

/-- Different octets stand for different numbers. -/
theorem number_inj {o o' : Octets} (h : number o = number o') : o = o' := load_inj (h := .big) h

/-- One entry added is what the two searches found. -/
theorem oneEntryFirst_of_added {e : Ifaddrs} {a m : Octets} (he : e ∈ ifs)
    (haddr : e.ifaAddr = some (.inet a)) (hname : e.ifaName = name) (hmask : e.ifaNetmask = some m)
    (hadded : addedEntries name ifs = [⟨number a, number m, some name⟩]) : OneEntryFirst name ifs := by
  have hmem : ⟨number a, number m, some name⟩ ∈ addedEntries name ifs := by
    rw [hadded]
    exact List.mem_cons_self
  obtain ⟨a', m', ha, hm, hpa, hpm, heq⟩ := mem_addedEntries hmem
  rw [InterfaceTableEntry.mk.injEq] at heq
  obtain rfl := number_inj heq.1
  obtain rfl := number_inj heq.2.1
  exact ⟨a, m, ha, hm, hpa, hpm, e, he, haddr, hname, hmask⟩

theorem TableServes.oneEntryFirst (h : TableServes host sizes p ifs name)
    (husable : ∃ e ∈ ifs, UsableEntry name e) : OneEntryFirst name ifs := by
  obtain ⟨e, he, a, m, haddr, hname, hmask, htable⟩ := h.1 husable
  rw [configureUdpProperty_ifTable] at htable
  exact oneEntryFirst_of_added he haddr hname hmask (List.append_cancel_left htable)

/-- **When the table has the NIC's own address and mask.** With a usable entry in the list, exactly if
the two searches end at proper values that one entry has both of. -/
theorem tableServes_iff (host : Host) (sizes : UdpSizes) (p : UdpProperty) (ifs : List Ifaddrs)
    (name : String) :
    TableServes host sizes p ifs name ↔
      ((∃ e ∈ ifs, UsableEntry name e) → OneEntryFirst name ifs) := by
  refine ⟨fun h husable => h.oneEntryFirst husable, fun h => ⟨fun husable => ?_, fun hno => ?_⟩⟩
  · obtain ⟨a, m, ha, hm, hpa, hpm, e, he, haddr, hname, hmask⟩ := h husable
    refine ⟨e, he, a, m, haddr, hname, hmask, ?_⟩
    rw [configureUdpProperty_ifTable, addedEntries_eq ha hm ⟨hpa, hpm⟩]
  · have hnil : addedEntries name ifs = [] := by
      apply List.eq_nil_iff_forall_not_mem.mpr
      intro t ht
      obtain ⟨a, -, ha, -⟩ := mem_addedEntries ht
      obtain ⟨e, he, hea⟩ := List.exists_of_findSome?_eq_some ha
      obtain ⟨haddr, hname⟩ := ifaAddress_eq_some.mp hea
      exact hno e he a haddr hname
    rw [configureUdpProperty_ifTable, hnil, List.append_nil]

/-- A NIC whose first address has no netmask, and a host route: the address of the one goes with the mask
of the other, and `255.255.255.255` passes for a failure. -/
theorem not_tableServes_multihomed :
    ¬ TableServes .little defaultUdpSizes ⟨0, 0, 0, [], false, []⟩
      [⟨"eth0", some (.inet ⟨10, 0, 0, 1⟩), none⟩,
        ⟨"eth0", some (.inet ⟨192, 168, 1, 7⟩), some ⟨255, 255, 255, 0⟩⟩] "eth0" ∧
    ¬ TableServes .little defaultUdpSizes ⟨0, 0, 0, [], false, []⟩
      [⟨"eth0", some (.inet ⟨10, 0, 0, 5⟩), some ⟨255, 255, 255, 255⟩⟩] "eth0" := by
  constructor
  · intro h
    obtain ⟨a, m, ha, hm, -, -, e, he, haddr, hname, hmask⟩ := h.oneEntryFirst
      ⟨_, List.mem_cons_of_mem _ List.mem_cons_self, _, _, rfl, rfl, rfl, by decide, by decide⟩
    cases ha
    cases hm
    simp only [List.mem_cons, List.not_mem_nil, or_false] at he
    rcases he with rfl | rfl
    · cases hmask
    · cases haddr
  · intro h
    obtain ⟨a, m, -, hm, -, hpm, -⟩ := h.oneEntryFirst
      ⟨_, List.mem_cons_self, _, _, rfl, rfl, rfl, by decide, by decide⟩
    cases hm
    exact hpm.2 rfl

/-- Both searches end at the first IPv4 entry for the name, if it has a netmask. -/
theorem oneEntryFirst_of_masked {pre post : List Ifaddrs} {e : Ifaddrs} {a m : Octets}
    (hpre : ∀ f ∈ pre, ifaAddress name f = none) (haddr : e.ifaAddr = some (.inet a))
    (hname : e.ifaName = name) (hmask : e.ifaNetmask = some m) (hpa : Proper a) (hpm : Proper m) :
    OneEntryFirst name (pre ++ e :: post) := by
  have hea := ifaAddress_eq_some.mpr ⟨haddr, hname⟩
  refine ⟨a, m, ?_, ?_, hpa, hpm, e, by simp, haddr, hname, hmask⟩
  · exact List.findSome?_eq_some_iff.mpr ⟨pre, e, post, rfl, hea, hpre⟩
  · refine List.findSome?_eq_some_iff.mpr ⟨pre, e, post, rfl, ifaMask_eq_some.mpr ⟨⟨a, hea⟩, hmask⟩, ?_⟩
    intro f hf
    cases h : ifaMask name f with
    | none => rfl
    | some m' =>
      obtain ⟨⟨b, hb⟩, -⟩ := ifaMask_eq_some.mp h
      rw [hpre f hf] at hb
      cases hb

end Table

end PerftestLite
