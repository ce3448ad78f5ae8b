import AcsNext.Data.Runs
import AcsNext.Collector.ConnTracker

/-! Control messages: how the public addresses and the networks that they carry are decoded
and handed to the tracker. -/
namespace AcsNext.Collector
open AcsNext.Data

structure IPAddressList where
  ipv4Addresses : List (BitVec 32)
  ipv6Addresses : List (BitVec 64)
deriving DecidableEq, Repr

/-- Both fields are sequences of addresses in network byte order, each followed by the byte
of its prefix length. -/
structure IPNetworkList where
  ipv4Networks : List (BitVec 8)
  ipv6Networks : List (BitVec 8)
deriving DecidableEq, Repr

/-- A field is `none` in a message that does not carry it. -/
structure NetworkFlowsControlMessage where
  publicIpAddresses : Option IPAddressList
  ipNetworks : Option IPNetworkList
deriving DecidableEq, Repr

/-- What the accessor returns for a field that is not set. -/
def IPAddressList.default : IPAddressList := ⟨[], []⟩

/-- Four bytes of memory, the first one least significant. -/
def word32 (bytes : List (BitVec 8)) : BitVec 32 :=
  bytes.getD 3 0 ++ bytes.getD 2 0 ++ bytes.getD 1 0 ++ bytes.getD 0 0

def word64 (bytes : List (BitVec 8)) : BitVec 64 := word32 (bytes.drop 4) ++ word32 bytes

private theorem setWidth_shift (x : BitVec 32) : x.setWidth 64 >>> 32 = 0 := by
  apply BitVec.eq_of_toNat_eq
  have hlt := x.isLt
  have hzero : (0 : BitVec 64).toNat = 0 := rfl
  rw [hzero, BitVec.toNat_ushiftRight, BitVec.toNat_setWidth, Nat.shiftRight_eq_div_pow]
  omega

/-- `memcpy` of the address bytes into zeroed words. -/
def Address.ofMemory (family : Family) (bytes : List (BitVec 8)) : Address :=
  match family with
  | .ipv4 => ⟨⟨(word32 bytes).setWidth 64, 0⟩, .ipv4, setWidth_shift _, rfl⟩
  | .ipv6 => ⟨⟨word64 bytes, word64 (bytes.drop 8)⟩, .ipv6, trivial⟩
  | .unknown => .null

/-- The prefix length is read as a `char`, which the conversion to `size_t` sign-extends. -/
def readNetworks (networks : List (BitVec 8)) (family : Family) : List IPNet :=
  let tupleSize := family.length + 1
  (List.range (networks.length / tupleSize)).map fun i =>
    let tuple := networks.drop (tupleSize * i)
    .new (.ofMemory family tuple) ((tuple.getD (tupleSize - 1) 0).signExtend 64).toNat false

/-- The addresses at the even places are the high words. -/
def ipv6Pairs : List (BitVec 64) → List Address
  | high :: low :: rest => .ofIPv6 (htonll high) (htonll low) :: ipv6Pairs rest
  | _ => []

def decodePublicIPs (publicIps : IPAddressList) : Finset Address :=
  let ipv4 := publicIps.ipv4Addresses.flatMap fun publicIp =>
    [Address.ofIPv4 (htonl publicIp), (Address.ofIPv4 (htonl publicIp)).toV6]
  let ipv6 :=
    if publicIps.ipv6Addresses.length % 2 ≠ 0 then [] else ipv6Pairs publicIps.ipv6Addresses
  (ipv4 ++ ipv6).toFinset

/-- Decoded networks of one family; a field of the wrong length leaves the family out. -/
def assignNetworks (known : AssocMap Family (List IPNet)) (family : Family)
    (networks : List (BitVec 8)) : AssocMap Family (List IPNet) :=
  if networks.length % (family.length + 1) ≠ 0 then known
  else known.assign family (readNetworks networks family)

/-- The map is iterated from the family that was stored last, the IPv6 one. -/
def decodeIPNetworks (networks : IPNetworkList) : AssocMap Family (List IPNet) :=
  assignNetworks (assignNetworks ∅ .ipv6 networks.ipv6Networks) .ipv4 networks.ipv4Networks

namespace ConnectionTracker

variable (t : ConnectionTracker)

def receivePublicIPs (publicIps : IPAddressList) : ConnectionTracker :=
  t.updateKnownPublicIPs (decodePublicIPs publicIps)

def receiveIPNetworks (networks : IPNetworkList) : ConnectionTracker :=
  t.updateKnownIPNetworks (decodeIPNetworks networks)

/-- The end of the stream is a null message. Both checks are on the networks. -/
def onRecvControlMessage (msg : Option NetworkFlowsControlMessage) : ConnectionTracker :=
  match msg with
  | none => t
  | some msg =>
    let t :=
      if msg.ipNetworks.isSome then
        t.receivePublicIPs (msg.publicIpAddresses.getD .default)
      else t
    match msg.ipNetworks with
    | some networks => t.receiveIPNetworks networks
    | none => t

/-- The tree of the known networks, and for each family whether it holds private ones. -/
def knownNetworks : NRadixTree × AssocMap Family Bool :=
  (t.knownIpNetworks, t.knownPrivateNetworksExists)

end ConnectionTracker

def carriedPublicIPs (msg : Option NetworkFlowsControlMessage) : Option IPAddressList :=
  msg.bind NetworkFlowsControlMessage.publicIpAddresses

def carriedIPNetworks (msg : Option NetworkFlowsControlMessage) : Option IPNetworkList :=
  msg.bind NetworkFlowsControlMessage.ipNetworks

def lastCarried {α : Type*} (field : Option NetworkFlowsControlMessage → Option α)
    (msgs : List (Option NetworkFlowsControlMessage)) : Option α :=
  (msgs.filterMap field).getLast?

/-- The networks of one family; there are none if the field has the wrong length. -/
def decodedFamily (family : Family) (networks : List (BitVec 8)) : List IPNet :=
  if networks.length % (family.length + 1) ≠ 0 then [] else readNetworks networks family

def decodedNetworks (networks : IPNetworkList) : List IPNet :=
  decodedFamily .ipv4 networks.ipv4Networks ++ decodedFamily .ipv6 networks.ipv6Networks

/-- Each setting is the one last carried, or the initial one if no message carried it. -/
structure SettingsFollow (t : ConnectionTracker) (msgs : List (Option NetworkFlowsControlMessage))
    (t' : ConnectionTracker) : Prop where
  publicIps : t'.knownPublicIps =
    ((lastCarried carriedPublicIPs msgs).map decodePublicIPs).getD t.knownPublicIps
  unchanged : lastCarried carriedIPNetworks msgs = none → t'.knownNetworks = t.knownNetworks
  networks : ∀ networks, lastCarried carriedIPNetworks msgs = some networks →
    t'.knownIpNetworks.HasExactly (decodedNetworks networks)

/-- The message carries both settings or none, or the one that it lacks (or carries alone)
leaves the known public addresses as they are; and the tree has room for all of its networks. -/
def CarriesTogether (t : ConnectionTracker) (msg : Option NetworkFlowsControlMessage) : Prop :=
  (match carriedPublicIPs msg, carriedIPNetworks msg with
    | none, some _ => t.knownPublicIps = ∅
    | some publicIps, none => decodePublicIPs publicIps = t.knownPublicIps
    | _, _ => True) ∧
  ∀ networks ∈ carriedIPNetworks msg, NRadixTree.Storable (decodedNetworks networks)

theorem lastCarried_append {α : Type*} (field : Option NetworkFlowsControlMessage → Option α)
    (msgs : List (Option NetworkFlowsControlMessage)) (msg : Option NetworkFlowsControlMessage) :
    lastCarried field (msgs ++ [msg]) = (field msg).or (lastCarried field msgs) := by
  unfold lastCarried
  cases h : field msg <;> simp [List.filterMap_append, h]

@[simp] theorem decodePublicIPs_default : decodePublicIPs .default = ∅ := rfl

namespace ConnectionTracker

variable (t : ConnectionTracker)

theorem knownPublicIps_onRecv (msg : Option NetworkFlowsControlMessage) :
    (t.onRecvControlMessage msg).knownPublicIps =
      match carriedIPNetworks msg with
      | none => t.knownPublicIps
      | some _ => ((carriedPublicIPs msg).map decodePublicIPs).getD ∅ := by
  cases msg with
  | none => rfl
  | some msg =>
    obtain ⟨ips, nets⟩ := msg
    cases nets <;> cases ips <;> rfl

theorem knownNetworks_onRecv (msg : Option NetworkFlowsControlMessage) :
    (t.onRecvControlMessage msg).knownNetworks =
      match carriedIPNetworks msg with
      | none => t.knownNetworks
      | some networks => (t.updateKnownIPNetworks (decodeIPNetworks networks)).knownNetworks := by
  cases msg with
  | none => rfl
  | some msg =>
    obtain ⟨ips, nets⟩ := msg
    cases nets <;> rfl

theorem flatMap_assignNetworks {known : AssocMap Family (List IPNet)} {family : Family}
    (h : known.contains family = false) (networks : List (BitVec 8)) :
    (assignNetworks known family networks).entries.flatMap Prod.snd =
      known.entries.flatMap Prod.snd ++ decodedFamily family networks := by
  unfold assignNetworks decodedFamily
  split_ifs
  · rw [List.append_nil]
  · rw [AssocMap.assign, if_neg (by simp [h]), AssocMap.entries_insert, if_neg (by simp [h]),
      List.flatMap_append, List.flatMap_singleton]

/-- The tree is built from the decoded networks and from no others. -/
theorem mem_decodeIPNetworks (networks : IPNetworkList) (n : IPNet) :
    n ∈ (decodeIPNetworks networks).entries.flatMap Prod.snd ↔ n ∈ decodedNetworks networks := by
  have hipv4 : (assignNetworks ∅ .ipv6 networks.ipv6Networks).contains .ipv4 = false := by
    unfold assignNetworks
    split_ifs <;> rfl
  have hempty : (∅ : AssocMap Family (List IPNet)).entries = [] := rfl
  rw [decodeIPNetworks, flatMap_assignNetworks hipv4, flatMap_assignNetworks rfl, hempty,
    List.flatMap_nil, List.nil_append, decodedNetworks, List.mem_append, List.mem_append, or_comm]

/-- A message with networks replaces the tree, whatever it was. -/
theorem hasExactly_onRecv_iff {msg : Option NetworkFlowsControlMessage}
    {networks : IPNetworkList} (h : carriedIPNetworks msg = some networks) :
    (t.onRecvControlMessage msg).knownIpNetworks.HasExactly (decodedNetworks networks) ↔
      NRadixTree.Storable (decodedNetworks networks) := by
  have htree := congrArg Prod.fst (t.knownNetworks_onRecv msg)
  rw [h] at htree
  change (t.onRecvControlMessage msg).knownIpNetworks = NRadixTree.ofList _ at htree
  rw [htree]
  exact NRadixTree.hasExactly_ofList_iff (mem_decodeIPNetworks networks)

theorem settingsFollow_step (msgs : List (Option NetworkFlowsControlMessage))
    (msg : Option NetworkFlowsControlMessage) {t' : ConnectionTracker}
    (h : SettingsFollow t msgs t') :
    SettingsFollow t (msgs ++ [msg]) (t'.onRecvControlMessage msg) ↔ CarriesTogether t' msg := by
  have hcarried : ((lastCarried carriedPublicIPs (msgs ++ [msg])).map decodePublicIPs).getD
      t.knownPublicIps = ((carriedPublicIPs msg).map decodePublicIPs).getD t'.knownPublicIps := by
    rw [lastCarried_append, h.publicIps]
    cases carriedPublicIPs msg <;> rfl
  have hips : (t'.onRecvControlMessage msg).knownPublicIps =
        ((lastCarried carriedPublicIPs (msgs ++ [msg])).map decodePublicIPs).getD
          t.knownPublicIps ↔
      match carriedPublicIPs msg, carriedIPNetworks msg with
      | none, some _ => t'.knownPublicIps = ∅
      | some publicIps, none => decodePublicIPs publicIps = t'.knownPublicIps
      | _, _ => True := by
    rw [hcarried, knownPublicIps_onRecv]
    cases carriedPublicIPs msg <;> cases carriedIPNetworks msg <;> simp [eq_comm]
  have hnets := t'.knownNetworks_onRecv msg
  constructor
  · intro hafter
    refine ⟨hips.mp hafter.publicIps, fun networks hnetworks => ?_⟩
    apply (t'.hasExactly_onRecv_iff hnetworks).mp
    apply hafter.networks networks
    rw [lastCarried_append, Option.mem_def.mp hnetworks, Option.some_or]
  · intro htogether
    refine ⟨hips.mpr htogether.1, ?_, ?_⟩
    · intro hnone
      rw [lastCarried_append, Option.or_eq_none_iff] at hnone
      rw [hnets, hnone.1]
      exact h.unchanged hnone.2
    · intro networks hnetworks
      rw [lastCarried_append] at hnetworks
      cases hmsg : carriedIPNetworks msg with
      | none =>
        rw [hmsg] at hnetworks hnets
        -- the tree is still the one that an earlier message left
        have htree : (t'.onRecvControlMessage msg).knownIpNetworks = t'.knownIpNetworks :=
          congrArg Prod.fst hnets
        rw [htree]
        exact h.networks networks hnetworks
      | some carried =>
        rw [hmsg, Option.some_or, Option.some.injEq] at hnetworks
        subst hnetworks
        exact (t'.hasExactly_onRecv_iff hmsg).mpr (htogether.2 carried hmsg)

/-- Over every history the settings follow the messages in every state reached exactly when
each message carries both settings or does not change the public addresses by its lack, and
the tree has room for its networks. -/
theorem control_messages_follow_iff (msgs : List (Option NetworkFlowsControlMessage)) :
    Always onRecvControlMessage (SettingsFollow t) t msgs ↔
      EveryStep onRecvControlMessage CarriesTogether t msgs := by
  apply always_iff_everyStep
  · refine ⟨rfl, fun _ => rfl, ?_⟩
    intro networks h
    cases h
  · intro l msg hl
    exact t.settingsFollow_step l msg hl

end ConnectionTracker

-- 10.0.0.0/8 and a00::/8 have the same first eight bits
example : ¬ NRadixTree.Storable
    (decodedNetworks ⟨[10, 0, 0, 0, 8], 10 :: .replicate 15 0 ++ [8]⟩) := by
  decide +kernel

def publicIPsMessage : NetworkFlowsControlMessage := ⟨some ⟨[0x08080808], []⟩, none⟩

/-- A message with public addresses and no networks is ignored. -/
theorem public_ips_message_ignored :
    lastCarried carriedPublicIPs [some publicIPsMessage] = some ⟨[0x08080808], []⟩ ∧
      (ConnectionTracker.empty.onRecvControlMessage (some publicIPsMessage)).knownPublicIps = ∅ ∧
      ¬ Always ConnectionTracker.onRecvControlMessage (SettingsFollow .empty) .empty
        [some publicIPsMessage] := by
  refine ⟨rfl, rfl, ?_⟩
  intro h
  have hlast := h.last.publicIps
  change (∅ : Finset Address) = decodePublicIPs ⟨[0x08080808], []⟩ at hlast
  have hmem : Address.ofIPv4 (htonl 0x08080808) ∈ decodePublicIPs ⟨[0x08080808], []⟩ := by
    simp [decodePublicIPs]
  rw [← hlast] at hmem
  exact Finset.notMem_empty _ hmem

end AcsNext.Collector
