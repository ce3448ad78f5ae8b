import AcsNext.Collector.ConnTracker

/-! What normalisation makes of an address and of a connection. -/
namespace AcsNext.Collector
open AcsNext.Data

theorem Address.family_ne_unknown {a : Address} (h : a.isNull = false) : a.family ≠ .unknown := by
  obtain ⟨⟨w0, w1⟩, family, hp⟩ := a
  intro he
  subst he
  simp only [Family.Pads, Words.mk.injEq] at hp
  simp [isNull, hp] at h

theorem isCanonicalExternalIp_canonicalExternalAddr {f : Family} (hf : f ≠ .unknown) :
    (canonicalExternalAddr f).isCanonicalExternalIp = true := by
  cases f with
  | unknown => exact absurd rfl hf
  | ipv4 => decide
  | ipv6 => decide

namespace NRadixTree

theorem mem_getAll_of_find (tree : NRadixTree) (q : IPNet) (h : (tree.find q).isNull = false) :
    tree.find q ∈ tree.getAll ∧ (tree.find q).family = q.family := by
  rcases tree.find_cases q with hnull | ⟨hmem, hf, _⟩
  · rw [hnull] at h
    exact absurd h (by decide)
  · exact ⟨hmem, hf⟩

/-- A tree that holds the full-length network of an address finds something for it. -/
theorem isNull_findAddress_of_mem (tree : NRadixTree) (a : Address) (isAddr : Bool)
    (h : IPNet.new a (8 * a.length) isAddr ∈ tree.getAll) :
    (tree.findAddress a).isNull = false := by
  have hbits : (IPNet.new a (8 * a.length) isAddr).bits = 8 * a.length :=
    IPNet.bits_new _ _ _ le_rfl
  have hfind : tree.find (.ofAddress a) = .new a (8 * a.length) isAddr := by
    refine tree.find_of_mem_path _ _ h ?_ rfl
    rw [IPNet.path_eq, IPNet.path_eq, hbits, IPNet.bits_ofAddress]
    rfl
  have hpos := tree.bits_pos_of_mem h
  rw [findAddress, hfind]
  simp [IPNet.isNull, hpos.ne']

end NRadixTree

namespace ConnectionTracker

variable (t : ConnectionTracker)

/-- An address of the rest of the internet: public, neither kept nor known, and in no known
network. Only such an address is treated differently with external IPs enabled. -/
def Aggregated (address : Address) : Prop :=
  address.isNull = false ∧ address.isPublic = true ∧
    (t.nonAggregatedNetworks.findAddress address).isNull = true ∧
    address ∉ t.knownPublicIps ∧ (t.knownIpNetworks.findAddress address).isNull = true

theorem normalizeAddress_of_aggregated {a : Address} (h : t.Aggregated a) (enable : Bool) :
    t.normalizeAddressNoLock a enable =
      if enable then .new a (8 * a.length) false
      else .new (canonicalExternalAddr a.family) 0 true := by
  obtain ⟨hnull, hpub, hkeep, hknown, hnet⟩ := h
  have hf := Address.family_ne_unknown hnull
  simp only [normalizeAddressNoLock, hnull, hpub, hkeep, hknown, hnet]
  cases enable with
  | true => rfl
  | false => cases hfam : a.family <;> simp_all [canonicalExternalAddr]

/-- An address that is not aggregated is dropped, kept, or replaced by a known network, with
or without external IPs. -/
theorem normalizeAddress_cases {a : Address} (h : ¬ t.Aggregated a) (enable : Bool) :
    t.normalizeAddressNoLock a enable = t.normalizeAddressNoLock a false ∧
      (t.normalizeAddressNoLock a enable = .null ∨
        (∃ bits, t.normalizeAddressNoLock a enable = .new a bits true) ∨
        (t.normalizeAddressNoLock a enable ∈ t.knownIpNetworks.getAll ∧
          (t.normalizeAddressNoLock a enable).family = a.family)) := by
  by_cases hnull : a.isNull = true
  · simp [normalizeAddressNoLock, hnull]
  set keep := !a.isPublic || !(t.nonAggregatedNetworks.findAddress a).isNull with hkeep
  by_cases hfresh : (keep && t.knownPrivateNetworksExists.find? a.family == some false) = true
  · simp only [normalizeAddressNoLock, hnull, ← hkeep, hfresh, if_true, true_and]
    exact Or.inr (Or.inl ⟨0, rfl⟩)
  by_cases hkept : (keep || decide (a ∈ t.knownPublicIps)) = true
  · simp only [normalizeAddressNoLock, hnull, ← hkeep, hfresh, hkept, if_true, true_and]
    exact Or.inr (Or.inl ⟨_, rfl⟩)
  by_cases hnet : (t.knownIpNetworks.findAddress a).isNull = true
  · simp only [Bool.or_eq_true, hkeep, Bool.not_eq_true', decide_eq_true_eq, not_or,
      Bool.not_eq_false] at hkept hnull
    exact absurd ⟨by simpa using hnull, hkept.1.1, hkept.1.2, hkept.2, hnet⟩ h
  · simp only [normalizeAddressNoLock, hnull, ← hkeep, hfresh, hkept]
    simp only [Bool.not_eq_true] at hnet
    simp only [hnet]
    exact ⟨rfl, Or.inr (Or.inr (t.knownIpNetworks.mem_getAll_of_find _ hnet))⟩

/-- The network 8.8.8.0/24 is known, and so is the single address 8.8.8.8 in it. -/
def nestedTracker : ConnectionTracker :=
  let networks : AssocMap Family (List IPNet) :=
    (∅ : AssocMap Family (List IPNet)).insert .ipv4 [.new (.ofBytes 8 8 8 0) 24 false]
  (empty.updateKnownIPNetworks networks).updateKnownPublicIPs {.ofBytes 8 8 8 8}

/-- The IPv6 network 808:808::/32 is known. -/
def mixedTracker : ConnectionTracker :=
  empty.updateKnownIPNetworks ((∅ : AssocMap Family (List IPNet)).insert .ipv6
    [.new (.ofIPv6 (htonll 0x0808080800000000#64) 0) 32 false])

/-- The address 808:808::1. -/
def mixedAddress : Address := .ofIPv6 (htonll 0x0808080800000000#64) (htonll 1#64)

/-- A network equals an address in it but not conversely, and an IPv4 flow to 8.8.8.8 equals
an IPv6 flow into 808:808::/32. -/
theorem normalized_keys_unlawful :
    ((nestedTracker.normalizeAddressNoLock (.ofBytes 8 8 8 9) false ==
        nestedTracker.normalizeAddressNoLock (.ofBytes 8 8 8 8) false) = true ∧
      (nestedTracker.normalizeAddressNoLock (.ofBytes 8 8 8 8) false ==
        nestedTracker.normalizeAddressNoLock (.ofBytes 8 8 8 9) false) = false) ∧
    (mixedTracker.normalizeAddressNoLock (.ofBytes 8 8 8 8) true ==
        mixedTracker.normalizeAddressNoLock mixedAddress true) = true ∧
      (mixedTracker.normalizeAddressNoLock (.ofBytes 8 8 8 8) true).bits = 32 ∧
      (mixedTracker.normalizeAddressNoLock (.ofBytes 8 8 8 8) true).family = .ipv4 ∧
      (mixedTracker.normalizeAddressNoLock mixedAddress true).family = .ipv6 := by
  decide +kernel

end ConnectionTracker

def ExternalIPsConfig.enabledFor (config : ExternalIPsConfig) (isServer : Bool) : Bool :=
  if isServer then config.isEnabled .ingress else config.isEnabled .egress

namespace ConnectionTracker

variable (t : ConnectionTracker)

theorem isServer_normalize (c : Connection) :
    (t.normalizeConnectionNoLock c).isServer = normalizedRole c := by
  unfold normalizeConnectionNoLock
  by_cases h : normalizedRole c = true <;> simp [h]

theorem network_normalize (c : Connection) :
    (t.normalizeConnectionNoLock c).remote.network =
      t.normalizeAddressNoLock c.remote.address
        (t.externalIpsConfig.enabledFor (normalizedRole c)) := by
  unfold normalizeConnectionNoLock ExternalIPsConfig.enabledFor
  by_cases h : normalizedRole c = true <;> simp [h, Connection.new]

def withRemote (c : Connection) (a : Address) : Connection :=
  { c with remote := .ofAddress a c.remote.port }

/-- Replacing the remote address changes the remote network of the normal form alone. -/
theorem normalize_withRemote (t' : ConnectionTracker) (c : Connection) (a : Address)
    (h : t'.normalizeAddressNoLock a (t'.externalIpsConfig.enabledFor (normalizedRole c)) =
      (t.normalizeConnectionNoLock c).remote.network) :
    t'.normalizeConnectionNoLock (withRemote c a) = t.normalizeConnectionNoLock c := by
  have hrole : normalizedRole (withRemote c a) = normalizedRole c := rfl
  rw [network_normalize] at h
  unfold normalizeConnectionNoLock
  rw [hrole]
  by_cases hs : normalizedRole c = true
  · simp only [hs, ExternalIPsConfig.enabledFor, if_true] at h ⊢
    rw [← h]
    rfl
  · simp only [hs, ExternalIPsConfig.enabledFor] at h ⊢
    simp only [Bool.false_eq_true, if_false] at h ⊢
    rw [← h]
    rfl

/-- A key is a normal form under the new configuration exactly when its remote network is
one for some address. -/
theorem exists_normalize_eq_iff (t' : ConnectionTracker) (c : Connection) :
    (∃ c', t'.normalizeConnectionNoLock c' = t.normalizeConnectionNoLock c) ↔
      ∃ a, t'.normalizeAddressNoLock a (t'.externalIpsConfig.enabledFor
        (t.normalizeConnectionNoLock c).isServer) =
          (t.normalizeConnectionNoLock c).remote.network := by
  rw [isServer_normalize]
  constructor
  · intro he
    obtain ⟨c', h⟩ := he
    have hrole : normalizedRole c' = normalizedRole c := by
      rw [← t'.isServer_normalize, h, t.isServer_normalize]
    refine ⟨c'.remote.address, ?_⟩
    rw [← hrole, ← t'.network_normalize, h]
  · intro he
    obtain ⟨a, h⟩ := he
    exact ⟨withRemote c a, t.normalize_withRemote t' c a h⟩

end ConnectionTracker

end AcsNext.Collector
