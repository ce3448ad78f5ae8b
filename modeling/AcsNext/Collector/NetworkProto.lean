import AcsNext.Collector.Normalization

/-! The messages that name a connection on the wire, and when they agree with the keys under
which the tracker stores it. -/
namespace AcsNext.Collector
open AcsNext.Data

def Words.byte (w : Words) (i : ℕ) : BitVec 8 := (w.get (i / 8)).extractLsb' (8 * (i % 8)) 8

def Address.bytes (a : Address) : List (BitVec 8) := (List.range a.length).map a.data.byte

inductive L4Protocol where
  | unknown
  | tcp
  | udp
  | icmp
deriving DecidableEq, Repr

inductive SocketFamily where
  | unknown
  | ipv4
  | ipv6
deriving DecidableEq, Repr

inductive Role where
  | server
  | client
deriving DecidableEq, Repr

structure NetworkAddress where
  addressData : List (BitVec 8)
  ipNetwork : List (BitVec 8)
  port : BitVec 32
deriving DecidableEq, Repr

def NetworkAddress.absent : NetworkAddress := ⟨[], [], 0⟩

/-- `sensor::NetworkConnection`, without the close timestamp. -/
structure NetworkConnection where
  containerId : String
  role : Role
  protocol : L4Protocol
  socketFamily : SocketFamily
  localAddress : Option NetworkAddress
  remoteAddress : Option NetworkAddress
deriving DecidableEq, Repr

def translateL4Protocol : L4Proto → L4Protocol
  | .tcp => .tcp
  | .udp => .udp
  | .icmp => .icmp
  | .unknown => .unknown

def translateAddressFamily : Family → SocketFamily
  | .ipv4 => .ipv4
  | .ipv6 => .ipv6
  | .unknown => .unknown

def Endpoint.isNull (e : Endpoint) : Bool := e.port == 0 && e.network.isNull

def endpointToProto (endpoint : Endpoint) : Option NetworkAddress :=
  if endpoint.isNull then none
  else some
    { addressData := if endpoint.network.isAddr then endpoint.address.bytes else []
      ipNetwork :=
        if 0 < endpoint.network.bits then
          endpoint.address.bytes ++ [BitVec.ofNat 8 endpoint.network.bits]
        else []
      port := endpoint.port.setWidth 32 }

def connToProto (conn : Connection) : NetworkConnection where
  containerId := conn.container
  role := if conn.isServer then .server else .client
  protocol := translateL4Protocol conn.l4proto
  socketFamily := translateAddressFamily conn.localEp.address.family
  localAddress := endpointToProto conn.localEp
  remoteAddress := endpointToProto conn.remote

def NetworkConnection.identity (c : NetworkConnection) :
    String × Role × L4Protocol × SocketFamily × NetworkAddress × NetworkAddress :=
  (c.containerId, c.role, c.protocol, c.socketFamily, c.localAddress.getD .absent,
    c.remoteAddress.getD .absent)

private theorem getLsbD_byte (w : Words) (i : ℕ) (j : ℕ) (hj : j < 8) :
    (w.byte i).getLsbD j = (w.get (i / 8)).getLsbD (8 * (i % 8) + j) := by
  simp [Words.byte, hj]

/-- Words that agree on their first `n` bytes agree on the bits of these bytes. -/
private theorem getLsbD_eq_of_bytes {v w : Words} {n : ℕ} (h : ∀ i < n, v.byte i = w.byte i)
    (k j : ℕ) (hj : j < 64) (hn : 8 * k + j / 8 < n) :
    (v.get k).getLsbD j = (w.get k).getLsbD j := by
  have hb := congrArg (fun b => b.getLsbD (j % 8)) (h (8 * k + j / 8) hn)
  have hdiv : (8 * k + j / 8) / 8 = k := by omega
  have hpos : 8 * ((8 * k + j / 8) % 8) + j % 8 = j := by omega
  simpa only [getLsbD_byte _ _ _ (Nat.mod_lt j (by omega : 0 < 8)), hdiv, hpos] using hb

private theorem word_eq_of_bytes {v w : Words} {n : ℕ} (h : ∀ i < n, v.byte i = w.byte i)
    (k : ℕ) (hn : 8 * k + 8 ≤ n) : v.get k = w.get k := by
  apply BitVec.eq_of_getLsbD_eq
  intro j hj
  exact getLsbD_eq_of_bytes h k j hj (by omega)

private theorem low_word_eq_of_bytes {v w : Words} (h : ∀ i < 4, v.byte i = w.byte i)
    (hv : v.w0 >>> 32 = 0) (hw : w.w0 >>> 32 = 0) : v.w0 = w.w0 := by
  apply BitVec.eq_of_getLsbD_eq
  intro j hj
  by_cases hlow : j < 32
  · exact getLsbD_eq_of_bytes h 0 j hj (by omega)
  · have hhigh (x : BitVec 64) (hx : x >>> 32 = 0) : x.getLsbD j = false := by
      have hbit := congrArg (fun y => y.getLsbD (j - 32)) hx
      have hsum : 32 + (j - 32) = j := by omega
      simpa [BitVec.getLsbD_ushiftRight, hsum] using hbit
    rw [hhigh v.w0 hv, hhigh w.w0 hw]

theorem Address.bytes_inj {a b : Address} (hf : a.family = b.family) (h : a.bytes = b.bytes) :
    a = b := by
  have hlen : b.length = a.length := by rw [length, length, hf]
  have hbyte : ∀ i < a.length, a.data.byte i = b.data.byte i := by
    rw [bytes, bytes, hlen] at h
    exact fun i hi => List.map_inj_left.mp h i (List.mem_range.mpr hi)
  have ha := a.padded
  have hb := b.padded
  rw [← hf] at hb
  rw [eq_iff]
  refine ⟨hf, ?_⟩
  unfold length at hbyte
  generalize a.data = v at ha hbyte ⊢
  generalize b.data = w at hb hbyte ⊢
  cases hfam : a.family with
  | unknown =>
    rw [hfam] at ha hb
    exact Eq.trans ha (Eq.symm hb)
  | ipv4 =>
    rw [hfam] at ha hb hbyte
    have hlow := low_word_eq_of_bytes hbyte ha.1 hb.1
    obtain ⟨v0, v1⟩ := v
    obtain ⟨w0, w1⟩ := w
    exact congrArg₂ Words.mk hlow (Eq.trans ha.2 (Eq.symm hb.2))
  | ipv6 =>
    rw [hfam] at hbyte
    have hw0 := word_eq_of_bytes hbyte 0 (by simp [Family.length])
    have hw1 := word_eq_of_bytes hbyte 1 (by simp [Family.length])
    obtain ⟨v0, v1⟩ := v
    obtain ⟨w0, w1⟩ := w
    exact congrArg₂ Words.mk hw0 hw1

theorem Address.bytes_ne_nil {a : Address} (h : a.family ≠ .unknown) : a.bytes ≠ [] := by
  cases hf : a.family <;> simp_all [bytes, length, Family.length]

/-- The remote networks that normalisation can produce. -/
def IPNet.Reported (n : IPNet) : Prop :=
  n = .null ∨ (n.family ≠ .unknown ∧
    (0 < n.bits ∨ (n.isAddr = true ∧ n.address.isNull = false)))

theorem ConnectionTracker.reported_normalizeAddress (t : ConnectionTracker) (a : Address)
    (enable : Bool) : (t.normalizeAddressNoLock a enable).Reported := by
  by_cases hagg : t.Aggregated a
  · have hf := Address.family_ne_unknown hagg.1
    rw [t.normalizeAddress_of_aggregated hagg]
    right
    cases enable with
    | true =>
      have hpos : 0 < 8 * a.length := by
        cases hfam : a.family <;> simp_all [Address.length, Family.length]
      exact ⟨hf, Or.inl (by rw [if_pos rfl, IPNet.bits_new _ _ _ le_rfl]; exact hpos)⟩
    | false =>
      simp only [Bool.false_eq_true, if_false]
      cases hfam : a.family with
      | unknown => exact absurd hfam hf
      | ipv4 => exact ⟨by decide, Or.inr (by decide)⟩
      | ipv6 => exact ⟨by decide, Or.inr (by decide)⟩
  · by_cases hnull : a.isNull = true
    · exact Or.inl (if_pos hnull)
    · have hnull : a.isNull = false := by simpa using hnull
      have hf := Address.family_ne_unknown hnull
      rcases (t.normalizeAddress_cases hagg enable).2 with hn | ⟨bits, hn⟩ | ⟨hn, hfam⟩
      · exact Or.inl hn
      · rw [hn]
        exact Or.inr ⟨hf, Or.inr ⟨rfl, hnull⟩⟩
      · exact Or.inr ⟨hfam ▸ hf, Or.inl (t.knownIpNetworks.bits_pos_of_mem hn)⟩

private def fieldsOf (n : IPNet) (port : BitVec 16) : NetworkAddress where
  addressData := if n.isAddr then n.address.bytes else []
  ipNetwork := if 0 < n.bits then n.address.bytes ++ [BitVec.ofNat 8 n.bits] else []
  port := port.setWidth 32

private theorem endpointToProto_getD {n : IPNet} (port : BitVec 16)
    (h : n.isNull = true → n.isAddr = true → n.address.bytes = []) :
    (endpointToProto ⟨n, port⟩).getD .absent = fieldsOf n port := by
  unfold endpointToProto
  by_cases hnull : Endpoint.isNull ⟨n, port⟩ = true
  · rw [if_pos hnull]
    simp only [Endpoint.isNull, Bool.and_eq_true, beq_iff_eq] at hnull
    obtain ⟨rfl, hn⟩ := hnull
    have hbits : n.bits = 0 := by
      simp only [IPNet.isNull, Bool.and_eq_true, beq_iff_eq] at hn
      exact hn.1
    simp only [Option.getD_none, NetworkAddress.absent, fieldsOf, hbits, lt_irrefl, if_false]
    by_cases haddr : n.isAddr = true <;> simp [haddr, h hn]
  · rw [if_neg hnull]
    rfl

private theorem IPNet.Reported.getD {n : IPNet} (h : n.Reported) (port : BitVec 16) :
    (endpointToProto ⟨n, port⟩).getD .absent = fieldsOf n port := by
  refine endpointToProto_getD port fun hnull haddr => ?_
  rcases h with rfl | ⟨_, hpos | ⟨_, hn⟩⟩
  · exact absurd haddr (by decide)
  · simp [isNull, hpos.ne'] at hnull
  · simp [isNull, hn] at hnull

private theorem setWidth_inj {p q : BitVec 16} (h : p.setWidth 32 = q.setWidth 32) : p = q := by
  apply BitVec.eq_of_toNat_eq
  have hn := congrArg BitVec.toNat h
  simp only [BitVec.toNat_setWidth] at hn
  have hp := p.isLt
  have hq := q.isLt
  omega

private theorem isAddr_eq_of_fields {n m : IPNet} {p q : BitVec 16} (hn : n.family ≠ .unknown)
    (hm : m.family ≠ .unknown) (h : fieldsOf n p = fieldsOf m q) : n.isAddr = m.isAddr := by
  have hdata := congrArg NetworkAddress.addressData h
  have hn0 : n.address.bytes ≠ [] := Address.bytes_ne_nil hn
  have hm0 : m.address.bytes ≠ [] := Address.bytes_ne_nil hm
  unfold fieldsOf at hdata
  cases ha : n.isAddr <;> cases hb : m.isAddr <;> simp_all

private theorem bits_eq_of_fields {n m : IPNet} {p q : BitVec 16}
    (h : fieldsOf n p = fieldsOf m q) : n.bits = m.bits := by
  have hnet := congrArg NetworkAddress.ipNetwork h
  unfold fieldsOf at hnet
  dsimp only at hnet
  by_cases h1 : 0 < n.bits <;> by_cases h2 : 0 < m.bits
  · -- the last byte holds the prefix length, which fits
    rw [if_pos h1, if_pos h2] at hnet
    have hlast := List.singleton_inj.mp (List.append_inj_right' hnet rfl)
    have hnat := congrArg BitVec.toNat hlast
    simp only [BitVec.toNat_ofNat] at hnat
    have hn := n.bits_le_128
    have hm := m.bits_le_128
    omega
  · simp [h1, h2] at hnet
  · simp [h1, h2] at hnet
  · omega

private theorem fieldsOf_inj {n m : IPNet} (hn : n.Reported) (hm : m.Reported)
    (hf : n.family = m.family) {p q : BitVec 16} :
    fieldsOf n p = fieldsOf m q ↔ n = m ∧ p = q := by
  constructor
  · intro h
    refine ⟨?_, setWidth_inj (congrArg NetworkAddress.port h)⟩
    rcases hn with rfl | ⟨hnf, hnpos⟩
    · rcases hm with rfl | ⟨hmf, _⟩
      · rfl
      · exact absurd hf.symm hmf
    · have hmf : m.family ≠ .unknown := hf ▸ hnf
      have hflag := isAddr_eq_of_fields hnf hmf h
      have hbits := bits_eq_of_fields h
      have haddr : n.address = m.address := by
        refine Address.bytes_inj hf ?_
        rcases hnpos with hpos | ⟨hna, _⟩
        · have hnet := congrArg NetworkAddress.ipNetwork h
          simp only [fieldsOf, if_pos hpos, if_pos (hbits ▸ hpos : 0 < m.bits)] at hnet
          exact List.append_inj_left' hnet rfl
        · have hdata := congrArg NetworkAddress.addressData h
          simpa only [fieldsOf, if_pos hna, if_pos (hflag ▸ hna : m.isAddr = true)] using hdata
      exact (IPNet.eq_iff n m).mpr ⟨haddr, hbits, hflag⟩
  · intro h
    obtain ⟨rfl, rfl⟩ := h
    rfl

inductive ConfigChange where
  | knownIPNetworks (networks : AssocMap Family (List IPNet))
  | knownPublicIPs (ips : Finset Address)
  | externalIPs (config : ExternalIPsConfig)

namespace ConnectionTracker

def applyChange (t : ConnectionTracker) : ConfigChange → ConnectionTracker
  | .knownIPNetworks networks => t.updateKnownIPNetworks networks
  | .knownPublicIPs ips => t.updateKnownPublicIPs ips
  | .externalIPs config => t.setExternalIPsConfig config

def runChanges (t : ConnectionTracker) (changes : List ConfigChange) : ConnectionTracker :=
  changes.foldl applyChange t

theorem localEp_normalize (t : ConnectionTracker) (c : Connection) :
    (t.normalizeConnectionNoLock c).localEp =
      if normalizedRole c then .ofAddress .null c.localEp.port else .null := by
  unfold normalizeConnectionNoLock
  by_cases h : normalizedRole c = true <;> simp [h, Connection.new]

end ConnectionTracker

/-- A key in normal form: the local side keeps at most its port, by the role. -/
private structure NormalKey (k : Connection) : Prop where
  reported : k.remote.network.Reported
  local_network : k.localEp.network = if k.isServer then .ofAddress .null else .null

private theorem normalKey_normalize (t : ConnectionTracker) (c : Connection) :
    NormalKey (t.normalizeConnectionNoLock c) where
  reported := by
    rw [t.network_normalize]
    exact t.reported_normalizeAddress _ _
  local_network := by
    rw [t.localEp_normalize, t.isServer_normalize]
    cases ConnectionTracker.normalizedRole c <;> rfl

private theorem NormalKey.localEp_eq_iff {k₁ k₂ : Connection} (h₁ : NormalKey k₁)
    (h₂ : NormalKey k₂) (hs : k₁.isServer = k₂.isServer) :
    k₁.localEp = k₂.localEp ↔ k₁.localEp.port = k₂.localEp.port := by
  have hnet : k₁.localEp.network = k₂.localEp.network := by
    rw [h₁.local_network, h₂.local_network, hs]
  constructor
  · exact fun h => congrArg Endpoint.port h
  · exact fun hp => (Endpoint.eq_iff _ _).mpr ⟨hnet, hp⟩

private theorem NormalKey.identity_eq {k : Connection} (h : NormalKey k) :
    (connToProto k).identity =
      (k.container, if k.isServer then .server else .client, translateL4Protocol k.l4proto,
        translateAddressFamily k.localEp.address.family,
        fieldsOf k.localEp.network k.localEp.port, fieldsOf k.remote.network k.remote.port) := by
  have hlocal : (endpointToProto k.localEp).getD .absent =
      fieldsOf k.localEp.network k.localEp.port := by
    refine endpointToProto_getD (n := k.localEp.network) k.localEp.port fun _ _ => ?_
    rw [h.local_network]
    cases k.isServer <;> decide
  have hremote := h.reported.getD k.remote.port
  simp only [NetworkConnection.identity, connToProto, hlocal]
  rw [← hremote]

private theorem translateL4Protocol_inj {p q : L4Proto}
    (h : translateL4Protocol p = translateL4Protocol q) : p = q := by
  revert h
  cases p <;> cases q <;> decide

/-- On normal keys of one remote family, the wire names a flow by the whole key. -/
private theorem NormalKey.identity_eq_iff {k₁ k₂ : Connection} (h₁ : NormalKey k₁)
    (h₂ : NormalKey k₂) (hf : k₁.remote.network.family = k₂.remote.network.family) :
    (connToProto k₁).identity = (connToProto k₂).identity ↔ k₁ = k₂ := by
  constructor
  · intro h
    rw [h₁.identity_eq, h₂.identity_eq] at h
    simp only [Prod.mk.injEq] at h
    obtain ⟨hc, hrole, hproto, _, hlocal, hremote⟩ := h
    have hs : k₁.isServer = k₂.isServer := by
      cases hs₁ : k₁.isServer <;> cases hs₂ : k₂.isServer <;> simp_all
    have hport := setWidth_inj (congrArg NetworkAddress.port hlocal)
    obtain ⟨hnet, hrport⟩ := (fieldsOf_inj h₁.reported h₂.reported hf).mp hremote
    have hl := (h₁.localEp_eq_iff h₂ hs).mpr hport
    have hr := (Endpoint.eq_iff k₁.remote k₂.remote).mpr ⟨hnet, hrport⟩
    have hfl := (Connection.flags_eq_iff k₁ k₂).mpr ⟨translateL4Protocol_inj hproto, hs⟩
    exact (Connection.eq_iff k₁ k₂).mpr ⟨hc, hl, hr, hfl⟩
  · intro he
    subst he
    rfl

/-- Keys that agree up to the masked remote prefix name one network, or one address, or two
addresses, and never a network on one side and its own address on the other. -/
def RemoteAgrees (k₁ k₂ : Connection) : Prop :=
  k₁.container = k₂.container → k₁.flags = k₂.flags → k₁.localEp = k₂.localEp →
    k₁.remote.port = k₂.remote.port → k₁.remote.network.bits = k₂.remote.network.bits →
    k₁.remote.network.mask = k₂.remote.network.mask →
      (k₁.remote.network.isAddr = false →
        k₂.remote.network.isAddr = false ∧ k₁.remote.address = k₂.remote.address) ∧
      (k₁.remote.network.isAddr = true → k₁.remote.address = k₂.remote.address →
        k₂.remote.network.isAddr = true)

private theorem NormalKey.beq_eq_iff {k₁ k₂ : Connection} (h₁ : NormalKey k₁)
    (h₂ : NormalKey k₂) : ((k₁ == k₂) = true → k₁ = k₂) ↔ RemoteAgrees k₁ k₂ := by
  constructor
  · intro h hc hfl hl hp hb hm
    have heq (hnet : (k₁.remote.network == k₂.remote.network) = true) : k₁ = k₂ := by
      refine h ((Connection.beq_iff k₁ k₂).mpr ⟨hc, ?_, (Endpoint.beq_iff _ _).mpr ⟨hp, hnet⟩, hfl⟩)
      rw [hl]
      exact k₂.localEp.beq_self
    constructor
    · intro hflag
      have hk := heq ((IPNet.beq_iff _ _).mpr ⟨hb, Or.inr ⟨hflag, hm⟩⟩)
      exact ⟨hk ▸ hflag, hk ▸ rfl⟩
    · intro hflag haddr
      have hk := heq ((IPNet.beq_iff _ _).mpr ⟨hb, Or.inl ⟨hflag, haddr⟩⟩)
      exact hk ▸ hflag
  · intro h hk
    obtain ⟨hc, hl, hr, hfl⟩ := (Connection.beq_iff k₁ k₂).mp hk
    obtain ⟨hp, hnet⟩ := (Endpoint.beq_iff _ _).mp hr
    have hs := ((Connection.flags_eq_iff k₁ k₂).mp hfl).2
    have hlocal := (h₁.localEp_eq_iff h₂ hs).mpr ((Endpoint.beq_iff _ _).mp hl).1
    obtain ⟨hb, hor⟩ := (IPNet.beq_iff _ _).mp hnet
    have hremote : k₁.remote.network = k₂.remote.network := by
      rcases hor with ⟨hflag, haddr⟩ | ⟨hflag, hm⟩
      · have hflag₂ := (h hc hfl hlocal hp hb (IPNet.mask_congr haddr hb)).2 hflag haddr
        exact (IPNet.eq_iff _ _).mpr ⟨haddr, hb, hflag.trans hflag₂.symm⟩
      · obtain ⟨hflag₂, haddr⟩ := (h hc hfl hlocal hp hb hm).1 hflag
        exact (IPNet.eq_iff _ _).mpr ⟨haddr, hb, hflag.trans hflag₂.symm⟩
    have hr := (Endpoint.eq_iff k₁.remote k₂.remote).mpr ⟨hremote, hp⟩
    exact (Connection.eq_iff k₁ k₂).mpr ⟨hc, hlocal, hr, hfl⟩

/-- At any two moments of a run, equal keys are named alike on the wire and conversely,
exactly when the keys agree on their remote side. -/
theorem wire_identity_iff (t : ConnectionTracker) (changes : List ConfigChange) (i j : ℕ)
    (c₁ c₂ k₁ k₂ : Connection)
    (h₁ : k₁ = (t.runChanges (changes.take i)).normalizeConnectionNoLock c₁)
    (h₂ : k₂ = (t.runChanges (changes.take j)).normalizeConnectionNoLock c₂)
    (hf : k₁.remote.address.family = k₂.remote.address.family) :
    ((k₁ == k₂) = true ↔ (connToProto k₁).identity = (connToProto k₂).identity) ↔
      RemoteAgrees k₁ k₂ := by
  have hn₁ : NormalKey k₁ := h₁ ▸ normalKey_normalize _ c₁
  have hn₂ : NormalKey k₂ := h₂ ▸ normalKey_normalize _ c₂
  rw [hn₁.identity_eq_iff hn₂ hf, ← hn₁.beq_eq_iff hn₂]
  refine ⟨fun h => h.mp, fun h => ⟨h, ?_⟩⟩
  exact fun he => he ▸ BEq.rfl

/-- One known network is replaced by the same prefix with other host bits. -/
def rebasedNetwork : List ConfigChange :=
  [.knownIPNetworks ((∅ : AssocMap Family (List IPNet)).insert .ipv4
      [.new (.ofBytes 8 8 8 1) 24 false]),
   .knownIPNetworks ((∅ : AssocMap Family (List IPNet)).insert .ipv4
      [.new (.ofBytes 8 8 8 2) 24 false])]

def dnsRequest : Connection :=
  .new "c1" (.ofAddress (.ofBytes 10 0 0 1) 45000) (.ofAddress (.ofBytes 8 8 8 8) 53) .udp false

def dnsKey (i : ℕ) : Connection :=
  (ConnectionTracker.empty.runChanges (rebasedNetwork.take i)).normalizeConnectionNoLock dnsRequest

theorem wire_identity_dnsKey :
    ((dnsKey 0 == dnsKey 2) = true ↔
        (connToProto (dnsKey 0)).identity = (connToProto (dnsKey 2)).identity) ↔
      RemoteAgrees (dnsKey 0) (dnsKey 2) :=
  wire_identity_iff .empty rebasedNetwork 0 2 dnsRequest dnsRequest (dnsKey 0) (dnsKey 2) rfl rfl
    (by decide +kernel)

/-- The key stored before the change equals the one fetched after it, but the close message
names 8.8.8.1/24 and the open message 8.8.8.2/24. -/
theorem wire_identity_fails_dnsKey :
    (dnsKey 1).remote.address.family = (dnsKey 2).remote.address.family ∧
      (dnsKey 1 == dnsKey 2) = true ∧
      (connToProto (dnsKey 1)).identity ≠ (connToProto (dnsKey 2)).identity := by
  decide +kernel

end AcsNext.Collector
