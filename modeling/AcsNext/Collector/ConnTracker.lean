import AcsNext.Collector.ConnDelta
import AcsNext.Collector.NetworkConnection
import AcsNext.Collector.NRadix

/-! The connection tracker: the connections and endpoints it stores, the configuration under
which it normalises them, and its operations. -/
namespace AcsNext.Collector
open AcsNext.Data

/-- An endpoint built from a single address, as probes and scrapers do. -/
def Endpoint.Raw (e : Endpoint) : Prop := e.network = .ofAddress e.address

/-- A connection between raw endpoints; only such connections are stored. -/
structure RawConnection where
  conn : Connection
  raw_local : conn.localEp.Raw
  raw_remote : conn.remote.Raw
deriving DecidableEq

instance : BEq RawConnection := ⟨fun a b => a.conn == b.conn⟩

/-- A process object; `id` is its identity in memory. -/
structure IProcess where
  id : ℕ
  comm : String
  exePath : String
  args : String
deriving DecidableEq

structure ContainerEndpoint where
  container : String
  endpoint : Endpoint
  l4proto : L4Proto
  originator : Option IProcess
  raw : endpoint.Raw
deriving DecidableEq

namespace ContainerEndpoint

/-- `operator==` compares the pointers of the originators. -/
protected def beq (a b : ContainerEndpoint) : Bool :=
  a.container == b.container && a.endpoint == b.endpoint && a.l4proto == b.l4proto &&
    a.originator.map IProcess.id == b.originator.map IProcess.id

instance : BEq ContainerEndpoint := ⟨ContainerEndpoint.beq⟩

end ContainerEndpoint

/-- Endpoints as keys of `AdvertisedEndpointMap`. -/
structure AdvertisedEndpoint where
  cep : ContainerEndpoint

def IProcess.advertised (p : IProcess) : String × String × String := (p.comm, p.exePath, p.args)

def advertisedEndpointEquality (lhs rhs : ContainerEndpoint) : Bool :=
  if lhs.originator.isSome != rhs.originator.isSome then false
  else if lhs.originator.map IProcess.advertised ≠ rhs.originator.map IProcess.advertised then false
  else lhs.container == rhs.container && lhs.endpoint == rhs.endpoint && lhs.l4proto == rhs.l4proto

instance : BEq AdvertisedEndpoint := ⟨fun a b => advertisedEndpointEquality a.cep b.cep⟩

theorem Endpoint.beq_iff_eq {a b : Endpoint} (ha : a.Raw) (hb : b.Raw) :
    (a == b) = true ↔ a = b := by
  rw [Endpoint.beq_iff]
  constructor
  · intro he
    obtain ⟨hp, hn⟩ := he
    have haddr : a.network.isAddr = true := by rw [ha]; rfl
    have haddr' : b.network.isAddr = true := by rw [hb]; rfl
    obtain ⟨hbits, ⟨_, h⟩ | ⟨h, _⟩⟩ := (IPNet.beq_iff _ _).mp hn
    · have hnet := (IPNet.eq_iff _ _).mpr ⟨h, hbits, haddr.trans haddr'.symm⟩
      exact (Endpoint.eq_iff a b).mpr ⟨hnet, hp⟩
    · simp [haddr] at h
  · intro he
    subst he
    exact ⟨rfl, a.network.beq_self⟩

theorem RawConnection.beq_iff_eq (a b : RawConnection) : (a == b) = true ↔ a = b := by
  obtain ⟨⟨ac, al, ar, af, haf⟩, hal, har⟩ := a
  obtain ⟨⟨bc, bl, br, bf, hbf⟩, hbl, hbr⟩ := b
  change ((_ : Connection) == _) = true ↔ _
  rw [Connection.beq_iff, Endpoint.beq_iff_eq hal hbl, Endpoint.beq_iff_eq har hbr]
  simp

instance : LawfulBEq RawConnection where
  eq_of_beq h := (RawConnection.beq_iff_eq _ _).mp h
  rfl := (RawConnection.beq_iff_eq _ _).mpr rfl

theorem ContainerEndpoint.beq_iff (a b : ContainerEndpoint) :
    (a == b) = true ↔ a.container = b.container ∧ a.endpoint = b.endpoint ∧
      a.l4proto = b.l4proto ∧ a.originator.map IProcess.id = b.originator.map IProcess.id := by
  change a.beq b = true ↔ _
  simp [ContainerEndpoint.beq, Endpoint.beq_iff_eq a.raw b.raw, and_assoc]

instance : EquivBEq ContainerEndpoint where
  rfl := (ContainerEndpoint.beq_iff _ _).mpr ⟨rfl, rfl, rfl, rfl⟩
  symm h := by
    rw [ContainerEndpoint.beq_iff] at h ⊢
    exact ⟨h.1.symm, h.2.1.symm, h.2.2.1.symm, h.2.2.2.symm⟩
  trans h h' := by
    rw [ContainerEndpoint.beq_iff] at h h' ⊢
    exact ⟨h.1.trans h'.1, h.2.1.trans h'.2.1, h.2.2.1.trans h'.2.2.1, h.2.2.2.trans h'.2.2.2⟩

theorem AdvertisedEndpoint.beq_iff (a b : AdvertisedEndpoint) :
    (a == b) = true ↔
      a.cep.originator.map IProcess.advertised = b.cep.originator.map IProcess.advertised ∧
        a.cep.container = b.cep.container ∧ a.cep.endpoint = b.cep.endpoint ∧
        a.cep.l4proto = b.cep.l4proto := by
  change advertisedEndpointEquality a.cep b.cep = true ↔ _
  unfold advertisedEndpointEquality
  cases ha : a.cep.originator <;> cases hb : b.cep.originator <;>
    simp [Endpoint.beq_iff_eq a.cep.raw b.cep.raw, and_assoc]

instance : EquivBEq AdvertisedEndpoint where
  rfl := (AdvertisedEndpoint.beq_iff _ _).mpr ⟨rfl, rfl, rfl, rfl⟩
  symm h := by
    rw [AdvertisedEndpoint.beq_iff] at h ⊢
    exact ⟨h.1.symm, h.2.1.symm, h.2.2.1.symm, h.2.2.2.symm⟩
  trans h h' := by
    rw [AdvertisedEndpoint.beq_iff] at h h' ⊢
    exact ⟨h.1.trans h'.1, h.2.1.trans h'.2.1, h.2.2.1.trans h'.2.2.1, h.2.2.2.trans h'.2.2.2⟩

abbrev ConnMap := StatusMap Connection

abbrev RawConnMap := StatusMap RawConnection

abbrev ContainerEndpointMap := StatusMap ContainerEndpoint

abbrev AdvertisedEndpointMap := StatusMap AdvertisedEndpoint

namespace ExternalIPsConfig

inductive Direction where
  | none
  | ingress
  | egress
  | both
deriving DecidableEq, Repr

def Direction.toBits : Direction → BitVec 2
  | .none => 0
  | .ingress => 1
  | .egress => 2
  | .both => 3

end ExternalIPsConfig

structure ExternalIPsConfig where
  directionEnabled : ExternalIPsConfig.Direction
deriving DecidableEq, Repr

def ExternalIPsConfig.isEnabled (config : ExternalIPsConfig) (direction : Direction) : Bool :=
  (direction.toBits &&& config.directionEnabled.toBits) == direction.toBits

structure Stats where
  inboundPublic : BitVec 32
  inboundPrivate : BitVec 32
  outboundPublic : BitVec 32
  outboundPrivate : BitVec 32
deriving DecidableEq, Repr

structure ConnectionTracker where
  connState : RawConnMap
  endpointState : ContainerEndpointMap
  knownPublicIps : Finset Address
  knownIpNetworks : NRadixTree
  externalIpsConfig : ExternalIPsConfig
  knownPrivateNetworksExists : AssocMap Family Bool
  ignoredL4protoPortPairs : Finset (L4Proto × BitVec 16)
  ignoredNetworks : NRadixTree
  nonAggregatedNetworks : NRadixTree
  insertedConnectionsCounters : Stats

def privateNetworksTree : NRadixTree := .ofList allPrivateNetworks

def containsPrivateNetwork (family : Family) (tree : NRadixTree) : Bool :=
  tree.isAnyIPNetSubset family privateNetworksTree ||
    privateNetworksTree.isAnyIPNetSubset family tree

def isEphemeralPort (port : BitVec 16) : ℕ :=
  if 49152 ≤ port then 4
  else if 32768 ≤ port then 3
  else if 1025 ≤ port ∧ port ≤ 5000 then 2
  else if port = 1024 then 1
  else 0

/-- The first component tells whether the key has been added. -/
def emplaceOrUpdate {T : Type*} [BEq T] (m : StatusMap T) (obj : T) (status : ConnStatus) :
    Bool × StatusMap T :=
  match m.find? obj with
  | none => (true, m.insert obj status)
  | some stored =>
    (false, if stored.lastActiveTime < status.lastActiveTime then m.set obj status else m)

def deactivateAll {T : Type*} [BEq T] (m : StatusMap T) : StatusMap T :=
  m.filterMap fun _ s => some (s.setActive false)

def fetchInto {E : Type*} [BEq E] (normalize : Bool) (fetched : StatusMap E) (key : E)
    (status : ConnStatus) : StatusMap E :=
  if normalize then
    match fetched.find? key with
    | none => fetched.insert key status
    | some stored => fetched.set key (stored.mergeFrom status)
  else fetched.insert key status

/-- The fetched state, and the stored one after inactive entries have been cleared. -/
def fetchState {T E : Type*} [BEq T] [BEq E] (state : StatusMap T)
    (normalize clearInactive : Bool) (process : T → E) (filter : T → Bool) :
    StatusMap E × StatusMap T :=
  (state.entries.foldl (fun fetched entry =>
      if filter entry.1 then fetchInto normalize fetched (process entry.1) entry.2 else fetched) ∅,
    if clearInactive then state.filter fun _ s => s.isActive else state)

namespace ConnectionTracker

def empty : ConnectionTracker where
  connState := ∅
  endpointState := ∅
  knownPublicIps := ∅
  knownIpNetworks := .empty
  externalIpsConfig := ⟨.none⟩
  knownPrivateNetworksExists := ∅
  ignoredL4protoPortPairs := ∅
  ignoredNetworks := .empty
  nonAggregatedNetworks := .empty
  insertedConnectionsCounters := ⟨0, 0, 0, 0⟩

variable (t : ConnectionTracker)

def isIgnoredL4ProtoPortPair (p : L4Proto × BitVec 16) : Bool :=
  decide (p ∈ t.ignoredL4protoPortPairs)

def hasConnectionFilters : Bool :=
  !decide (t.ignoredL4protoPortPairs = ∅) || !t.ignoredNetworks.isEmpty

def shouldFetchConnection (conn : Connection) : Bool :=
  !t.isIgnoredL4ProtoPortPair (conn.l4proto, conn.localEp.port) &&
    !t.isIgnoredL4ProtoPortPair (conn.l4proto, conn.remote.port) &&
    (t.ignoredNetworks.findAddress conn.remote.address).isNull

def shouldFetchContainerEndpoint (cep : ContainerEndpoint) : Bool :=
  !t.isIgnoredL4ProtoPortPair (cep.l4proto, cep.endpoint.port)

def incrementConnectionStats (conn : Connection) (stats : Stats) : Stats :=
  if !t.shouldFetchConnection conn then stats
  else
    match conn.isServer, conn.remote.address.isPublic with
    | true, true => { stats with inboundPublic := stats.inboundPublic + 1 }
    | true, false => { stats with inboundPrivate := stats.inboundPrivate + 1 }
    | false, true => { stats with outboundPublic := stats.outboundPublic + 1 }
    | false, false => { stats with outboundPrivate := stats.outboundPrivate + 1 }

def emplaceOrUpdateConnection (conn : RawConnection) (status : ConnStatus) : ConnectionTracker :=
  let r := emplaceOrUpdate t.connState conn status
  { t with
    connState := r.2
    insertedConnectionsCounters :=
      if r.1 then t.incrementConnectionStats conn.conn t.insertedConnectionsCounters
      else t.insertedConnectionsCounters }

def emplaceOrUpdateEndpoint (ep : ContainerEndpoint) (status : ConnStatus) : ConnectionTracker :=
  { t with endpointState := (emplaceOrUpdate t.endpointState ep status).2 }

def updateConnection (conn : RawConnection) (timestamp : ℤ) (added : Bool) : ConnectionTracker :=
  t.emplaceOrUpdateConnection conn (.ofTime timestamp added)

def update (allConns : List RawConnection) (allListenEndpoints : List ContainerEndpoint)
    (timestamp : ℤ) : ConnectionTracker :=
  let marked : ConnectionTracker :=
    { t with
      connState := deactivateAll t.connState
      endpointState := deactivateAll t.endpointState }
  let newStatus := ConnStatus.ofTime timestamp true
  let withConns := allConns.foldl (fun t conn => t.emplaceOrUpdateConnection conn newStatus) marked
  allListenEndpoints.foldl (fun t ep => t.emplaceOrUpdateEndpoint ep newStatus) withConns

def normalizeAddressNoLock (address : Address) (enableExternalIps : Bool) : IPNet :=
  if address.isNull then .null
  else
    let privateAddr := !address.isPublic
    let doNotAggregateAddr := !(t.nonAggregatedNetworks.findAddress address).isNull
    let keepAddr := privateAddr || doNotAggregateAddr
    if keepAddr && t.knownPrivateNetworksExists.find? address.family == some false then
      .new address 0 true
    else
      let network := t.knownIpNetworks.findAddress address
      if keepAddr || decide (address ∈ t.knownPublicIps) then .new address network.bits true
      else if !network.isNull then network
      else if enableExternalIps then .new address (8 * address.length) false
      else
        match address.family with
        | .ipv4 => .new canonicalExternalIpv4Addr 0 true
        | .ipv6 => .new canonicalExternalIpv6Addr 0 true
        | .unknown => .null

/-- The role under which a connection is reported; for UDP it is inferred from the ports. -/
def normalizedRole (conn : Connection) : Bool :=
  if conn.l4proto = .udp then
    decide (isEphemeralPort conn.localEp.port < isEphemeralPort conn.remote.port)
  else conn.isServer

def normalizeConnectionNoLock (conn : Connection) : Connection :=
  let isServer := normalizedRole conn
  let extIPsIngress := t.externalIpsConfig.isEnabled .ingress
  let extIPsEgress := t.externalIpsConfig.isEnabled .egress
  if isServer then
    .new conn.container (.ofAddress .null conn.localEp.port)
      ⟨t.normalizeAddressNoLock conn.remote.address extIPsIngress, 0⟩ conn.l4proto isServer
  else
    .new conn.container .null
      ⟨t.normalizeAddressNoLock conn.remote.address extIPsEgress, conn.remote.port⟩
      conn.l4proto isServer

def shouldNormalizeConnection (conn : Connection) : Bool :=
  (t.normalizeAddressNoLock conn.remote.address false).address.isCanonicalExternalIp

/-- The delta after one turn of the loop of `closeConnections`. -/
def closeInto (predicate : Connection → Bool) (delta : ConnMap)
    (oldConn : Connection × ConnStatus) : ConnMap :=
  if predicate oldConn.1 then
    delta.insert oldConn.1 (if oldConn.2.isActive then oldConn.2.setActive false else oldConn.2)
  else delta

/-- The old state without the closed connections, and the delta with them. -/
def closeConnections (oldConnState deltaConn : ConnMap) (predicate : Connection → Bool) :
    ConnMap × ConnMap :=
  (oldConnState.filter fun conn _ => !predicate conn,
    oldConnState.entries.foldl (closeInto predicate) deltaConn)

def shouldClose (conn : Connection) (enablingExtIPs : Bool) : Bool :=
  if enablingExtIPs then conn.remote.address.isCanonicalExternalIp
  else !conn.remote.address.isCanonicalExternalIp && t.shouldNormalizeConnection conn

def closeConnectionsOnExternalIPsConfigChange (prevConfig : ExternalIPsConfig)
    (oldConnState deltaConn : ConnMap) : ConnMap × ConnMap :=
  let ingress := t.externalIpsConfig.isEnabled .ingress
  let egress := t.externalIpsConfig.isEnabled .egress
  let afterEgress :=
    if egress != prevConfig.isEnabled .egress then
      closeConnections oldConnState deltaConn fun conn =>
        !conn.isServer && t.shouldClose conn egress
    else (oldConnState, deltaConn)
  if ingress != prevConfig.isEnabled .ingress then
    closeConnections afterEgress.1 afterEgress.2 fun conn =>
      conn.isServer && t.shouldClose conn ingress
  else afterEgress

def normalizeContainerEndpoint (cep : ContainerEndpoint) : ContainerEndpoint :=
  { cep with
    endpoint := .ofAddress (.any cep.endpoint.address.family) cep.endpoint.port
    raw := rfl }

def fetchConnState (normalize clearInactive : Bool) : ConnMap × ConnectionTracker :=
  let filter : RawConnection → Bool :=
    if t.hasConnectionFilters then fun conn => t.shouldFetchConnection conn.conn
    else fun _ => true
  let process : RawConnection → Connection :=
    if normalize then fun conn => t.normalizeConnectionNoLock conn.conn else RawConnection.conn
  let r := fetchState t.connState normalize clearInactive process filter
  (r.1, { t with connState := r.2 })

def fetchEndpointState (normalize clearInactive : Bool) :
    AdvertisedEndpointMap × ConnectionTracker :=
  let filter : ContainerEndpoint → Bool :=
    if t.hasConnectionFilters then t.shouldFetchContainerEndpoint else fun _ => true
  let process : ContainerEndpoint → AdvertisedEndpoint :=
    if normalize then fun cep => ⟨normalizeContainerEndpoint cep⟩ else AdvertisedEndpoint.mk
  let r := fetchState t.endpointState normalize clearInactive process filter
  (r.1, { t with endpointState := r.2 })

def updateKnownPublicIPs (knownPublicIps : Finset Address) : ConnectionTracker :=
  { t with knownPublicIps := knownPublicIps }

/-- Networks that the tree refuses are logged and skipped. -/
def updateKnownIPNetworks (knownIpNetworks : AssocMap Family (List IPNet)) : ConnectionTracker :=
  let tree := NRadixTree.ofList (knownIpNetworks.entries.flatMap Prod.snd)
  { t with
    knownIpNetworks := tree
    knownPrivateNetworksExists :=
      knownIpNetworks.filterMap fun family _ => some (containsPrivateNetwork family tree) }

def setExternalIPsConfig (config : ExternalIPsConfig) : ConnectionTracker :=
  { t with externalIpsConfig := config }

def updateIgnoredL4ProtoPortPairs (pairs : Finset (L4Proto × BitVec 16)) : ConnectionTracker :=
  { t with ignoredL4protoPortPairs := pairs }

def updateIgnoredNetworks (networkList : List IPNet) : ConnectionTracker :=
  { t with ignoredNetworks := .ofList networkList }

end ConnectionTracker

end AcsNext.Collector
