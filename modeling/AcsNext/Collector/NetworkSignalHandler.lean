import AcsNext.Collector.EventNames
import AcsNext.Collector.EventOrder
import AcsNext.Collector.ProcessSignal
import AcsNext.Collector.ProcfsScraper

/-! Events as the inspector hands them out, and the handler that turns socket events into
updates of the connection tracker. -/
namespace AcsNext.Collector

inductive ScapL4Proto where
  | tcp
  | udp
  | other
deriving DecidableEq, Repr

/-- `m_type` with the fields of `m_sockinfo` that belong to it; addresses and ports are stored
for the client, then for the server. -/
inductive SockInfo where
  | ipv4 (sip dip : BitVec 32) (sport dport : BitVec 16)
  | ipv6 (sip dip : BitVec 64 × BitVec 64) (sport dport : BitVec 16)
  | other
deriving DecidableEq

structure FdInfo where
  isSocketFailed : Bool
  isSocketPending : Bool
  isRoleServer : Bool
  isRoleClient : Bool
  l4proto : ScapL4Proto
  sockInfo : SockInfo
deriving DecidableEq

/-- `exe` and `containerId` are read through the thread, so only if there is one. -/
structure InspectorEvt (n : ℕ) where
  type : Fin n
  isInternal : Bool
  ts : ℤ
  threadInfo : Option ThreadInfo
  exe : Bytes
  containerId : String
  procArgs : Option Bytes
  rawRes : Option ℤ
  serverPort : Option (BitVec 16)
  clientPort : Option (BitVec 16)
  fdInfo : Option FdInfo
deriving DecidableEq

def ScapL4Proto.toL4Proto : ScapL4Proto → Option L4Proto
  | .tcp => some .tcp
  | .udp => some .udp
  | .other => none

def SockInfo.endpoints : SockInfo → Option (Endpoint × Endpoint)
  | .ipv4 sip dip sport dport =>
    some (.ofAddress (.ofIPv4 sip) sport, .ofAddress (.ofIPv4 dip) dport)
  | .ipv6 sip dip sport dport =>
    some (.ofAddress (.ofIPv6 sip.1 sip.2) sport, .ofAddress (.ofIPv6 dip.1 dip.2) dport)
  | .other => none

theorem SockInfo.raw_of_endpoints {info : SockInfo} {client server : Endpoint}
    (h : info.endpoints = some (client, server)) : client.Raw ∧ server.Raw := by
  cases info with
  | ipv4 sip dip sport dport =>
    obtain ⟨rfl, rfl⟩ : _ ∧ _ := by simpa [endpoints] using h
    exact ⟨rfl, rfl⟩
  | ipv6 sip dip sport dport =>
    obtain ⟨rfl, rfl⟩ : _ ∧ _ := by simpa [endpoints] using h
    exact ⟨rfl, rfl⟩
  | other => simp [endpoints] at h

def connectionSeenBy (isServer : Bool) (containerId : String) (l4proto : L4Proto)
    (ends : {p : Endpoint × Endpoint // p.1.Raw ∧ p.2.Raw}) : RawConnection :=
  if isServer then
    ⟨.new containerId ends.1.2 ends.1.1 l4proto true, ends.2.2, ends.2.1⟩
  else
    ⟨.new containerId ends.1.1 ends.1.2 l4proto false, ends.2.1, ends.2.2⟩

def SockInfo.rawEndpoints (info : SockInfo) :
    Option {p : Endpoint × Endpoint // p.1.Raw ∧ p.2.Raw} :=
  match h : info.endpoints with
  | none => none
  | some (client, server) => some ⟨(client, server), raw_of_endpoints h⟩

variable {n : ℕ}

def getConnection (collectConnectionStatus : Bool) (evt : InspectorEvt n) :
    Option RawConnection := do
  let fdInfo ← evt.fdInfo
  if collectConnectionStatus && (fdInfo.isSocketFailed || fdInfo.isSocketPending) then none
  else
    let res ← evt.rawRes
    if res < 0 then none
    else if !fdInfo.isRoleServer && !fdInfo.isRoleClient then none
    else
      let l4proto ← fdInfo.l4proto.toL4Proto
      let ends ← fdInfo.sockInfo.rawEndpoints
      let _ ← evt.threadInfo
      some (connectionSeenBy fdInfo.isRoleServer evt.containerId l4proto ends)

/-- The handler; the tracker is shared with the thread that reports its contents, so what the
handler does to it is kept as the calls of `UpdateConnection`. -/
structure NetworkSignalHandler where
  collectConnectionStatus : Bool
  updates : List ConnEvent

def NetworkSignalHandler.connEvent (modifiers : Fin n → Modifier) (collectConnectionStatus : Bool)
    (evt : InspectorEvt n) : Option ConnEvent :=
  if modifiers evt.type = .invalid then none
  else
    match getConnection collectConnectionStatus evt with
    | none => none
    | some conn =>
      if isRelevantConnection conn.conn then
        some ⟨conn, evt.ts / 1000, modifiers evt.type = .add⟩
      else none

def NetworkSignalHandler.handleSignal (modifiers : Fin n → Modifier) (h : NetworkSignalHandler)
    (evt : InspectorEvt n) : SignalResult × NetworkSignalHandler :=
  match connEvent modifiers h.collectConnectionStatus evt with
  | none => (.ignored, h)
  | some update => (.processed, { h with updates := h.updates ++ [update] })

end AcsNext.Collector
