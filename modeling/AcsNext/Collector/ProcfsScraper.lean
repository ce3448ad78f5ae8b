import AcsNext.Collector.ConnTracker

/-! Scraping connections from the process file system: the tables of a network namespace, the
sockets of the processes, and how the two are joined. -/
namespace AcsNext.Collector

open AcsNext.Data

/-- Loopback addresses, mapped ones included. -/
def Address.isLocal (a : Address) : Bool :=
  match a.family with
  | .ipv4 => a.data.w0 &&& htonll 0xff00000000000000#64 == htonll 0x7f00000000000000#64
  | .ipv6 =>
    a.data.w0 == 0 && (a.data.w1 == htonll 1#64 ||
      a.data.w1 &&& htonll 0xffffffffff000000#64 == htonll 0x0000ffff7f000000#64)
  | .unknown => false

def isRelevantConnection (conn : Connection) : Bool := !conn.remote.address.isLocal

def isRelevantEndpoint (ep : Endpoint) : Bool := !ep.address.isLocal

def tcpEstablished : BitVec 8 := 1

def tcpListen : BitVec 8 := 10

structure ConnLineData where
  localEp : Endpoint
  remote : Endpoint
  state : BitVec 8
  inode : ℕ
  local_raw : localEp.Raw

structure ConnInfo where
  localEp : Endpoint
  remote : Endpoint
  l4proto : L4Proto
  isServer : Bool
deriving DecidableEq

structure EndpointInfo where
  endpoint : Endpoint
  l4proto : L4Proto
  raw : endpoint.Raw

structure NSNetworkData where
  connections : AssocMap ℕ ConnInfo
  listenEndpoints : AssocMap ℕ EndpointInfo

namespace NSNetworkData

def empty : NSNetworkData := ⟨∅, ∅⟩

def storeConnection (data : NSNetworkData) (inode : ℕ) (info : ConnInfo) : NSNetworkData :=
  { data with connections := data.connections.assign inode info }

def storeListen (data : NSNetworkData) (inode : ℕ) (info : EndpointInfo) : NSNetworkData :=
  { data with listenEndpoints := data.listenEndpoints.assign inode info }

end NSNetworkData

def localIsServer (localEp remote : Endpoint) (listenEndpoints : List Endpoint) : Bool :=
  if listenEndpoints.contains localEp then true
  else if listenEndpoints.contains (.ofAddress (.any localEp.address.family) localEp.port) then true
  else decide (isEphemeralPort remote.port > isEphemeralPort localEp.port)

structure TableReader where
  allListenEndpoints : List Endpoint
  data : NSNetworkData

/-- One line; `none` is a line that cannot be parsed. Listen sockets are stored only if they
are asked for. -/
def readLine (wantListen : Bool) (l4proto : L4Proto) (r : TableReader) :
    Option ConnLineData → TableReader
  | none => r
  | some line =>
    if line.state = tcpListen then
      { allListenEndpoints := r.allListenEndpoints ++ [line.localEp]
        data :=
          if line.inode ≠ 0 ∧ wantListen then
            r.data.storeListen line.inode ⟨line.localEp, l4proto, line.local_raw⟩
          else r.data }
    else if line.state ≠ tcpEstablished then r
    else if line.inode = 0 then r
    else
      let isServer := localIsServer line.localEp line.remote r.allListenEndpoints
      let info := ⟨line.localEp, line.remote, l4proto, isServer⟩
      { r with data := r.data.storeConnection line.inode info }

inductive TcpFile where
  | missing
  | withoutHeader
  | lines (l : List (Option ConnLineData))

def readConnectionsFromFile (wantListen : Bool) (l4proto : L4Proto) (data : NSNetworkData) :
    TcpFile → Bool × NSNetworkData
  | .missing => (false, data)
  | .withoutHeader => (false, data)
  | .lines l => (true, (l.foldl (readLine wantListen l4proto) ⟨[], data⟩).data)

def getConnections (wantListen : Bool) (tcp tcp6 : TcpFile) : Bool × NSNetworkData :=
  let ipv4 := readConnectionsFromFile wantListen .tcp .empty tcp
  let ipv6 := readConnectionsFromFile wantListen .tcp ipv4.2 tcp6
  (ipv6.1 && ipv4.1, ipv6.2)

/-- A process as the scan meets it: whether its directory opens, its state, its container, its
network namespace, the inodes of its sockets, the tables it shows, and its namespace once more. -/
structure ProcEntry where
  pid : ℕ
  dirOpens : Bool
  state : Option Char
  containerId : Option String
  netns : Option ℕ
  socketInodes : Option (List ℕ)
  tcp : TcpFile
  tcp6 : TcpFile
  netnsAgain : Option ℕ

/-- The container and the namespace under which the sockets of a process are filed. -/
def ProcEntry.key (p : ProcEntry) : Option (String × ℕ) :=
  if !p.dirOpens then none
  else if p.state = some 'Z' then none
  else
    match p.containerId with
    | none => none
    | some containerId => p.netns.map fun netns => (containerId, netns)

/-- The sets of sockets compare by inode and keep the process that was first. -/
structure ProcScan where
  connsByNS : AssocMap ℕ NSNetworkData
  socketsByContainerAndNS : AssocMap (String × ℕ) (AssocMap ℕ ℕ)

namespace ProcScan

def empty : ProcScan := ⟨∅, ∅⟩

def sockets (s : ProcScan) (key : String × ℕ) : AssocMap ℕ ℕ :=
  (s.socketsByContainerAndNS.find? key).getD ∅

def getSocketINodes (pid : ℕ) (inodes : List ℕ) (sockets : AssocMap ℕ ℕ) : AssocMap ℕ ℕ :=
  inodes.foldl (fun m inode => m.insert inode pid) sockets

/-- The tables of a namespace are read if it has none yet; they are dropped again if the process
has vanished. -/
def readTables (wantListen : Bool) (s : ProcScan) (p : ProcEntry) (netns : ℕ) : ProcScan :=
  if s.connsByNS.contains netns then s
  else
    let read := getConnections wantListen p.tcp p.tcp6
    if !read.1 ∧ p.netnsAgain ≠ some netns then s
    else { s with connsByNS := s.connsByNS.insert netns read.2 }

def step (wantListen : Bool) (s : ProcScan) (p : ProcEntry) : ProcScan :=
  match p.key with
  | none => s
  | some key =>
    let before := s.sockets key
    match p.socketInodes with
    | none =>
      { s with socketsByContainerAndNS := s.socketsByContainerAndNS.assign key before }
    | some inodes =>
      let after := getSocketINodes p.pid inodes before
      let s := { s with socketsByContainerAndNS := s.socketsByContainerAndNS.assign key after }
      if before.size = 0 ∧ after.size ≠ 0 then s.readTables wantListen p key.2 else s

end ProcScan

/-- A connection with the socket that it was found for. -/
structure Report where
  container : String
  netns : ℕ
  inode : ℕ
  connection : Connection
deriving DecidableEq

/-- The connection of a socket, unless it is unknown or not relevant. -/
def reportOf (key : String × ℕ) (data : NSNetworkData) (inode : ℕ) : Option Report :=
  match data.connections.find? inode with
  | none => none
  | some conn =>
    let connection := Connection.new key.1 conn.localEp conn.remote conn.l4proto conn.isServer
    if !isRelevantConnection connection then none else some ⟨key.1, key.2, inode, connection⟩

def endpointOf (processStore : Option (ℕ → IProcess)) (key : String × ℕ) (data : NSNetworkData)
    (inode pid : ℕ) : Option ContainerEndpoint :=
  match data.connections.find? inode with
  | some _ => none
  | none =>
    match data.listenEndpoints.find? inode with
    | none => none
    | some ep =>
      if !isRelevantEndpoint ep.endpoint then none
      else some ⟨key.1, ep.endpoint, ep.l4proto, processStore.map fun fetch => fetch pid, ep.raw⟩

/-- Goes through the sockets of every container and namespace whose tables are known. -/
def ProcScan.resolve {α : Type*} (s : ProcScan)
    (f : String × ℕ → NSNetworkData → ℕ → ℕ → Option α) : List α :=
  s.socketsByContainerAndNS.entries.flatMap fun e =>
    match s.connsByNS.find? e.1.2 with
    | none => []
    | some data => e.2.entries.filterMap fun socket => f e.1 data socket.1 socket.2

/-- The reports behind the connections of `ResolveSocketInodes`. -/
def ProcScan.reports (s : ProcScan) : List Report :=
  s.resolve fun key data inode _ => reportOf key data inode

def resolveSocketInodes (s : ProcScan) (processStore : Option (ℕ → IProcess)) (wantListen : Bool) :
    List Connection × List ContainerEndpoint :=
  (s.reports.map Report.connection, if wantListen then s.resolve (endpointOf processStore) else [])

def scanProcesses (wantListen : Bool) (procs : List ProcEntry) : ProcScan :=
  procs.foldl (ProcScan.step wantListen) .empty

/-- `none` is a directory that cannot be opened. -/
def readContainerConnections (processStore : Option (ℕ → IProcess)) (wantListen : Bool)
    (procdir : Option (List ProcEntry)) : Option (List Connection × List ContainerEndpoint) :=
  procdir.map fun procs =>
    resolveSocketInodes (scanProcesses wantListen procs) processStore wantListen

end AcsNext.Collector
