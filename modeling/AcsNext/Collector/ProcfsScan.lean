import AcsNext.Collector.ProcfsScraper

/-! What a scan of the process file system reports, and when it reports all of it. -/
namespace AcsNext.Collector

open AcsNext.Data

def ConnLineData.Established (inode : ℕ) (line : ConnLineData) : Prop :=
  line.state = tcpEstablished ∧ line.inode = inode ∧ inode ≠ 0

def listening (lines : List (Option ConnLineData)) : List Endpoint :=
  lines.filterMap fun l =>
    match l with
    | none => none
    | some line => if line.state = tcpListen then some line.localEp else none

/-- The last established connection of the lines with this inode; the role depends on the
listen sockets before it. -/
def Shows (lines : List (Option ConnLineData)) (inode : ℕ) (info : ConnInfo) : Prop :=
  ∃ before line after, lines = before ++ some line :: after ∧ line.Established inode ∧
    (∀ l, some l ∈ after → ¬ l.Established inode) ∧
    info = ⟨line.localEp, line.remote, .tcp,
      localIsServer line.localEp line.remote (listening before)⟩

/-- The lines of `net/tcp` and of `net/tcp6`. -/
abbrev Tables := List (Option ConnLineData) × List (Option ConnLineData)

/-- The established connection of a namespace with this inode. -/
def Tables.Shows (t : Tables) (inode : ℕ) (info : ConnInfo) : Prop :=
  Collector.Shows t.2 inode info ∨
    (∀ l, some l ∈ t.2 → ¬ l.Established inode) ∧ Collector.Shows t.1 inode info

theorem listening_append (lines : List (Option ConnLineData)) (l : Option ConnLineData) :
    listening (lines ++ [l]) = listening lines ++ listening [l] :=
  List.filterMap_append

theorem shows_append_iff (lines : List (Option ConnLineData)) (l : Option ConnLineData)
    (inode : ℕ) (info : ConnInfo) :
    Shows (lines ++ [l]) inode info ↔
      (∃ line, l = some line ∧ line.Established inode ∧
        info = ⟨line.localEp, line.remote, .tcp,
          localIsServer line.localEp line.remote (listening lines)⟩) ∨
      (∀ line, l = some line → ¬ line.Established inode) ∧ Shows lines inode info := by
  constructor
  · rintro ⟨before, line, after, heq, hest, hafter, hinfo⟩
    rcases List.eq_nil_or_concat after with rfl | ⟨after, last, rfl⟩
    · obtain ⟨rfl, hl⟩ := List.append_inj' heq rfl
      exact Or.inl ⟨line, List.singleton_inj.mp hl, hest, hinfo⟩
    · rw [List.concat_eq_append] at heq hafter
      rw [← List.cons_append, ← List.append_assoc] at heq
      obtain ⟨rfl, hl⟩ := List.append_inj' heq rfl
      rw [List.singleton_inj] at hl
      subst hl
      refine Or.inr ⟨fun line' hline => hafter line' (by simp [hline]), before, line, after, rfl,
        hest, ?_, hinfo⟩
      exact fun l' hl' => hafter l' (List.mem_append_left _ hl')
  · rintro (⟨line, rfl, hest, hinfo⟩ | ⟨hlast, before, line, after, rfl, hest, hafter, hinfo⟩)
    · exact ⟨lines, line, [], rfl, hest, by simp, hinfo⟩
    · refine ⟨before, line, after ++ [l], by simp, hest, ?_, hinfo⟩
      intro l' hl'
      rcases List.mem_append.mp hl' with hmem | hmem
      · exact hafter l' hmem
      · exact hlast l' (List.mem_singleton.mp hmem).symm

section Reading

variable {wantListen : Bool} {r : TableReader}

theorem listen_readLine (l : Option ConnLineData) :
    (readLine wantListen .tcp r l).allListenEndpoints = r.allListenEndpoints ++ listening [l] := by
  cases l with
  | none => simp [readLine, listening]
  | some line =>
    simp only [readLine]
    split_ifs with hlisten <;> simp [listening, hlisten]

/-- Only an established connection with the inode changes what is stored under it. -/
theorem find?_readLine (wantListen : Bool) (r : TableReader) (l : Option ConnLineData) (inode : ℕ) :
    ((∀ line, l = some line → ¬ line.Established inode) →
      (readLine wantListen .tcp r l).data.connections.find? inode =
        r.data.connections.find? inode) ∧
    (∀ line, l = some line → line.Established inode →
      (readLine wantListen .tcp r l).data.connections.find? inode =
        some ⟨line.localEp, line.remote, .tcp,
          localIsServer line.localEp line.remote r.allListenEndpoints⟩) := by
  cases l with
  | none => exact ⟨fun _ => rfl, by simp⟩
  | some line =>
    constructor
    · intro hno
      replace hno := hno line rfl
      simp only [readLine]
      split_ifs with hlisten hinode hest hzero
      · rfl
      · rfl
      · rfl
      · rfl
      · have hne : line.inode ≠ inode := by
          rintro rfl
          exact hno ⟨not_not.mp hest, rfl, hzero⟩
        simp [NSNetworkData.storeConnection, AssocMap.find?_assign, hne]
    · intro _ heq hest
      cases heq
      obtain ⟨hest, rfl, hne⟩ := hest
      have hlisten : tcpEstablished ≠ tcpListen := by decide
      simp [readLine, hest, hlisten, hne, NSNetworkData.storeConnection, AssocMap.find?_assign]

theorem listen_readLines (lines : List (Option ConnLineData)) (data : NSNetworkData) :
    (lines.foldl (readLine wantListen .tcp) ⟨[], data⟩).allListenEndpoints = listening lines := by
  induction lines using List.reverseRecOn with
  | nil => rfl
  | append_singleton lines l ih =>
    rw [List.foldl_append, List.foldl_cons, List.foldl_nil, listen_readLine, ih, listening_append]

/-- After the lines an inode has their last connection with it, or what it had before. -/
theorem find?_readLines (lines : List (Option ConnLineData)) (data : NSNetworkData) (inode : ℕ)
    (info : ConnInfo) :
    (lines.foldl (readLine wantListen .tcp) ⟨[], data⟩).data.connections.find? inode = some info ↔
      Shows lines inode info ∨
        (∀ l, some l ∈ lines → ¬ l.Established inode) ∧
          data.connections.find? inode = some info := by
  induction lines using List.reverseRecOn with
  | nil =>
    have hnone : ¬ Shows [] inode info := by
      rintro ⟨before, line, after, heq, -⟩
      simp at heq
    simp [hnone]
  | append_singleton lines l ih =>
    rw [List.foldl_append, List.foldl_cons, List.foldl_nil, shows_append_iff]
    obtain ⟨hother, hhere⟩ := find?_readLine wantListen
      (lines.foldl (readLine wantListen .tcp) ⟨[], data⟩) l inode
    by_cases hest : ∃ line, l = some line ∧ line.Established inode
    · obtain ⟨line, rfl, hline⟩ := hest
      rw [hhere line rfl hline, listen_readLines]
      constructor
      · intro h
        exact Or.inl (Or.inl ⟨line, rfl, hline, (Option.some.inj h).symm⟩)
      · rintro ((⟨line', heq, -, rfl⟩ | ⟨hno, -⟩) | ⟨hno, -⟩)
        · cases heq
          rfl
        · exact absurd hline (hno line rfl)
        · exact absurd hline (hno line (by simp))
    · have hno : ∀ line, l = some line → ¬ line.Established inode :=
        fun line heq hline => hest ⟨line, heq, hline⟩
      have hall : (∀ x, some x ∈ lines ++ [l] → ¬ x.Established inode) ↔
          ∀ x, some x ∈ lines → ¬ x.Established inode := by
        constructor
        · exact fun h x hx => h x (List.mem_append_left _ hx)
        · intro h x hx
          rcases List.mem_append.mp hx with hx | hx
          · exact h x hx
          · exact hno x (List.mem_singleton.mp hx).symm
      rw [hother hno, ih, hall]
      constructor
      · exact Or.imp_left fun h => Or.inr ⟨hno, h⟩
      · rintro ((⟨line, heq, hline, -⟩ | ⟨-, h⟩) | h)
        · exact absurd hline (hno line heq)
        · exact Or.inl h
        · exact Or.inr h

end Reading

def Tables.data (wantListen : Bool) (t : Tables) : NSNetworkData :=
  (getConnections wantListen (.lines t.1) (.lines t.2)).2

theorem find?_tables (wantListen : Bool) (t : Tables) (inode : ℕ) (info : ConnInfo) :
    (t.data wantListen).connections.find? inode = some info ↔ t.Shows inode info := by
  have hempty : ¬ NSNetworkData.empty.connections.find? inode = some info := by
    simp [NSNetworkData.empty]
  unfold Tables.data getConnections readConnectionsFromFile Tables.Shows
  dsimp only
  rw [find?_readLines, find?_readLines]
  tauto

namespace ProcEntry

/-- The sockets that the process is seen to hold under a container and a namespace. -/
def inodesAt (p : ProcEntry) (key : String × ℕ) : List ℕ :=
  if p.key = some key then p.socketInodes.getD [] else []

def canRead (p : ProcEntry) : Bool := (getConnections false p.tcp p.tcp6).1

theorem getConnections_fst (p : ProcEntry) (wantListen : Bool) :
    (getConnections wantListen p.tcp p.tcp6).1 = p.canRead := by
  unfold canRead getConnections
  cases p.tcp <;> cases p.tcp6 <;> rfl

end ProcEntry

/-- Some observed process of the container in the namespace holds the socket. -/
def Held (procs : List ProcEntry) (key : String × ℕ) (inode : ℕ) : Prop :=
  ∃ p ∈ procs, inode ∈ p.inodesAt key

def firstHolder (procs : List ProcEntry) (key : String × ℕ) : Option ProcEntry :=
  procs.find? fun p => !(p.inodesAt key).isEmpty

/-- The first holder of some container in the namespace could read the tables. -/
def NamespaceRead (procs : List ProcEntry) (netns : ℕ) : Prop :=
  ∃ container p, firstHolder procs (container, netns) = some p ∧ p.canRead = true

/-- Every read of a namespace shows the same tables, or fails because the process has
vanished. -/
def Consistent (tables : ℕ → Tables) (procs : List ProcEntry) : Prop :=
  ∀ p ∈ procs, ∀ container netns, p.key = some (container, netns) →
    (p.tcp = .lines (tables netns).1 ∧ p.tcp6 = .lines (tables netns).2) ∨
    (p.canRead = false ∧ p.netnsAgain ≠ some netns)

theorem contains_getSocketINodes (pid : ℕ) (inodes : List ℕ) (m : AssocMap ℕ ℕ) (inode : ℕ) :
    (ProcScan.getSocketINodes pid inodes m).contains inode = true ↔
      m.contains inode = true ∨ inode ∈ inodes := by
  unfold ProcScan.getSocketINodes
  induction inodes generalizing m with
  | nil => simp
  | cons i inodes ih =>
    rw [List.foldl_cons, ih, AssocMap.contains_insert]
    simp only [Bool.or_eq_true, beq_iff_eq, List.mem_cons, eq_comm (a := inode)]
    tauto

theorem firstHolder_eq_none_iff (procs : List ProcEntry) (key : String × ℕ) :
    firstHolder procs key = none ↔ ∀ inode, ¬ Held procs key inode := by
  unfold firstHolder Held
  rw [List.find?_eq_none]
  constructor
  · rintro h inode ⟨p, hp, hmem⟩
    have hempty := h p hp
    simp only [Bool.not_eq_true, Bool.not_eq_false', List.isEmpty_iff] at hempty
    rw [hempty] at hmem
    cases hmem
  · intro h p hp
    simp only [Bool.not_eq_true, Bool.not_eq_false', List.isEmpty_iff]
    exact List.eq_nil_iff_forall_not_mem.mpr fun inode hmem => h inode ⟨p, hp, hmem⟩

theorem held_append (procs : List ProcEntry) (p : ProcEntry) (key : String × ℕ) (inode : ℕ) :
    Held (procs ++ [p]) key inode ↔ Held procs key inode ∨ inode ∈ p.inodesAt key := by
  unfold Held
  simp only [List.mem_append, List.mem_singleton]
  constructor
  · rintro ⟨q, hq | rfl, hmem⟩
    · exact Or.inl ⟨q, hq, hmem⟩
    · exact Or.inr hmem
  · rintro (⟨q, hq, hmem⟩ | hmem)
    · exact ⟨q, Or.inl hq, hmem⟩
    · exact ⟨p, Or.inr rfl, hmem⟩

/-- A further process matters only if it is the first of its container to hold a socket. -/
theorem namespaceRead_append (procs : List ProcEntry) (p : ProcEntry) (netns : ℕ) :
    NamespaceRead (procs ++ [p]) netns ↔
      NamespaceRead procs netns ∨
        p.canRead = true ∧ ∃ container, firstHolder procs (container, netns) = none ∧
          p.inodesAt (container, netns) ≠ [] := by
  have hfirst (key : String × ℕ) : firstHolder (procs ++ [p]) key =
      (firstHolder procs key).or (if p.inodesAt key = [] then none else some p) := by
    unfold firstHolder
    rw [List.find?_append]
    cases h : p.inodesAt key <;> simp [h]
  unfold NamespaceRead
  simp only [hfirst]
  constructor
  · rintro ⟨container, q, hq, hread⟩
    cases hf : firstHolder procs (container, netns) with
    | some q' =>
      rw [hf, Option.some_or] at hq
      cases hq
      exact Or.inl ⟨container, q, hf, hread⟩
    | none =>
      rw [hf, Option.none_or] at hq
      split_ifs at hq with hnil
      cases hq
      exact Or.inr ⟨hread, container, hf, hnil⟩
  · rintro (⟨container, q, hq, hread⟩ | ⟨hread, container, hf, hne⟩)
    · exact ⟨container, q, by rw [hq, Option.some_or], hread⟩
    · exact ⟨container, p, by rw [hf, Option.none_or, if_neg hne], hread⟩

/-- The sockets are those held, and the tables are known of the namespaces that were read. -/
structure Scanned (wantListen : Bool) (tables : ℕ → Tables) (procs : List ProcEntry)
    (s : ProcScan) : Prop where
  sockets : ∀ key inode, (s.sockets key).contains inode = true ↔ Held procs key inode
  conns : ∀ netns data, s.connsByNS.find? netns = some data ↔
    NamespaceRead procs netns ∧ data = (tables netns).data wantListen

section Scan

variable {wantListen : Bool} {tables : ℕ → Tables} {procs : List ProcEntry} {s : ProcScan}
  {p : ProcEntry}

theorem scanned_empty : Scanned wantListen tables [] .empty where
  sockets key inode := by simp [ProcScan.empty, ProcScan.sockets, Held, AssocMap.contains_eq]
  conns netns data := by simp [ProcScan.empty, NamespaceRead, firstHolder]

theorem Scanned.append_idle (h : Scanned wantListen tables procs s)
    (hidle : ∀ key, p.inodesAt key = []) : Scanned wantListen tables (procs ++ [p]) s := by
  constructor
  · intro key inode
    rw [h.sockets, held_append, hidle]
    simp
  · intro netns data
    rw [h.conns, namespaceRead_append]
    simp [hidle]

theorem Scanned.congr {s' : ProcScan} (h : Scanned wantListen tables procs s)
    (hsockets : ∀ key, s'.sockets key = s.sockets key) (hconns : s'.connsByNS = s.connsByNS) :
    Scanned wantListen tables procs s' := by
  constructor
  · intro key inode
    rw [hsockets]
    exact h.sockets key inode
  · intro netns data
    rw [hconns]
    exact h.conns netns data

theorem sockets_assign (s : ProcScan) (key key' : String × ℕ) (m : AssocMap ℕ ℕ) :
    ProcScan.sockets { s with socketsByContainerAndNS := s.socketsByContainerAndNS.assign key m }
      key' = if key = key' then m else s.sockets key' := by
  unfold ProcScan.sockets
  dsimp only
  rw [AssocMap.find?_assign]
  by_cases hkey : key = key' <;> simp [hkey]

/-- The tables of a namespace become known if they are not and the process can read them. -/
theorem find?_readTables (container : String) {netns : ℕ} (hkey : p.key = some (container, netns))
    (hp : Consistent tables [p]) (netns' : ℕ) (data : NSNetworkData) :
    (s.readTables wantListen p netns).connsByNS.find? netns' = some data ↔
      s.connsByNS.find? netns' = some data ∨
        netns' = netns ∧ s.connsByNS.find? netns = none ∧ p.canRead = true ∧
          data = (tables netns).data wantListen := by
  unfold ProcScan.readTables
  by_cases hknown : s.connsByNS.contains netns = true
  · rw [if_pos hknown]
    rw [AssocMap.contains_eq, Option.isSome_iff_ne_none] at hknown
    tauto
  · rw [if_neg hknown]
    have hnone : s.connsByNS.find? netns = none := by
      rw [AssocMap.contains_eq] at hknown
      simpa using hknown
    have hfst := p.getConnections_fst wantListen
    rcases hp p (by simp) container netns hkey with ⟨htcp, htcp6⟩ | ⟨hread, hagain⟩
    · have hread : p.canRead = true := by
        unfold ProcEntry.canRead
        rw [htcp, htcp6]
        rfl
      have hdata : (getConnections wantListen p.tcp p.tcp6).2 = (tables netns).data wantListen := by
        rw [htcp, htcp6]
        rfl
      simp only [hfst, hread, hdata, Bool.not_true, Bool.false_eq_true, false_and, if_false,
        AssocMap.find?_insert, true_and, hnone]
      by_cases hne : netns = netns'
      · subst hne
        simp [hnone, eq_comm]
      · simp [hne, Ne.symm hne]
    · simp only [hfst, hread, Bool.not_false, true_and, hagain, ne_eq, not_false_eq_true, if_true,
        Bool.false_eq_true, false_and, and_false, or_false]

/-- The sockets of a container in a namespace are empty until it has a holder there. -/
theorem Scanned.size_eq_zero_iff (h : Scanned wantListen tables procs s) (key : String × ℕ) :
    (s.sockets key).size = 0 ↔ firstHolder procs key = none := by
  rw [AssocMap.size_eq_zero_iff, firstHolder_eq_none_iff]
  refine forall_congr' fun inode => ?_
  rw [← h.sockets, Bool.not_eq_true]

theorem size_getSocketINodes (pid : ℕ) (inodes : List ℕ) {m : AssocMap ℕ ℕ} (hm : m.size = 0) :
    (ProcScan.getSocketINodes pid inodes m).size ≠ 0 ↔ inodes ≠ [] := by
  rw [AssocMap.size_eq_zero_iff] at hm
  rw [ne_eq, AssocMap.size_eq_zero_iff, not_iff_not, List.eq_nil_iff_forall_not_mem]
  refine forall_congr' fun inode => ?_
  rw [← Bool.not_eq_true, contains_getSocketINodes, hm inode]
  simp

theorem sockets_readTables (netns : ℕ) (key : String × ℕ) :
    (s.readTables wantListen p netns).sockets key = s.sockets key := by
  unfold ProcScan.readTables
  dsimp only
  split_ifs <;> rfl

theorem Scanned.unknown_iff (h : Scanned wantListen tables procs s) (netns : ℕ) :
    s.connsByNS.find? netns = none ↔ ¬ NamespaceRead procs netns := by
  constructor
  · intro hfind hread
    have hsome := (h.conns netns _).mpr ⟨hread, rfl⟩
    rw [hfind] at hsome
    cases hsome
  · intro hread
    cases hfind : s.connsByNS.find? netns with
    | none => rfl
    | some data => exact absurd ((h.conns netns data).mp hfind).1 hread

theorem inodesAt_eq {key : String × ℕ} (hkey : p.key = some key) {inodes : List ℕ}
    (hinodes : p.socketInodes = some inodes) (key' : String × ℕ) :
    p.inodesAt key' = if key = key' then inodes else [] := by
  simp [ProcEntry.inodesAt, hkey, hinodes]

/-- The process is the first to hold sockets of some container only where it runs. -/
theorem exists_firstHolder_iff {key : String × ℕ} (hkey : p.key = some key) {inodes : List ℕ}
    (hinodes : p.socketInodes = some inodes) (procs : List ProcEntry) (netns : ℕ) :
    (∃ container, firstHolder procs (container, netns) = none ∧
        p.inodesAt (container, netns) ≠ []) ↔
      netns = key.2 ∧ firstHolder procs key = none ∧ inodes ≠ [] := by
  constructor
  · rintro ⟨container, hnone, hne⟩
    rw [inodesAt_eq hkey hinodes] at hne
    split_ifs at hne with heq
    · rw [heq]
      exact ⟨rfl, hnone, hne⟩
    · exact absurd rfl hne
  · rintro ⟨rfl, hnone, hne⟩
    refine ⟨key.1, hnone, ?_⟩
    rw [inodesAt_eq hkey hinodes, if_pos rfl]
    exact hne

theorem Scanned.append_holder (h : Scanned wantListen tables procs s) (hp : Consistent tables [p])
    {key : String × ℕ} (hkey : p.key = some key) {inodes : List ℕ}
    (hinodes : p.socketInodes = some inodes) :
    Scanned wantListen tables (procs ++ [p]) (s.step wantListen p) := by
  set after := ProcScan.getSocketINodes p.pid inodes (s.sockets key) with hafter
  set s' : ProcScan := { s with
    socketsByContainerAndNS := s.socketsByContainerAndNS.assign key after }
  have hstep : s.step wantListen p =
      if (s.sockets key).size = 0 ∧ after.size ≠ 0 then s'.readTables wantListen p key.2
      else s' := by
    simp only [ProcScan.step, hkey, hinodes, s', hafter]
  constructor
  · intro key' inode
    have hsockets : (s.step wantListen p).sockets key' = s'.sockets key' := by
      rw [hstep]
      split_ifs
      · exact sockets_readTables key.2 key'
      · rfl
    rw [hsockets, sockets_assign, held_append, inodesAt_eq hkey hinodes, ← h.sockets]
    split_ifs with heq
    · subst heq
      exact contains_getSocketINodes p.pid inodes _ inode
    · simp
  · intro netns data
    have hfirst : ((s.sockets key).size = 0 ∧ after.size ≠ 0) ↔
        firstHolder procs key = none ∧ inodes ≠ [] := by
      rw [h.size_eq_zero_iff]
      refine and_congr_right fun hnone => ?_
      exact size_getSocketINodes p.pid inodes ((h.size_eq_zero_iff key).mpr hnone)
    rw [namespaceRead_append, exists_firstHolder_iff hkey hinodes, hstep]
    by_cases hholder : firstHolder procs key = none ∧ inodes ≠ []
    · have hsame : s'.connsByNS = s.connsByNS := rfl
      rw [if_pos (hfirst.mpr hholder), find?_readTables key.1 hkey hp, hsame,
        h.conns, h.unknown_iff]
      constructor
      · rintro (⟨hread, hdata⟩ | ⟨rfl, -, hread, hdata⟩)
        · exact ⟨Or.inl hread, hdata⟩
        · exact ⟨Or.inr ⟨hread, rfl, hholder⟩, hdata⟩
      · rintro ⟨hread | ⟨hread, rfl, -⟩, hdata⟩
        · exact Or.inl ⟨hread, hdata⟩
        · by_cases hbefore : NamespaceRead procs key.2
          · exact Or.inl ⟨hbefore, hdata⟩
          · exact Or.inr ⟨rfl, hbefore, hread, hdata⟩
    · rw [if_neg fun hboth => hholder (hfirst.mp hboth)]
      simp only [hholder, and_false, or_false]
      exact h.conns netns data

theorem scanned_step (h : Scanned wantListen tables procs s) (hp : Consistent tables [p]) :
    Scanned wantListen tables (procs ++ [p]) (s.step wantListen p) := by
  cases hkey : p.key with
  | none =>
    have hidle : ∀ key, p.inodesAt key = [] := by simp [ProcEntry.inodesAt, hkey]
    have hstep : s.step wantListen p = s := by simp [ProcScan.step, hkey]
    rw [hstep]
    exact h.append_idle hidle
  | some key =>
    cases hinodes : p.socketInodes with
    | none =>
      have hidle : ∀ key, p.inodesAt key = [] := by simp [ProcEntry.inodesAt, hinodes]
      refine (h.append_idle hidle).congr (fun key' => ?_) ?_
      · simp only [ProcScan.step, hkey, hinodes]
        rw [sockets_assign]
        split_ifs with heq
        · rw [heq]
        · rfl
      · simp only [ProcScan.step, hkey, hinodes]
    | some inodes => exact h.append_holder hp hkey hinodes

theorem scanned_scanProcesses (wantListen : Bool) (hprocs : Consistent tables procs) :
    Scanned wantListen tables procs (scanProcesses wantListen procs) := by
  unfold scanProcesses
  induction procs using List.reverseRecOn with
  | nil => exact scanned_empty
  | append_singleton procs p ih =>
    have hbefore : Consistent tables procs := fun q hq => hprocs q (List.mem_append_left _ hq)
    have hp : Consistent tables [p] := fun q hq => hprocs q (List.mem_append_right _ hq)
    rw [List.foldl_append]
    exact scanned_step (ih hbefore) hp

end Scan

def Report.socket (r : Report) : (String × ℕ) × ℕ := ((r.container, r.netns), r.inode)

theorem reportOf_eq_some_iff (key : String × ℕ) (data : NSNetworkData) (inode : ℕ) (r : Report) :
    reportOf key data inode = some r ↔
      r.socket = (key, inode) ∧ ∃ info, data.connections.find? inode = some info ∧
        r.connection = .new key.1 info.localEp info.remote info.l4proto info.isServer ∧
        isRelevantConnection r.connection = true := by
  unfold reportOf
  cases data.connections.find? inode with
  | none => simp
  | some info =>
    obtain ⟨container, netns, i, connection⟩ := r
    simp only [Option.some.injEq, exists_eq_left', Report.socket, Prod.mk.injEq]
    split_ifs with hrelevant
    · constructor
      · intro h
        cases h
      · rintro ⟨-, rfl, hr⟩
        simp [hr] at hrelevant
    · simp only [Bool.not_eq_true, Bool.not_eq_false'] at hrelevant
      constructor
      · intro h
        cases h
        exact ⟨⟨rfl, rfl⟩, rfl, hrelevant⟩
      · rintro ⟨⟨rfl, rfl⟩, rfl, -⟩
        rfl

/-- A report stands for a socket that is filed and for a namespace whose tables are known. -/
theorem mem_reports_iff (s : ProcScan) (r : Report) :
    r ∈ s.reports ↔ ∃ data, s.connsByNS.find? r.netns = some data ∧
      (s.sockets (r.container, r.netns)).contains r.inode = true ∧
      reportOf (r.container, r.netns) data r.inode = some r := by
  unfold ProcScan.reports ProcScan.resolve
  rw [List.mem_flatMap]
  constructor
  · rintro ⟨e, he, hr⟩
    split at hr
    · cases hr
    · rename_i data hdata
      obtain ⟨socket, hsocket, hreport⟩ := List.mem_filterMap.mp hr
      have hat := ((reportOf_eq_some_iff _ _ _ _).mp hreport).1
      simp only [Report.socket, Prod.mk.injEq] at hat
      obtain ⟨hkey, hinode⟩ := hat
      have hnetns : r.netns = e.1.2 := by rw [← hkey]
      have hsockets : s.sockets e.1 = e.2 := by
        unfold ProcScan.sockets
        rw [s.socketsByContainerAndNS.find?_of_mem he]
        rfl
      rw [hkey, hinode, hnetns]
      refine ⟨data, hdata, ?_, hreport⟩
      rw [hsockets, AssocMap.contains_eq, e.2.find?_of_mem hsocket]
      rfl
  · rintro ⟨data, hdata, hcontains, hreport⟩
    cases hfind : s.socketsByContainerAndNS.find? (r.container, r.netns) with
    | none => simp [ProcScan.sockets, hfind, AssocMap.contains_eq] at hcontains
    | some sockets =>
      obtain ⟨e, he, hkey, rfl⟩ := (AssocMap.find?_eq_some_iff _ _ _).mp hfind
      rw [beq_iff_eq] at hkey
      have hsockets : s.sockets (r.container, r.netns) = e.2 := by
        simp [ProcScan.sockets, hfind]
      rw [hsockets, AssocMap.contains_eq, Option.isSome_iff_exists] at hcontains
      obtain ⟨pid, hpid⟩ := hcontains
      obtain ⟨socket, hsocket, hinode, -⟩ := (AssocMap.find?_eq_some_iff _ _ _).mp hpid
      rw [beq_iff_eq] at hinode
      refine ⟨e, he, ?_⟩
      rw [hkey]
      simp only [hdata]
      exact List.mem_filterMap.mpr ⟨socket, hsocket, by rw [hinode]; exact hreport⟩

theorem nodup_reports (s : ProcScan) : (s.reports.map Report.socket).Nodup := by
  unfold List.Nodup
  rw [List.pairwise_map]
  unfold ProcScan.reports ProcScan.resolve
  rw [List.pairwise_flatMap]
  constructor
  · intro e _
    split
    · exact List.Pairwise.nil
    · refine List.pairwise_filterMap.mpr (e.2.distinct.imp fun hne r hr r' hr' heq => ?_)
      rw [((reportOf_eq_some_iff _ _ _ _).mp hr).1, ((reportOf_eq_some_iff _ _ _ _).mp hr').1] at heq
      simp only [Prod.mk.injEq, true_and] at heq
      simp [heq] at hne
  · refine s.socketsByContainerAndNS.distinct.imp fun {e e'} hne r hr r' hr' heq => ?_
    split at hr
    · cases hr
    · split at hr'
      · cases hr'
      · obtain ⟨_, _, hr⟩ := List.mem_filterMap.mp hr
        obtain ⟨_, _, hr'⟩ := List.mem_filterMap.mp hr'
        rw [((reportOf_eq_some_iff _ _ _ _).mp hr).1, ((reportOf_eq_some_iff _ _ _ _).mp hr').1] at heq
        simp only [Prod.mk.injEq] at heq
        simp [heq.1] at hne

/-- A relevant established connection of the namespace whose socket the container holds. -/
def Expected (tables : ℕ → Tables) (procs : List ProcEntry) (r : Report) : Prop :=
  Held procs (r.container, r.netns) r.inode ∧
    ∃ info, (tables r.netns).Shows r.inode info ∧
      r.connection = .new r.container info.localEp info.remote info.l4proto info.isServer ∧
      isRelevantConnection r.connection = true

/-- An observed process of the container in the namespace holds a socket and can read the
tables. -/
def CouldRead (procs : List ProcEntry) (key : String × ℕ) : Prop :=
  ∃ p ∈ procs, p.inodesAt key ≠ [] ∧ p.canRead = true

structure ScanExact (tables : ℕ → Tables) (procs : List ProcEntry) (reports : List Report) :
    Prop where
  complete : ∀ key, CouldRead procs key →
    ∀ r, r.socket.1 = key → Expected tables procs r → r ∈ reports
  sound : ∀ r ∈ reports, Expected tables procs r
  once : (reports.map Report.socket).Nodup

/-- Exactly the expected connections of the namespaces that were read are reported. -/
theorem mem_reports_scanProcesses (wantListen : Bool) {tables : ℕ → Tables}
    {procs : List ProcEntry} (h : Consistent tables procs) (r : Report) :
    r ∈ (scanProcesses wantListen procs).reports ↔
      NamespaceRead procs r.netns ∧ Expected tables procs r := by
  have hscanned := scanned_scanProcesses wantListen h
  rw [mem_reports_iff]
  simp only [hscanned.conns, hscanned.sockets, reportOf_eq_some_iff, Expected]
  constructor
  · rintro ⟨data, ⟨hread, rfl⟩, hheld, -, info, hinfo, hconn⟩
    rw [find?_tables] at hinfo
    exact ⟨hread, hheld, info, hinfo, hconn⟩
  · rintro ⟨hread, hheld, info, hinfo, hconn⟩
    rw [← find?_tables wantListen] at hinfo
    exact ⟨_, ⟨hread, rfl⟩, hheld, rfl, info, hinfo, hconn⟩

/-- The scan is sound and reports no socket twice. It is complete exactly when, for every
container and namespace with a holder that could read the tables, the first holder of some
container in the namespace could read them, or there is nothing to report. -/
theorem scan_exact_iff (processStore : Option (ℕ → IProcess)) (wantListen : Bool)
    (tables : ℕ → Tables) (procs : List ProcEntry) (h : Consistent tables procs) :
    (readContainerConnections processStore wantListen (some procs)).map Prod.fst =
      some ((scanProcesses wantListen procs).reports.map Report.connection) ∧
    (ScanExact tables procs (scanProcesses wantListen procs).reports ↔
      ∀ key, CouldRead procs key → NamespaceRead procs key.2 ∨
        ∀ r : Report, r.socket.1 = key → ¬ Expected tables procs r) := by
  have hmem := mem_reports_scanProcesses wantListen h
  refine ⟨rfl, ?_⟩
  constructor
  · intro hexact key hread
    by_cases hns : NamespaceRead procs key.2
    · exact Or.inl hns
    · refine Or.inr fun r hkey hexpected => hns ?_
      have hreported := hexact.complete key hread r hkey hexpected
      rw [← hkey]
      exact ((hmem r).mp hreported).1
  · intro hcond
    refine ⟨?_, fun r hr => ((hmem r).mp hr).2, nodup_reports _⟩
    intro key hread r hkey hexpected
    rcases hcond key hread with hns | hnone
    · rw [← hkey] at hns
      exact (hmem r).mpr ⟨hns, hexpected⟩
    · exact absurd hexpected (hnone r hkey)

/-- A client 10.0.0.2 that is connected to port 80 of 10.0.0.1. -/
def webLine : ConnLineData :=
  ⟨.ofAddress (.ofBytes 10 0 0 1) 80, .ofAddress (.ofBytes 10 0 0 2) 45000, tcpEstablished, 42, rfl⟩

def webTables (_ : ℕ) : Tables := ([some webLine], [])

/-- A worker of the container `web`, with the connection's socket. -/
def webWorker : ProcEntry :=
  ⟨2, true, some 'S', some "web", some 7, some [42], .lines [some webLine], .lines [], some 7⟩

/-- Its parent with the same socket, which exits while it is scanned. -/
def webParent : ProcEntry :=
  ⟨1, true, some 'S', some "web", some 7, some [42], .missing, .missing, none⟩

theorem consistent_web : Consistent webTables [webParent, webWorker] := by
  intro p hp container netns _
  rcases List.mem_cons.mp hp with rfl | hp
  · exact Or.inr ⟨rfl, by simp [webParent]⟩
  · cases List.mem_singleton.mp hp
    exact Or.inl ⟨rfl, rfl⟩

theorem scan_exact_webWorker :
    ScanExact webTables [webWorker] (scanProcesses true [webWorker]).reports := by
  have hconsistent : Consistent webTables [webWorker] := fun p hp =>
    consistent_web p (List.mem_cons_of_mem _ hp)
  refine (scan_exact_iff none true webTables [webWorker] hconsistent).2.mpr ?_
  rintro ⟨container, netns⟩ ⟨p, hp, hne, -⟩
  cases List.mem_singleton.mp hp
  have hkey : webWorker.key = some (container, netns) := by
    by_contra hno
    simp [ProcEntry.inodesAt, hno] at hne
  cases hkey
  exact Or.inl ⟨"web", webWorker, rfl, rfl⟩

/-- The worker could read the tables, yet the connection is not reported because its parent was
met first and could not. -/
theorem vanished_parent_hides_connection :
    Consistent webTables [webParent, webWorker] ∧
    CouldRead [webParent, webWorker] ("web", 7) ∧
    (scanProcesses true [webParent, webWorker]).reports = [] ∧
    ¬ ScanExact webTables [webParent, webWorker]
      (scanProcesses true [webParent, webWorker]).reports := by
  have hread : CouldRead [webParent, webWorker] ("web", 7) :=
    ⟨webWorker, by simp, by decide, rfl⟩
  have hnone : (scanProcesses true [webParent, webWorker]).reports = [] := by decide
  have hexpected : Expected webTables [webParent, webWorker] ⟨"web", 7, 42,
      .new "web" webLine.localEp webLine.remote .tcp true⟩ := by
    refine ⟨⟨webWorker, by simp, by decide⟩, ⟨webLine.localEp, webLine.remote, .tcp, true⟩, ?_, rfl,
      by decide⟩
    refine Or.inr ⟨by simp [webTables], [], webLine, [], rfl, ⟨rfl, rfl, by decide⟩, by simp, ?_⟩
    decide
  refine ⟨consistent_web, hread, hnone, fun hexact => ?_⟩
  have hreported := hexact.complete _ hread _ rfl hexpected
  rw [hnone] at hreported
  cases hreported

end AcsNext.Collector
