import AcsNext.Data.AssocMap

/-! The names of kernel events, the system calls behind them, and the maps that are keyed by
event. The tables come from the driver's library, so the results hold of any tables. -/
namespace AcsNext.Collector
open AcsNext.Data

/-- `g_event_info` and `PPME_IS_ENTER`, over the event codes below `PPM_EVENT_MAX`. -/
structure EventInfoTable (n : ℕ) where
  name : Fin n → String
  isEnter : Fin n → Bool

structure SyscallEvtPair where
  enterEventType : ℕ
  exitEventType : ℕ
  ppmSc : ℕ
deriving DecidableEq

structure DriverTables (n : ℕ) where
  events : EventInfoTable n
  syscalls : List SyscallEvtPair

variable {n : ℕ}

def EventInfoTable.directedName (t : EventInfoTable n) (i : Fin n) : String :=
  t.name i ++ if t.isEnter i then ">" else "<"

def EventInfoTable.called (t : EventInfoTable n) (name : String) (i : Fin n) : Bool :=
  t.name i == name || t.directedName i == name

theorem EventInfoTable.name_ne_directedName (t : EventInfoTable n) (i : Fin n) :
    t.name i ≠ t.directedName i := by
  intro h
  have hlength := congrArg String.length h
  simp only [directedName, String.length_append] at hlength
  split_ifs at hlength <;> simp at hlength

structure EventNames (n : ℕ) where
  eventsByName : AssocMap String (List (Fin n))
  namesById : Fin n → String
  syscallById : Fin n → ℕ

def pushBackAt (m : AssocMap String (List (Fin n))) (name : String) (event : Fin n) :
    AssocMap String (List (Fin n)) :=
  m.assign name ((m.find? name).getD [] ++ [event])

namespace EventNames

def addEvent (t : EventInfoTable n) (m : AssocMap String (List (Fin n))) (i : Fin n) :
    AssocMap String (List (Fin n)) :=
  pushBackAt (pushBackAt m (t.name i) i) (t.directedName i) i

/-- The second loop of the constructor; it throws on an event that does not exist. -/
def addSyscalls : List SyscallEvtPair → ℕ → (Fin n → ℕ) → Option (Fin n → ℕ)
  | [], _, syscallById => some syscallById
  | s :: rest, k, syscallById =>
    if hin : s.enterEventType < n then
      if hout : s.exitEventType < n then
        addSyscalls rest (k + 1)
          (Function.update (Function.update syscallById ⟨s.enterEventType, hin⟩ k)
            ⟨s.exitEventType, hout⟩ k)
      else none
    else none

def new (t : DriverTables n) : Option (EventNames n) :=
  (addSyscalls t.syscalls 0 fun _ => 0).map fun syscallById =>
    ⟨(List.finRange n).foldl (addEvent t.events) ∅, t.events.name, syscallById⟩

/-- Throws on an unknown name. -/
def getEventIDs (names : EventNames n) (name : String) : Option (List (Fin n)) :=
  names.eventsByName.find? name

def getEventSyscallID (names : EventNames n) (i : Fin n) : ℕ := names.syscallById i

end EventNames

private theorem find?_pushBackAt (m : AssocMap String (List (Fin n))) (name q : String)
    (i : Fin n) : (pushBackAt m name i).find? q =
      if name = q then some ((m.find? q).getD [] ++ [i]) else m.find? q := by
  rw [pushBackAt, AssocMap.find?_assign]
  by_cases h : name = q
  · simp [h]
  · simp [h]

private theorem find?_addEvent (t : EventInfoTable n) (m : AssocMap String (List (Fin n)))
    (i : Fin n) (q : String) : (EventNames.addEvent t m i).find? q =
      if t.called q i then some ((m.find? q).getD [] ++ [i]) else m.find? q := by
  rw [EventNames.addEvent, find?_pushBackAt, find?_pushBackAt]
  have hne := t.name_ne_directedName i
  unfold EventInfoTable.called
  by_cases hname : t.name i = q
  · have hdirected : t.directedName i ≠ q := fun h => hne (hname.trans h.symm)
    simp [hname, hdirected]
  · by_cases hdirected : t.directedName i = q <;> simp [hname, hdirected]

private theorem getD_find?_foldl_addEvent (t : EventInfoTable n) (l : List (Fin n)) (q : String) :
    ((l.foldl (EventNames.addEvent t) ∅).find? q).getD [] = l.filter (t.called q) ∧
      ((l.foldl (EventNames.addEvent t) ∅).find? q = none ↔ l.filter (t.called q) = []) := by
  induction l using List.reverseRecOn with
  | nil => simp
  | append_singleton l i ih =>
    rw [List.foldl_append, List.foldl_cons, List.foldl_nil, find?_addEvent, List.filter_append]
    by_cases h : t.called q i = true
    · simp [h, ih.1]
    · simp [h, ih]

/-- An event is listed exactly under its name and under its name with its direction. -/
theorem EventNames.mem_getEventIDs {t : DriverTables n} {names : EventNames n}
    (hnew : EventNames.new t = some names) {name : String} {ids : List (Fin n)}
    (hids : names.getEventIDs name = some ids) (i : Fin n) :
    i ∈ ids ↔ t.events.called name i = true := by
  obtain ⟨syscallById, -, rfl⟩ := Option.map_eq_some_iff.mp hnew
  have hlist := (getD_find?_foldl_addEvent t.events (List.finRange n) name).1
  simp only [EventNames.getEventIDs] at hids
  rw [hids, Option.getD_some] at hlist
  simp [hlist]

theorem EventNames.getEventIDs_eq_none_iff {t : DriverTables n} {names : EventNames n}
    (hnew : EventNames.new t = some names) (name : String) :
    names.getEventIDs name = none ↔ ∀ i, t.events.called name i = false := by
  obtain ⟨syscallById, -, rfl⟩ := Option.map_eq_some_iff.mp hnew
  have hnone := (getD_find?_foldl_addEvent t.events (List.finRange n) name).2
  simp only [EventNames.getEventIDs]
  rw [hnone, List.filter_eq_nil_iff]
  simp

def EventNames.set {T : Type*} (names : EventNames n) (values : Fin n → T) (name : String)
    (value : T) : Option (Fin n → T) :=
  (names.getEventIDs name).map fun ids i => if i ∈ ids then value else values i

def EventNames.eventMap {T : Type*} (names : EventNames n) (init : List (String × T))
    (initVal : T) : Option (Fin n → T) :=
  init.foldlM (fun values pair => names.set values pair.1 pair.2) fun _ => initVal

/-- The last pair whose name the event has decides its value. -/
theorem EventNames.eventMap_apply {T : Type*} {t : DriverTables n} {names : EventNames n}
    (hnew : EventNames.new t = some names) {init : List (String × T)} {initVal : T}
    {values : Fin n → T} (hmap : names.eventMap init initVal = some values) (i : Fin n) :
    values i = (init.foldl (fun v pair => if t.events.called pair.1 i then pair.2 else v)
      initVal) := by
  induction init using List.reverseRecOn generalizing values with
  | nil =>
    obtain rfl : (fun _ => initVal) = values := by simpa [eventMap] using hmap
    rfl
  | append_singleton init pair ih =>
    simp only [eventMap, List.foldlM_append, List.foldlM_cons, List.foldlM_nil] at hmap
    obtain ⟨before, hbefore, hset⟩ := Option.bind_eq_some_iff.mp hmap
    have hset : names.set before pair.1 pair.2 = some values := by simpa using hset
    obtain ⟨ids, hids, rfl⟩ := Option.map_eq_some_iff.mp hset
    simp only [List.foldl_append, List.foldl_cons, List.foldl_nil, ih hbefore,
      mem_getEventIDs hnew hids]

def kSyscalls : List String :=
  ["accept", "accept4", "chdir", "clone", "clone3", "close", "connect", "execve", "fchdir",
    "fork", "getsockopt", "procexit", "procinfo", "setresgid", "setresuid", "setgid", "setuid",
    "shutdown", "socket", "vfork"]

def kSendRecvSyscalls : List String :=
  ["sendto", "sendmsg", "sendmmsg", "recvfrom", "recvmsg", "recvmmsg"]

/-- `CollectorConfig::Syscalls` on a host other than s390x. -/
def configSyscalls (trackSendRecv : Bool) : List String :=
  kSyscalls ++ if trackSendRecv then kSendRecvSyscalls else []

def EventNames.insertSyscalls (names : EventNames n) (table : List SyscallEvtPair)
    (ppmSc : Finset ℕ) (ids : List (Fin n)) : Finset ℕ :=
  ids.foldl (fun acc i =>
    if names.getEventSyscallID i = 0 then acc
    else match table[names.getEventSyscallID i]? with
      | none => acc
      | some syscall => insert syscall.ppmSc acc) ppmSc

/-- `GetSyscallList`; the two tracepoints are always captured. -/
def EventNames.getSyscallList (names : EventNames n) (table : List SyscallEvtPair)
    (procExit schedSwitch : ℕ) (syscalls : List String) : Option (Finset ℕ) :=
  (syscalls.foldlM (fun acc syscall =>
    (names.getEventIDs syscall).map (names.insertSyscalls table acc)) ∅).map fun ppmSc =>
      insert schedSwitch (insert procExit ppmSc)

/-- The driver is asked to capture the system call behind the event. -/
def EventNames.Captured (names : EventNames n) (table : List SyscallEvtPair) (ppmSc : Finset ℕ)
    (i : Fin n) : Prop :=
  ∀ syscall, names.getEventSyscallID i ≠ 0 → table[names.getEventSyscallID i]? = some syscall →
    syscall.ppmSc ∈ ppmSc

private theorem subset_insertSyscalls (names : EventNames n) (table : List SyscallEvtPair)
    (acc : Finset ℕ) (ids : List (Fin n)) : acc ⊆ names.insertSyscalls table acc ids := by
  unfold EventNames.insertSyscalls
  induction ids generalizing acc with
  | nil => exact Finset.Subset.refl _
  | cons i ids ih =>
    rw [List.foldl_cons]
    refine Finset.Subset.trans ?_ (ih _)
    split_ifs
    · exact Finset.Subset.refl _
    · split
      · exact Finset.Subset.refl _
      · exact Finset.subset_insert _ _

private theorem captured_of_subset {names : EventNames n} {table : List SyscallEvtPair}
    {acc acc' : Finset ℕ} {i : Fin n} (h : names.Captured table acc i) (hsub : acc ⊆ acc') :
    names.Captured table acc' i := by
  intro syscall hne hget
  exact hsub (h syscall hne hget)

private theorem captured_insertSyscalls {names : EventNames n} (table : List SyscallEvtPair)
    (acc : Finset ℕ) {ids : List (Fin n)} {i : Fin n} (hi : i ∈ ids) :
    names.Captured table (names.insertSyscalls table acc ids) i := by
  induction ids generalizing acc with
  | nil => simp at hi
  | cons j ids ih =>
    rcases List.mem_cons.mp hi with rfl | hi
    · apply captured_of_subset _ (subset_insertSyscalls names table _ ids)
      intro syscall hne hget
      simp [hne, hget]
    · exact ih _ hi

theorem EventNames.captured_of_mem_syscalls {names : EventNames n} {table : List SyscallEvtPair}
    {procExit schedSwitch : ℕ} {syscalls : List String} {ppmSc : Finset ℕ}
    (hlist : names.getSyscallList table procExit schedSwitch syscalls = some ppmSc)
    {syscall : String} (hmem : syscall ∈ syscalls) {ids : List (Fin n)}
    (hids : names.getEventIDs syscall = some ids) {i : Fin n} (hi : i ∈ ids) :
    names.Captured table ppmSc i := by
  obtain ⟨collected, hfold, rfl⟩ := Option.map_eq_some_iff.mp hlist
  suffices hcollected : names.Captured table collected i by
    apply captured_of_subset hcollected
    exact (Finset.subset_insert _ _).trans (Finset.subset_insert _ _)
  clear hlist
  induction syscalls using List.reverseRecOn generalizing collected with
  | nil => simp at hmem
  | append_singleton syscalls last ih =>
    simp only [List.foldlM_append, List.foldlM_cons, List.foldlM_nil] at hfold
    obtain ⟨before, hbefore, hlast⟩ := Option.bind_eq_some_iff.mp hfold
    have hlast : (names.getEventIDs last).map (names.insertSyscalls table before) =
        some collected := by simpa using hlast
    obtain ⟨lastIds, hlastIds, rfl⟩ := Option.map_eq_some_iff.mp hlast
    rcases List.mem_append.mp hmem with hmem | hmem
    · apply captured_of_subset (ih hmem before hbefore)
      exact subset_insertSyscalls names table before lastIds
    · obtain rfl := List.mem_singleton.mp hmem
      obtain rfl : ids = lastIds := Option.some.inj (hids.symm.trans hlastIds)
      exact captured_insertSyscalls table before hi

def processRelevantEvents : List String := ["execve<"]

def selfCheckProcessRelevantEvents : List String := ["execve<"]

def selfCheckNetworkRelevantEvents : List String :=
  ["close<", "shutdown<", "connect<", "accept<", "listen<"]

def networkRelevantEvents (trackSendRecv : Bool) : List String :=
  ["close<", "shutdown<", "connect<", "accept<", "accept4<", "getsockopt<"] ++
    if trackSendRecv then
      ["sendto<", "sendto>", "sendmsg<", "sendmsg>", "sendmmsg<", "recvfrom<", "recvfrom>",
        "recvmsg<", "recvmsg>", "recvmmsg<", "recvmmsg>", "recvmsg<", "recvmsg>"]
    else []

inductive Modifier where
  | invalid
  | add
  | remove
deriving DecidableEq, Repr

def modifierInit : List (String × Modifier) :=
  [("close<", .remove), ("shutdown<", .remove), ("connect<", .add), ("accept<", .add),
    ("accept4<", .add), ("getsockopt<", .add), ("sendto<", .add), ("sendto>", .add),
    ("sendmsg<", .add), ("sendmsg>", .add), ("sendmmsg<", .add), ("recvfrom<", .add),
    ("recvfrom>", .add), ("recvmsg<", .add), ("recvmsg>", .add), ("recvmmsg<", .add),
    ("recvmmsg>", .add)]

def EventNames.modifiers (names : EventNames n) : Option (Fin n → Modifier) :=
  names.eventMap modifierInit .invalid

/-- No event name of the driver holds a direction. -/
def EventInfoTable.PlainNames (t : EventInfoTable n) : Prop :=
  ∀ i, '<' ∉ (t.name i).toList ∧ '>' ∉ (t.name i).toList

/-- A name with a direction, and the system call that it is the entry or the exit of. -/
def withDirections (syscalls : List String) : List String :=
  syscalls.flatMap fun syscall => [syscall ++ "<", syscall ++ ">"]

private theorem name_ne_of_mem_withDirections {t : EventInfoTable n} (hplain : t.PlainNames)
    {syscalls : List String} {name : String} (h : name ∈ withDirections syscalls) (i : Fin n) :
    t.name i ≠ name := by
  obtain ⟨syscall, -, hname⟩ := List.mem_flatMap.mp h
  rintro rfl
  obtain ⟨hexit, henter⟩ := hplain i
  simp only [List.mem_cons, List.not_mem_nil, or_false] at hname
  rcases hname with hname | hname
  · rw [hname] at hexit
    simp at hexit
  · rw [hname] at henter
    simp at henter

/-- Of names with a direction, an event has one only. -/
private theorem called_iff_of_mem_withDirections {t : EventInfoTable n} (hplain : t.PlainNames)
    {syscalls : List String} {name : String} (h : name ∈ withDirections syscalls) (i : Fin n) :
    t.called name i = true ↔ t.directedName i = name := by
  simp [EventInfoTable.called, name_ne_of_mem_withDirections hplain h i]

private theorem append_char_inj {a b : String} {c d : Char}
    (h : a ++ String.singleton c = b ++ String.singleton d) : a = b := by
  have hlist := congrArg String.toList h
  simp only [String.toList_append, String.toList_singleton] at hlist
  exact String.toList_inj.mp (List.append_inj' hlist rfl).1

private theorem name_mem_of_directedName_mem {t : EventInfoTable n} {syscalls : List String}
    {i : Fin n} (h : t.directedName i ∈ withDirections syscalls) : t.name i ∈ syscalls := by
  obtain ⟨syscall, hmem, hname⟩ := List.mem_flatMap.mp h
  suffices heq : t.name i = syscall by rwa [heq]
  simp only [List.mem_cons, List.not_mem_nil, or_false, EventInfoTable.directedName] at hname
  rcases hname with hname | hname
  · split_ifs at hname
    · exact append_char_inj (c := '>') (d := '<') hname
    · exact append_char_inj (c := '<') (d := '<') hname
  · split_ifs at hname
    · exact append_char_inj (c := '>') (d := '>') hname
    · exact append_char_inj (c := '<') (d := '>') hname

private theorem captured_of_directed {t : DriverTables n} (hplain : t.events.PlainNames)
    {names : EventNames n} (hnew : EventNames.new t = some names) {procExit schedSwitch : ℕ}
    {syscalls : List String} {ppmSc : Finset ℕ}
    (hlist : names.getSyscallList t.syscalls procExit schedSwitch syscalls = some ppmSc)
    {name : String} (hname : name ∈ withDirections syscalls) {ids : List (Fin n)}
    (hids : names.getEventIDs name = some ids) {i : Fin n} (hi : i ∈ ids) :
    names.Captured t.syscalls ppmSc i := by
  have hcalled : t.events.called name i = true := (EventNames.mem_getEventIDs hnew hids i).mp hi
  obtain rfl := (called_iff_of_mem_withDirections hplain hname i).mp hcalled
  have hsyscall : t.events.name i ∈ syscalls := name_mem_of_directedName_mem hname
  have hself : t.events.called (t.events.name i) i = true := by simp [EventInfoTable.called]
  cases hfound : names.getEventIDs (t.events.name i) with
  | none =>
    have hnot := (EventNames.getEventIDs_eq_none_iff hnew _).mp hfound i
    simp [hself] at hnot
  | some found =>
    apply EventNames.captured_of_mem_syscalls hlist hsyscall hfound
    exact (EventNames.mem_getEventIDs hnew hfound i).mpr hself

private theorem foldl_modifierInit {t : EventInfoTable n} (hplain : t.PlainNames) (i : Fin n)
    (l : List (String × Modifier)) (hl : ∀ pair ∈ l, pair.1 ∈ modifierInit.map Prod.fst)
    (v : Modifier) :
    l.foldl (fun v pair => if t.called pair.1 i then pair.2 else v) v =
      l.foldl (fun v pair => if t.directedName i = pair.1 then pair.2 else v) v := by
  have hdirected : ∀ name ∈ modifierInit.map Prod.fst,
      name ∈ withDirections (kSyscalls ++ kSendRecvSyscalls) := by decide
  induction l generalizing v with
  | nil => rfl
  | cons pair l ih =>
    have hcalled := called_iff_of_mem_withDirections hplain
      (hdirected pair.1 (hl pair (by simp))) i
    rw [List.foldl_cons, List.foldl_cons, ih fun p hp => hl p (by simp [hp])]
    simp only [hcalled]

/-- Tables with an entry and an exit for each system call that is captured, and for two that
are not. -/
def sampleTables : DriverTables 56 where
  events :=
    { name := fun i => ("read" :: (kSyscalls ++ kSendRecvSyscalls ++ ["listen"])).getD (i / 2) ""
      isEnter := fun i => i.val % 2 == 0 }
  syscalls := (List.range 28).map fun k => ⟨2 * k, 2 * k + 1, 100 + k⟩

private theorem getEventIDs_sample {names : EventNames 56}
    (hnew : EventNames.new sampleTables = some names) {name : String} {i : Fin 56}
    (hcalled : sampleTables.events.called name i = true) :
    ∃ ids, names.getEventIDs name = some ids ∧ i ∈ ids := by
  cases hfound : names.getEventIDs name with
  | none =>
    have hnot := (EventNames.getEventIDs_eq_none_iff hnew name).mp hfound i
    simp [hcalled] at hnot
  | some ids => exact ⟨ids, rfl, (EventNames.mem_getEventIDs hnew hfound i).mpr hcalled⟩

end AcsNext.Collector
