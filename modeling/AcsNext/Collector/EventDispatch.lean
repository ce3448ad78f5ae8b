import AcsNext.Data.Pipeline
import AcsNext.Data.StringView
import AcsNext.Collector.NetworkSignalHandler
import AcsNext.Collector.ProcessSignalHandler

/-! The loop that takes events from the inspector and hands them to the signal handlers: the
two self-checks, the handler of process signals and the handler of network signals. -/
namespace AcsNext.Collector
open AcsNext.Data

variable {n : ℕ}

inductive HandlerName where
  | selfCheckProcessHandler
  | selfCheckNetworkHandler
  | processSignalHandler
  | networkSignalHandler
deriving DecidableEq, Repr

/-- A handler with its state; the self-checks know when they were started. -/
inductive Handler where
  | selfCheckProcess (start : ℤ)
  | selfCheckNetwork (start : ℤ)
  | process (h : ProcessSignalHandler)
  | network (h : NetworkSignalHandler)

def Handler.getName : Handler → HandlerName
  | .selfCheckProcess _ => .selfCheckProcessHandler
  | .selfCheckNetwork _ => .selfCheckNetworkHandler
  | .process _ => .processSignalHandler
  | .network _ => .networkSignalHandler

/-- What a call of a handler meets: the steady clock, and what a handler of process signals
reads and is answered. -/
structure CallEnv where
  steadyNow : ℤ
  surroundings : Surroundings

structure HandlerTables (n : ℕ) where
  protobuf : Protobuf
  modifiers : Fin n → Modifier
  processSignals : Fin n → Bool

def kSelfChecksName : Bytes := [115, 101, 108, 102, 45, 99, 104, 101, 99, 107, 115]

def kSelfChecksExePath : Bytes :=
  [47, 117, 115, 114, 47, 108, 111, 99, 97, 108, 47, 98, 105, 110, 47] ++ kSelfChecksName

def kSelfCheckServerPort : BitVec 16 := 13037

def isSelfCheckEvent (evt : InspectorEvt n) : Bool :=
  match evt.threadInfo with
  | none => false
  | some tinfo => tinfo.comm == kSelfChecksName && evt.exe == kSelfChecksExePath

/-- Five seconds on the steady clock. -/
def selfCheckTimeout : ℤ := 5000000000

def hasTimedOut (start now : ℤ) : Bool := start + selfCheckTimeout < now

def selfCheckProcessResult (start now : ℤ) (evt : InspectorEvt n) : SignalResult :=
  if hasTimedOut start now then .finished
  else if isSelfCheckEvent evt then .finished
  else .ignored

def selfCheckNetworkResult (start now : ℤ) (evt : InspectorEvt n) : SignalResult :=
  if hasTimedOut start now then .finished
  else if !isSelfCheckEvent evt then .ignored
  else
    match evt.serverPort, evt.clientPort with
    | some serverPort, some clientPort =>
      if serverPort == kSelfCheckServerPort && clientPort != -1 then .finished else .ignored
    | _, _ => .ignored

/-- What the formatter of process signals reads of the event. -/
def InspectorEvt.toSinspEvt (processSignals : Fin n → Bool) (evt : InspectorEvt n) : SinspEvt :=
  ⟨processSignals evt.type, evt.threadInfo, evt.procArgs, evt.ts⟩

namespace Handler

variable (tables : HandlerTables n)

def handleSignal (h : Handler) (env : CallEnv) (evt : InspectorEvt n) : SignalResult × Handler :=
  match h with
  | .selfCheckProcess start => (selfCheckProcessResult start env.steadyNow evt, h)
  | .selfCheckNetwork start => (selfCheckNetworkResult start env.steadyNow evt, h)
  | .process p =>
    let answer := p.handleSignal tables.protobuf env.surroundings
      (evt.toSinspEvt tables.processSignals)
    (answer.1, .process answer.2)
  | .network w =>
    let answer := w.handleSignal tables.modifiers evt
    (answer.1, .network answer.2)

/-- Only the handler of process signals looks at existing processes. -/
def handleExistingProcess (h : Handler) (env : CallEnv) (tinfo : ThreadInfo) :
    SignalResult × Handler :=
  match h with
  | .process p =>
    let answer := p.handleExistingProcess tables.protobuf env.surroundings tinfo
    (answer.1, .process answer.2)
  | _ => (.ignored, h)

end Handler

structure TableThread where
  tinfo : ThreadInfo
  isMainThread : Bool
  env : CallEnv

/-- What a handler meets while it deals with one event. There is no table of threads if the
thread manager is null. -/
structure HandlerPass where
  first : CallEnv
  threads : Option (List TableThread)
  retry : CallEnv

structure SignalHandlerEntry (n : ℕ) where
  handler : Handler
  eventFilter : Fin n → Bool

/-- The answers at which `SendExistingProcesses` gives up. -/
def SignalResult.refused (result : SignalResult) : Bool :=
  result == .error || result == .needsRefresh

/-- The loop of `SendExistingProcesses` over the table. -/
def sendExistingThreads (tables : HandlerTables n) :
    Handler → List TableThread → Bool × Handler
  | h, [] => (true, h)
  | h, thread :: rest =>
    if thread.tinfo.containerId ≠ [] ∧ thread.isMainThread = true then
      let answer := h.handleExistingProcess tables thread.env thread.tinfo
      if answer.1.refused then (false, answer.2)
      else sendExistingThreads tables answer.2 rest
    else sendExistingThreads tables h rest

def sendExistingProcesses (tables : HandlerTables n) (h : Handler)
    (threads : Option (List TableThread)) : Bool × Handler :=
  match threads with
  | none => (false, h)
  | some threads => sendExistingThreads tables h threads

structure TimestampCounters where
  distantPast : ℕ
  future : ℕ
deriving DecidableEq

def logUnreasonableEventTime (timeMicros : ℤ) (evt : InspectorEvt n) (c : TimestampCounters) :
    TimestampCounters :=
  let timeDiff := timeMicros - evt.ts / 1000
  let c := if timeDiff > 3600000000 then { c with distantPast := c.distantPast + 1 } else c
  if timeDiff < -5000000 then { c with future := c.future + 1 } else c

/-- The handlers in turn. The one that finishes is erased, and ends the loop. -/
def dispatchEvent (tables : HandlerTables n) (pass : HandlerName → HandlerPass)
    (processStart : ℤ) (evt : InspectorEvt n) :
    List (SignalHandlerEntry n) → TimestampCounters →
      List (SignalHandlerEntry n) × TimestampCounters
  | [], c => ([], c)
  | entry :: rest, c =>
    if !entry.eventFilter evt.type then
      let after := dispatchEvent tables pass processStart evt rest c
      (entry :: after.1, after.2)
    else
      let c := logUnreasonableEventTime processStart evt c
      let p := pass entry.handler.getName
      let continueWith (h : Handler) :=
        let after := dispatchEvent tables pass processStart evt rest c
        (⟨h, entry.eventFilter⟩ :: after.1, after.2)
      match entry.handler.handleSignal tables p.first evt with
      | (.needsRefresh, h) =>
        match sendExistingProcesses tables h p.threads with
        | (false, h) => continueWith h
        | (true, h) => continueWith (h.handleSignal tables p.retry evt).2
      | (.finished, _) => (rest, c)
      | (_, h) => continueWith h

def procSelf : Bytes := [47, 112, 114, 111, 99, 47, 115, 101, 108, 102]

def runcPaths : List Bytes :=
  [[114, 117, 110, 99], [47, 117, 115, 114, 47, 98, 105, 110, 47, 114, 117, 110, 99]]

/-- `Service::FilterEvent`; what precedes the last colon of the path does not count. -/
def filterEvent (tinfo : Option ThreadInfo) : Bool :=
  match tinfo with
  | none => false
  | some tinfo =>
    if tinfo.exepath ∈ runcPaths ∧ tinfo.comm = [54] then false
    else
      match rfindText [58] tinfo.exepath with
      | none => !procSelf.isPrefixOf tinfo.exepath
      | some marker => !procSelf.isPrefixOf (tinfo.exepath.drop (marker + 1))

structure Service (n : ℕ) where
  signalHandlers : List (SignalHandlerEntry n)
  globalEventFilter : Fin n → Bool
  nUserspaceEvents : Fin n → ℕ
  nFilteredEvents : Fin n → ℕ
  timestamps : TimestampCounters

/-- One turn of the loop of `Run`: what the inspector hands out, when its processing starts,
and what the handlers meet. -/
structure Iteration (n : ℕ) where
  next : Option (InspectorEvt n)
  processStart : ℤ
  pass : HandlerName → HandlerPass

/-- The bits that `AddSignalHandler` sets; it throws on an unknown event name. -/
def EventNames.eventBits (names : EventNames n) (relevantEvents : List String) :
    Option (Fin n → Bool) :=
  relevantEvents.foldlM (fun bits name => names.set bits name true) fun _ => false

namespace Service

def empty : Service n where
  signalHandlers := []
  globalEventFilter := fun _ => false
  nUserspaceEvents := fun _ => 0
  nFilteredEvents := fun _ => 0
  timestamps := ⟨0, 0⟩

/-- A handler without relevant events gets all events, and adds none to the global filter. -/
def addSignalHandler (names : EventNames n) (s : Service n) (handler : Handler)
    (relevantEvents : List String) : Option (Service n) :=
  if relevantEvents = [] then
    some { s with signalHandlers := s.signalHandlers ++ [⟨handler, fun _ => true⟩] }
  else
    (names.eventBits relevantEvents).map fun bits =>
      { s with
        signalHandlers := s.signalHandlers ++ [⟨handler, bits⟩]
        globalEventFilter := fun i => s.globalEventFilter i || bits i }

def countUserspace (s : Service n) (i : Fin n) : Service n :=
  { s with nUserspaceEvents := Function.update s.nUserspaceEvents i (s.nUserspaceEvents i + 1) }

def countFiltered (s : Service n) (i : Fin n) : Service n :=
  { s with nFilteredEvents := Function.update s.nFilteredEvents i (s.nFilteredEvents i + 1) }

def getNext (isRHEL76 : Bool) (s : Service n) (next : Option (InspectorEvt n)) :
    Option (InspectorEvt n) × Service n :=
  match next with
  | none => (none, s)
  | some evt =>
    if evt.isInternal then (none, s)
    else if isRHEL76 && !s.globalEventFilter evt.type then (none, s)
    else
      let s := s.countUserspace evt.type
      if !filterEvent evt.threadInfo then (none, s)
      else (some evt, s.countFiltered evt.type)

def runOnce (tables : HandlerTables n) (isRHEL76 : Bool) (s : Service n) (it : Iteration n) :
    Service n :=
  match s.getNext isRHEL76 it.next with
  | (none, s) => s
  | (some evt, s) =>
    let after := dispatchEvent tables it.pass it.processStart evt s.signalHandlers s.timestamps
    { s with signalHandlers := after.1, timestamps := after.2 }

def run (tables : HandlerTables n) (isRHEL76 : Bool) (s : Service n) (its : List (Iteration n)) :
    Service n :=
  its.foldl (runOnce tables isRHEL76) s

end Service

def Handler.deal (tables : HandlerTables n) (p : HandlerPass) (h : Handler)
    (evt : InspectorEvt n) : Option Handler :=
  match h.handleSignal tables p.first evt with
  | (.needsRefresh, h) =>
    match sendExistingProcesses tables h p.threads with
    | (false, h) => some h
    | (true, h) => some (h.handleSignal tables p.retry evt).2
  | (.finished, _) => none
  | (_, h) => some h

def SignalHandlerEntry.receive (tables : HandlerTables n) (pass : HandlerName → HandlerPass)
    (entry : SignalHandlerEntry n) (evt : InspectorEvt n) : Option (SignalHandlerEntry n) :=
  if !entry.eventFilter evt.type then some entry
  else (entry.handler.deal tables (pass entry.handler.getName) evt).map
    (⟨·, entry.eventFilter⟩)

/-- The event that the iteration hands to the handlers on a host with the current kernels. -/
def Iteration.event (it : Iteration n) : Option (InspectorEvt n) :=
  it.next.filter fun evt => !evt.isInternal && filterEvent evt.threadInfo

def SignalHandlerEntry.turn (tables : HandlerTables n) (entry : SignalHandlerEntry n)
    (it : Iteration n) : Option (SignalHandlerEntry n) :=
  match it.event with
  | none => some entry
  | some evt => entry.receive tables it.pass evt

theorem dispatchEvent_handlers (tables : HandlerTables n) (pass : HandlerName → HandlerPass)
    (processStart : ℤ) (evt : InspectorEvt n) (entries : List (SignalHandlerEntry n))
    (c : TimestampCounters) :
    (dispatchEvent tables pass processStart evt entries c).1 =
      offer (fun entry evt => entry.receive tables pass evt) entries evt := by
  induction entries generalizing c with
  | nil => rfl
  | cons entry rest ih =>
    rw [offer]
    generalize offer (fun entry evt => entry.receive tables pass evt) rest evt = offered at ih ⊢
    cases hwants : entry.eventFilter evt.type with
    | false => simp [dispatchEvent, SignalHandlerEntry.receive, hwants, ih]
    | true =>
      simp only [dispatchEvent, SignalHandlerEntry.receive, Handler.deal, hwants, Bool.not_true,
        Bool.false_eq_true, if_false]
      rcases entry.handler.handleSignal tables (pass entry.handler.getName).first evt with
        ⟨result, h⟩
      cases result with
      | needsRefresh =>
        dsimp only
        rcases sendExistingProcesses tables h (pass entry.handler.getName).threads with ⟨b, h'⟩
        cases b <;> simp [ih]
      | finished => rfl
      | processed => simp [ih]
      | ignored => simp [ih]
      | error => simp [ih]

theorem offer_turn_of_event {tables : HandlerTables n} {it : Iteration n} {evt : InspectorEvt n}
    (h : it.event = some evt) (entries : List (SignalHandlerEntry n)) :
    offer (SignalHandlerEntry.turn tables) entries it =
      offer (fun entry evt => entry.receive tables it.pass evt) entries evt := by
  induction entries with
  | nil => rfl
  | cons entry rest ih =>
    have hturn : entry.turn tables it = entry.receive tables it.pass evt := by
      simp [SignalHandlerEntry.turn, h]
    rw [offer, offer, hturn, ih]

theorem offer_turn_of_no_event {tables : HandlerTables n} {it : Iteration n}
    (h : it.event = none) (entries : List (SignalHandlerEntry n)) :
    offer (SignalHandlerEntry.turn tables) entries it = entries := by
  induction entries with
  | nil => rfl
  | cons entry rest ih =>
    have hturn : entry.turn tables it = some entry := by simp [SignalHandlerEntry.turn, h]
    simp only [offer, hturn, ih]

theorem dispatchEvent_of_unwanted {tables : HandlerTables n} {pass : HandlerName → HandlerPass}
    {processStart : ℤ} {evt : InspectorEvt n} {entries : List (SignalHandlerEntry n)}
    {c : TimestampCounters} (h : ∀ entry ∈ entries, entry.eventFilter evt.type = false) :
    dispatchEvent tables pass processStart evt entries c = (entries, c) := by
  induction entries with
  | nil => rfl
  | cons entry rest ih =>
    have hfirst := h entry (by simp)
    have hrest := ih fun e he => h e (by simp [he])
    simp [dispatchEvent, hfirst, hrest]

theorem SignalHandlerEntry.eventFilter_of_receive {tables : HandlerTables n}
    {pass : HandlerName → HandlerPass} {entry entry' : SignalHandlerEntry n} {evt : InspectorEvt n}
    (h : entry.receive tables pass evt = some entry') : entry'.eventFilter = entry.eventFilter := by
  unfold receive at h
  split at h
  · rw [← Option.some.inj h]
  · obtain ⟨_, -, rfl⟩ := Option.map_eq_some_iff.mp h
    rfl

theorem eventFilter_mem_of_mem_offer {tables : HandlerTables n} {pass : HandlerName → HandlerPass}
    {entries : List (SignalHandlerEntry n)} {evt : InspectorEvt n} {entry : SignalHandlerEntry n}
    (h : entry ∈ offer (fun entry evt => entry.receive tables pass evt) entries evt) :
    entry.eventFilter ∈ entries.map SignalHandlerEntry.eventFilter := by
  induction entries with
  | nil => simp [offer] at h
  | cons first rest ih =>
    rw [offer] at h
    split at h
    · exact List.mem_cons_of_mem _ (List.mem_map_of_mem h)
    · next hreceive =>
      rcases List.mem_cons.mp h with rfl | h
      · simp [SignalHandlerEntry.eventFilter_of_receive hreceive]
      · exact List.mem_cons_of_mem _ (ih h)

namespace Service

variable {tables : HandlerTables n}

/-- What a handler is interested in passes the global filter. -/
def Covered (s : Service n) : Prop :=
  ∀ bits ∈ s.signalHandlers.map SignalHandlerEntry.eventFilter,
    ∀ i, bits i = true → s.globalEventFilter i = true

theorem runOnce_handlers (s : Service n) (it : Iteration n) :
    (s.runOnce tables false it).signalHandlers =
      offer (SignalHandlerEntry.turn tables) s.signalHandlers it := by
  cases hevent : it.event with
  | none =>
    rw [offer_turn_of_no_event hevent]
    unfold Iteration.event at hevent
    unfold runOnce getNext
    cases hnext : it.next with
    | none => rfl
    | some evt =>
      simp only [hnext, Option.filter_eq_none_iff] at hevent
      cases hinternal : evt.isInternal with
      | true => simp [hinternal]
      | false =>
        have hfilter : filterEvent evt.threadInfo = false := by simpa [hinternal] using hevent
        simp [hinternal, hfilter, countUserspace]
  | some evt =>
    rw [offer_turn_of_event hevent]
    obtain ⟨hnext, hkept⟩ := Option.filter_eq_some_iff.mp hevent
    obtain ⟨hinternal, hfilter⟩ : evt.isInternal = false ∧ filterEvent evt.threadInfo = true := by
      simpa using hkept
    simp [runOnce, getNext, hnext, hinternal, hfilter, dispatchEvent_handlers, countUserspace,
      countFiltered]

theorem runOnce_globalEventFilter (isRHEL76 : Bool) (s : Service n) (it : Iteration n) :
    (s.runOnce tables isRHEL76 it).globalEventFilter = s.globalEventFilter := by
  unfold runOnce getNext
  cases it.next with
  | none => rfl
  | some evt =>
    dsimp only
    split_ifs <;> rfl

theorem Covered.runOnce {s : Service n} (hs : s.Covered) (it : Iteration n) :
    (s.runOnce tables false it).Covered := by
  intro bits hbits i hi
  rw [runOnce_globalEventFilter]
  rw [runOnce_handlers] at hbits
  obtain ⟨entry, hentry, rfl⟩ := List.mem_map.mp hbits
  cases hevent : it.event with
  | none =>
    rw [offer_turn_of_no_event hevent] at hentry
    exact hs _ (List.mem_map_of_mem hentry) i hi
  | some evt =>
    rw [offer_turn_of_event hevent] at hentry
    exact hs _ (eventFilter_mem_of_mem_offer hentry) i hi

def SameHandlers (s s' : Service n) : Prop :=
  s.signalHandlers = s'.signalHandlers ∧ s.globalEventFilter = s'.globalEventFilter ∧
    s.timestamps = s'.timestamps

/-- The event that only the global filter drops is one that no handler is interested in. -/
theorem SameHandlers.runOnce {s s' : Service n} (h : SameHandlers s s') (hs' : s'.Covered)
    (it : Iteration n) :
    SameHandlers (s.runOnce tables true it) (s'.runOnce tables false it) := by
  obtain ⟨hhandlers, hfilter, htimestamps⟩ := h
  unfold Service.runOnce getNext
  cases it.next with
  | none => exact ⟨hhandlers, hfilter, htimestamps⟩
  | some evt =>
    cases hinternal : evt.isInternal with
    | true => simpa [hinternal] using ⟨hhandlers, hfilter, htimestamps⟩
    | false =>
      cases hpasses : s.globalEventFilter evt.type with
      | true =>
        simp only [hinternal, hpasses, Bool.false_eq_true, if_false, Bool.not_true,
          Bool.and_false, Bool.false_and]
        cases filterEvent evt.threadInfo with
        | false => exact ⟨hhandlers, hfilter, htimestamps⟩
        | true => simp [SameHandlers, countUserspace, countFiltered, hhandlers, hfilter, htimestamps]
      | false =>
        have hunwanted : ∀ entry ∈ s'.signalHandlers, entry.eventFilter evt.type = false := by
          intro entry hentry
          by_contra hwants
          have hglobal := hs' _ (List.mem_map_of_mem hentry) evt.type (by simpa using hwants)
          rw [← hfilter, hpasses] at hglobal
          exact Bool.false_ne_true hglobal
        simp only [hinternal, hpasses, Bool.false_eq_true, if_false, Bool.not_false, Bool.and_true,
          if_true, Bool.false_and]
        cases filterEvent evt.threadInfo with
        | false => exact ⟨hhandlers, hfilter, htimestamps⟩
        | true =>
          simp [SameHandlers, countUserspace, countFiltered, hhandlers, hfilter, htimestamps,
            dispatchEvent_of_unwanted hunwanted]

def ofHandlers (names : EventNames n) (handlers : List (Handler × List String)) :
    Option (Service n) :=
  handlers.foldlM (fun s h => addSignalHandler names s h.1 h.2) empty

theorem covered_of_addSignalHandler {names : EventNames n} {s s' : Service n} {handler : Handler}
    {relevantEvents : List String} (hs : s.Covered) (hne : relevantEvents ≠ [])
    (h : addSignalHandler names s handler relevantEvents = some s') : s'.Covered := by
  rw [addSignalHandler, if_neg hne] at h
  obtain ⟨bits, -, rfl⟩ := Option.map_eq_some_iff.mp h
  intro bits' hbits' i hi
  simp only [List.map_append, List.map_cons, List.map_nil, List.mem_append,
    List.mem_singleton] at hbits'
  rcases hbits' with hbits' | rfl
  · simp [hs bits' hbits' i hi]
  · simp [hi]

theorem covered_of_ofHandlers {names : EventNames n} {handlers : List (Handler × List String)}
    (hne : ∀ h ∈ handlers, h.2 ≠ []) {s : Service n} (hs : ofHandlers names handlers = some s) :
    s.Covered := by
  unfold ofHandlers at hs
  induction handlers using List.reverseRecOn generalizing s with
  | nil =>
    obtain rfl : empty = s := by simpa using hs
    simp [Covered, empty]
  | append_singleton handlers h ih =>
    simp only [List.foldlM_append, List.foldlM_cons, List.foldlM_nil] at hs
    obtain ⟨before, hbefore, hlast⟩ := Option.bind_eq_some_iff.mp hs
    apply covered_of_addSignalHandler (ih (fun x hx => hne x (by simp [hx])) hbefore)
      (hne h (by simp))
    simpa using hlast

end Service

def EventInfoTable.bitsOf (t : EventInfoTable n) (relevantEvents : List String) (i : Fin n) : Bool :=
  relevantEvents.any fun name => t.called name i

def Iteration.relevantEvent (t : EventInfoTable n) (relevantEvents : List String)
    (it : Iteration n) : Option (InspectorEvt n) :=
  it.event.filter fun evt => t.bitsOf relevantEvents evt.type

section Turns

variable (t : EventInfoTable n) (tables : HandlerTables n)

def endsProcessCheck (start : ℤ) (it : Iteration n) : Bool :=
  (it.relevantEvent t selfCheckProcessRelevantEvents).any fun evt =>
    selfCheckProcessResult start (it.pass .selfCheckProcessHandler).first.steadyNow evt == .finished

def endsNetworkCheck (start : ℤ) (it : Iteration n) : Bool :=
  (it.relevantEvent t selfCheckNetworkRelevantEvents).any fun evt =>
    selfCheckNetworkResult start (it.pass .selfCheckNetworkHandler).first.steadyNow evt == .finished

def sendExistingSignals (p : ProcessSignalHandler) : List TableThread → Bool × ProcessSignalHandler
  | [] => (true, p)
  | thread :: rest =>
    if thread.tinfo.containerId ≠ [] ∧ thread.isMainThread = true then
      let answer := p.handleExistingProcess tables.protobuf thread.env.surroundings
        thread.tinfo
      if answer.1.refused then (false, answer.2)
      else sendExistingSignals answer.2 rest
    else sendExistingSignals p rest

/-- The handler of process signals on its own: the event, and should the client ask for it all
existing processes and then the event once more. -/
def processTurn (p : ProcessSignalHandler) (it : Iteration n) : ProcessSignalHandler :=
  match it.relevantEvent t processRelevantEvents with
  | none => p
  | some evt =>
    let pass := it.pass .processSignalHandler
    let sinspEvt := evt.toSinspEvt tables.processSignals
    let answer := p.handleSignal tables.protobuf pass.first.surroundings sinspEvt
    if answer.1 = .needsRefresh then
      let sent := sendExistingSignals tables answer.2 (pass.threads.getD [])
      if pass.threads.isSome ∧ sent.1 = true then
        (sent.2.handleSignal tables.protobuf pass.retry.surroundings sinspEvt).2
      else sent.2
    else answer.2

def networkUpdate (trackSendRecv collectConnectionStatus : Bool) (it : Iteration n) :
    Option ConnEvent :=
  (it.relevantEvent t (networkRelevantEvents trackSendRecv)).bind
    (NetworkSignalHandler.connEvent tables.modifiers collectConnectionStatus)

end Turns

theorem EventNames.eventBits_eq {t : DriverTables n} {names : EventNames n}
    (hnew : EventNames.new t = some names) {relevantEvents : List String} {bits : Fin n → Bool}
    (hbits : names.eventBits relevantEvents = some bits) :
    bits = t.events.bitsOf relevantEvents := by
  funext i
  have hmap : names.eventMap (relevantEvents.map fun name => (name, true)) false = some bits := by
    simpa [eventMap, eventBits, List.foldlM_map] using hbits
  have hfold : ∀ (l : List String) (v : Bool),
      l.foldl (fun v name => if t.events.called name i then true else v) v =
        (v || l.any fun name => t.events.called name i) := by
    intro l
    induction l with
    | nil => simp
    | cons name l ih =>
      intro v
      rw [List.foldl_cons, ih, List.any_cons]
      cases t.events.called name i <;> simp
  rw [eventMap_apply hnew hmap, List.foldl_map]
  exact hfold relevantEvents false

theorem turn_eq (t : EventInfoTable n) (tables : HandlerTables n) (relevantEvents : List String)
    (h : Handler) (it : Iteration n) :
    SignalHandlerEntry.turn tables ⟨h, t.bitsOf relevantEvents⟩ it =
      match it.relevantEvent t relevantEvents with
      | none => some ⟨h, t.bitsOf relevantEvents⟩
      | some evt =>
        (h.deal tables (it.pass h.getName) evt).map (⟨·, t.bitsOf relevantEvents⟩) := by
  unfold SignalHandlerEntry.turn Iteration.relevantEvent
  cases it.event with
  | none => rfl
  | some evt =>
    cases hwants : t.bitsOf relevantEvents evt.type with
    | false => simp [hwants, Option.filter_some, SignalHandlerEntry.receive]
    | true => simp [hwants, Option.filter_some, SignalHandlerEntry.receive]

private theorem deal_of_ignored_or_finished {tables : HandlerTables n} {h : Handler}
    {p : HandlerPass} {evt : InspectorEvt n} {result : SignalResult}
    (hresult : h.handleSignal tables p.first evt = (result, h))
    (hkind : result = .ignored ∨ result = .finished) :
    h.deal tables p evt = if result == .finished then none else some h := by
  unfold Handler.deal
  rw [hresult]
  rcases hkind with rfl | rfl <;> rfl

private theorem turn_of_selfCheck (t : EventInfoTable n) {tables : HandlerTables n}
    (relevantEvents : List String) {h : Handler}
    {check : Iteration n → InspectorEvt n → SignalResult}
    (hresult : ∀ (it : Iteration n) evt,
      h.handleSignal tables (it.pass h.getName).first evt = (check it evt, h))
    (hkind : ∀ it evt, check it evt = .ignored ∨ check it evt = .finished) (it : Iteration n) :
    SignalHandlerEntry.turn tables ⟨h, t.bitsOf relevantEvents⟩ it =
      if (it.relevantEvent t relevantEvents).any fun evt => check it evt == .finished then none
      else some ⟨h, t.bitsOf relevantEvents⟩ := by
  rw [turn_eq]
  cases it.relevantEvent t relevantEvents with
  | none => rfl
  | some evt =>
    simp only [deal_of_ignored_or_finished (hresult it evt) (hkind it evt), Option.any_some]
    by_cases hfinished : check it evt = .finished <;> simp [hfinished]

private theorem selfCheckProcessResult_kind (start now : ℤ) (evt : InspectorEvt n) :
    selfCheckProcessResult start now evt = .ignored ∨
      selfCheckProcessResult start now evt = .finished := by
  unfold selfCheckProcessResult
  split_ifs <;> simp

private theorem selfCheckNetworkResult_kind (start now : ℤ) (evt : InspectorEvt n) :
    selfCheckNetworkResult start now evt = .ignored ∨
      selfCheckNetworkResult start now evt = .finished := by
  unfold selfCheckNetworkResult
  split_ifs
  · simp
  · simp
  · split
    · split_ifs <;> simp
    · simp

private theorem turn_selfCheckProcess (t : EventInfoTable n) (tables : HandlerTables n)
    (start : ℤ) (it : Iteration n) :
    SignalHandlerEntry.turn tables ⟨.selfCheckProcess start, t.bitsOf selfCheckProcessRelevantEvents⟩ it =
      if endsProcessCheck t start it then none
      else some ⟨.selfCheckProcess start, t.bitsOf selfCheckProcessRelevantEvents⟩ := by
  apply turn_of_selfCheck t
  · intro it evt
    rfl
  · intro it evt
    exact selfCheckProcessResult_kind start _ evt

private theorem turn_selfCheckNetwork (t : EventInfoTable n) (tables : HandlerTables n)
    (start : ℤ) (it : Iteration n) :
    SignalHandlerEntry.turn tables ⟨.selfCheckNetwork start, t.bitsOf selfCheckNetworkRelevantEvents⟩ it =
      if endsNetworkCheck t start it then none
      else some ⟨.selfCheckNetwork start, t.bitsOf selfCheckNetworkRelevantEvents⟩ := by
  apply turn_of_selfCheck t
  · intro it evt
    rfl
  · intro it evt
    exact selfCheckNetworkResult_kind start _ evt

private theorem sendExistingThreads_process (tables : HandlerTables n) (p : ProcessSignalHandler)
    (threads : List TableThread) :
    sendExistingThreads tables (.process p) threads =
      ((sendExistingSignals tables p threads).1,
        .process (sendExistingSignals tables p threads).2) := by
  induction threads generalizing p with
  | nil => rfl
  | cons thread rest ih =>
    by_cases hsent : thread.tinfo.containerId ≠ [] ∧ thread.isMainThread = true
    · simp only [sendExistingThreads, sendExistingSignals, Handler.handleExistingProcess,
        if_pos hsent]
      by_cases hfailed : (p.handleExistingProcess tables.protobuf
        thread.env.surroundings thread.tinfo).1.refused = true
      · apply (if_pos hfailed).trans
        simp only [if_pos hfailed]
      · apply (if_neg hfailed).trans
        simp only [if_neg hfailed, ih]
    · simp only [sendExistingThreads, sendExistingSignals, if_neg hsent, ih]

private theorem handleSignal_finished {protobuf : Protobuf}
    {p : ProcessSignalHandler} {env : Surroundings} {evt : SinspEvt}
    (h : (p.handleSignal protobuf env evt).1 = .finished) : env.push = .finished := by
  unfold ProcessSignalHandler.handleSignal at h
  split at h
  · simp at h
  · unfold ProcessSignalHandler.send at h
    dsimp only at h
    split_ifs at h
    split at h <;> simp_all

/-- The handler of process signals never leaves, since its client never answers `FINISHED`. -/
private theorem turn_process (t : EventInfoTable n) (tables : HandlerTables n)
    (p : ProcessSignalHandler) (it : Iteration n)
    (hpush : (it.pass .processSignalHandler).first.surroundings.push ≠ .finished) :
    SignalHandlerEntry.turn tables ⟨.process p, t.bitsOf processRelevantEvents⟩ it =
      some ⟨.process (processTurn t tables p it), t.bitsOf processRelevantEvents⟩ := by
  rw [turn_eq]
  unfold processTurn
  cases it.relevantEvent t processRelevantEvents with
  | none => rfl
  | some evt =>
    simp only [Handler.deal, Handler.handleSignal, Handler.getName]
    generalize hanswer : p.handleSignal tables.protobuf
      (it.pass .processSignalHandler).first.surroundings
      (evt.toSinspEvt tables.processSignals) = answer
    obtain ⟨result, p'⟩ := answer
    cases result with
    | finished => exact absurd (handleSignal_finished (congrArg Prod.fst hanswer)) hpush
    | needsRefresh =>
      cases hthreads : (it.pass .processSignalHandler).threads with
      | none => simp [sendExistingProcesses, sendExistingSignals]
      | some threads =>
        simp only [sendExistingProcesses, sendExistingThreads_process, Option.getD_some]
        generalize sendExistingSignals tables p' threads = sent
        obtain ⟨b, p''⟩ := sent
        cases b <;> simp
    | processed => simp
    | ignored => simp
    | error => simp

private theorem turn_network (t : EventInfoTable n) (tables : HandlerTables n)
    (trackSendRecv collectConnectionStatus : Bool) (updates : List ConnEvent) (it : Iteration n) :
    SignalHandlerEntry.turn tables ⟨.network ⟨collectConnectionStatus, updates⟩,
        t.bitsOf (networkRelevantEvents trackSendRecv)⟩ it =
      some ⟨.network ⟨collectConnectionStatus, updates ++
          (networkUpdate t tables trackSendRecv collectConnectionStatus it).toList⟩,
        t.bitsOf (networkRelevantEvents trackSendRecv)⟩ := by
  rw [turn_eq]
  unfold networkUpdate
  cases it.relevantEvent t (networkRelevantEvents trackSendRecv) with
  | none => simp
  | some evt =>
    simp only [Handler.deal, Handler.handleSignal, NetworkSignalHandler.handleSignal,
      Option.bind_some]
    cases NetworkSignalHandler.connEvent tables.modifiers collectConnectionStatus evt <;> simp

/-- The handlers of the collector, in the order in which they are added. -/
def collectorHandlers (startProcess startNetwork : ℤ) (p : ProcessSignalHandler)
    (w : NetworkSignalHandler) (trackSendRecv : Bool) : List (Handler × List String) :=
  [(.selfCheckProcess startProcess, selfCheckProcessRelevantEvents),
    (.selfCheckNetwork startNetwork, selfCheckNetworkRelevantEvents),
    (.process p, processRelevantEvents), (.network w, networkRelevantEvents trackSendRecv)]

private theorem handlers_of_ofHandlers {t : DriverTables n} {names : EventNames n}
    (hnew : EventNames.new t = some names) {handlers : List (Handler × List String)}
    (hne : ∀ h ∈ handlers, h.2 ≠ []) {s : Service n}
    (hs : Service.ofHandlers names handlers = some s) :
    s.signalHandlers = handlers.map fun h => ⟨h.1, t.events.bitsOf h.2⟩ := by
  unfold Service.ofHandlers at hs
  induction handlers using List.reverseRecOn generalizing s with
  | nil =>
    obtain rfl : Service.empty = s := by simpa using hs
    rfl
  | append_singleton handlers h ih =>
    simp only [List.foldlM_append, List.foldlM_cons, List.foldlM_nil] at hs
    obtain ⟨before, hbefore, hlast⟩ := Option.bind_eq_some_iff.mp hs
    have hlast : before.addSignalHandler names h.1 h.2 = some s := by simpa using hlast
    rw [Service.addSignalHandler, if_neg (hne h (by simp))] at hlast
    obtain ⟨bits, hbits, rfl⟩ := Option.map_eq_some_iff.mp hlast
    simp [ih (fun x hx => hne x (by simp [hx])) hbefore, EventNames.eventBits_eq hnew hbits]

theorem Service.run_handlers (tables : HandlerTables n) (s : Service n)
    (its : List (Iteration n)) :
    (s.run tables false its).signalHandlers =
      pipeline (SignalHandlerEntry.turn tables) s.signalHandlers its := by
  rw [← foldl_offer_eq_pipeline]
  unfold run
  induction its generalizing s with
  | nil => rfl
  | cons it its ih => rw [List.foldl_cons, List.foldl_cons, ih, runOnce_handlers]

private theorem foldl_append_toList {α β : Type*} (f : α → Option β) (l : List α) (acc : List β) :
    l.foldl (fun acc a => acc ++ (f a).toList) acc = acc ++ l.filterMap f := by
  induction l generalizing acc with
  | nil => simp
  | cons a l ih => cases h : f a <;> simp [ih, h]

/-- In every run each self-check keeps to itself the one event at which it ends. The handlers of
process and of network signals go through all other events, whatever else happens. -/
theorem run_collectorHandlers {t : DriverTables n} {names : EventNames n}
    (hnew : EventNames.new t = some names) {startProcess startNetwork : ℤ}
    {p : ProcessSignalHandler} {w : NetworkSignalHandler} {trackSendRecv : Bool} {s : Service n}
    (hs : Service.ofHandlers names
      (collectorHandlers startProcess startNetwork p w trackSendRecv) = some s)
    (tables : HandlerTables n) (its : List (Iteration n))
    (hpush : ∀ it ∈ its, (it.pass .processSignalHandler).first.surroundings.push ≠ .finished) :
    let afterProcess := its.eraseP (endsProcessCheck t.events startProcess)
    let seen := afterProcess.eraseP (endsNetworkCheck t.events startNetwork)
    (s.run tables false its).signalHandlers.map SignalHandlerEntry.handler =
      (if its.any (endsProcessCheck t.events startProcess) then []
        else [.selfCheckProcess startProcess]) ++
      (if afterProcess.any (endsNetworkCheck t.events startNetwork) then []
        else [.selfCheckNetwork startNetwork]) ++
      [.process (seen.foldl (processTurn t.events tables) p),
        .network ⟨w.collectConnectionStatus, w.updates ++ seen.filterMap
          (networkUpdate t.events tables trackSendRecv w.collectConnectionStatus)⟩] := by
  intro afterProcess seen
  have hne : ∀ h ∈ collectorHandlers startProcess startNetwork p w trackSendRecv, h.2 ≠ [] := by
    simp [collectorHandlers, selfCheckProcessRelevantEvents, selfCheckNetworkRelevantEvents,
      processRelevantEvents, networkRelevantEvents]
  have hseen : ∀ it ∈ seen, it ∈ its := by
    intro it hit
    exact List.mem_of_mem_eraseP (List.mem_of_mem_eraseP hit)
  have hprocess : ∀ p, ∀ it ∈ seen, _ := fun p it hit =>
    turn_process t.events tables p it (hpush it (hseen it hit))
  have hnetwork : ∀ updates, ∀ it ∈ seen, _ := fun updates it _ =>
    turn_network t.events tables trackSendRecv w.collectConnectionStatus updates it
  have hprocess := remaining_of_faithful hprocess p
  have hnetwork := remaining_of_faithful hnetwork w.updates
  have hpassed := passedOn_of_remaining hprocess
  rw [foldl_append_toList] at hnetwork
  rw [Service.run_handlers, handlers_of_ofHandlers hnew hne hs]
  simp only [collectorHandlers, List.map_cons, List.map_nil, pipeline,
    passedOn_of_idle (turn_selfCheckProcess t.events tables startProcess),
    passedOn_of_idle (turn_selfCheckNetwork t.events tables startNetwork),
    remaining_of_idle (turn_selfCheckProcess t.events tables startProcess),
    remaining_of_idle (turn_selfCheckNetwork t.events tables startNetwork)]
  rw [hpassed, hprocess, hnetwork]
  have hcheck : ∀ (ended : Bool) (entry : SignalHandlerEntry n),
      (if ended then none else some entry : Option _).toList.map SignalHandlerEntry.handler =
        if ended then [] else [entry.handler] := by
    intro ended entry
    cases ended <;> rfl
  simp only [List.map_append, hcheck, List.append_assoc]
  rfl

def lateExec : Iteration 56 where
  next := some ⟨17, false, 6000000000, some shellThread, [], "c", none, none, none, none, none⟩
  processStart := 6000000
  pass := fun _ =>
    let env : CallEnv := ⟨6000000000, [1], HandlerWorld.oneSecond, .processed⟩
    ⟨env, none, env⟩

def sampleProcessHandler : ProcessSignalHandler := ⟨⟨false⟩, .default, ⟨0, 0, 0, 0, 0⟩⟩

def sampleHandlers : List (Handler × List String) :=
  collectorHandlers 0 0 sampleProcessHandler ⟨true, []⟩ false

private theorem exists_sampleService :
    ∃ names s, EventNames.new sampleTables = some names ∧
      Service.ofHandlers names sampleHandlers = some s := by
  have hall : ((EventNames.new sampleTables).bind fun names =>
      (Service.ofHandlers names sampleHandlers).map fun s => (names, s)).isSome = true := by
    decide +kernel
  obtain ⟨⟨names, s⟩, hall⟩ := Option.isSome_iff_exists.mp hall
  obtain ⟨names', hnew, hall⟩ := Option.bind_eq_some_iff.mp hall
  obtain ⟨s', hs, -⟩ := Option.map_eq_some_iff.mp hall
  exact ⟨names', s', hnew, hs⟩

/-- The event that times the check out is a shell of a container, and nobody is told of it. -/
theorem run_collectorHandlers_late :
    ∃ s : Service 56,
      (s.run ⟨asciiProtobuf, fun _ => .invalid, fun _ => true⟩ false
        [lateExec]).signalHandlers.map SignalHandlerEntry.handler =
        [.selfCheckNetwork 0, .process sampleProcessHandler, .network ⟨true, []⟩] := by
  obtain ⟨names, s, hnew, hs⟩ := exists_sampleService
  have hends : endsProcessCheck sampleTables.events 0 lateExec = true := by decide +kernel
  have hrun := run_collectorHandlers hnew hs ⟨asciiProtobuf, fun _ => .invalid, fun _ => true⟩
    [lateExec] (by simp [lateExec])
  refine ⟨s, ?_⟩
  simpa [hends] using hrun

namespace Service

/-- The filter for old kernels never changes what the handlers see: if every handler names the
events it is interested in, then in every run the handlers end up as without the filter. -/
theorem run_rhel76_eq {tables : HandlerTables n} {names : EventNames n} {handlers : List (Handler × List String)}
    (hne : ∀ h ∈ handlers, h.2 ≠ []) {s : Service n} (hs : ofHandlers names handlers = some s)
    (its : List (Iteration n)) :
    SameHandlers (s.run tables true its) (s.run tables false its) := by
  have hcovered : s.Covered := covered_of_ofHandlers hne hs
  suffices h : SameHandlers (s.run tables true its) (s.run tables false its) ∧
      (s.run tables false its).Covered from h.1
  induction its using List.reverseRecOn with
  | nil => exact ⟨⟨rfl, rfl, rfl⟩, hcovered⟩
  | append_singleton its it ih =>
    obtain ⟨hsame, hcov⟩ := ih
    simp only [run, List.foldl_append, List.foldl_cons, List.foldl_nil] at hsame hcov ⊢
    exact ⟨hsame.runOnce hcov it, hcov.runOnce it⟩

theorem run_rhel76_eq_late :
    ∃ s : Service 56, s.signalHandlers.length = 4 ∧
      SameHandlers (s.run ⟨asciiProtobuf, fun _ => .invalid, fun _ => true⟩ true [lateExec])
        (s.run ⟨asciiProtobuf, fun _ => .invalid, fun _ => true⟩ false [lateExec]) := by
  obtain ⟨names, s, hnew, hs⟩ := exists_sampleService
  have hne : ∀ h ∈ sampleHandlers, h.2 ≠ [] := by decide
  have hlength : s.signalHandlers.length = 4 := by simp [handlers_of_ofHandlers hnew hne hs,
    sampleHandlers, collectorHandlers]
  exact ⟨s, hlength, run_rhel76_eq hne hs [lateExec]⟩

end Service

end AcsNext.Collector
