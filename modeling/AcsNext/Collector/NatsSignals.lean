import AcsNext.Collector.EventDispatch
import AcsNext.Collector.ProcessEventFormat

/-! The loop of the inspector when the NATS client stands behind the handler of process
signals: which messages reach the broker over a whole run, the self-checks being asked first. -/
namespace AcsNext.Collector

variable {n : ℕ}

/-- What a call of the handler meets: the random id, the clock, and what the publishing of a
message would answer. -/
structure NatsEnv where
  uuid : Bytes
  clock : ClockReadings
  status : PublishStatus

structure NatsThread where
  tinfo : ThreadInfo
  isMainThread : Bool
  env : NatsEnv

/-- One turn of the loop of `Run`, as far as the handler of process signals is concerned: the
event, the steady clock when each self-check is asked, and what the handler meets. -/
structure NatsIteration (n : ℕ) where
  next : Option (InspectorEvt n)
  processCheckNow : ℤ
  networkCheckNow : ℤ
  first : NatsEnv
  threads : Option (List NatsThread)
  retry : NatsEnv

/-- When each self-check was started, as long as it has not finished; the handler, its client,
and what the client has handed over to the broker. -/
structure NatsWorld where
  processCheck : Option ℤ
  networkCheck : Option ℤ
  handler : ProcessSignalHandler
  client : NatsSignalServiceClient
  published : List Message

def NatsIteration.relevantEvent (t : EventInfoTable n) (relevantEvents : List String)
    (it : NatsIteration n) : Option (InspectorEvt n) :=
  (it.next.filter fun evt => !evt.isInternal && filterEvent evt.threadInfo).filter fun evt =>
    t.bitsOf relevantEvents evt.type

def NatsIteration.endsProcessCheck (t : EventInfoTable n) (start : Option ℤ)
    (it : NatsIteration n) : Bool :=
  start.any fun start => (it.relevantEvent t selfCheckProcessRelevantEvents).any fun evt =>
    selfCheckProcessResult start it.processCheckNow evt == .finished

def NatsIteration.endsNetworkCheck (t : EventInfoTable n) (start : Option ℤ)
    (it : NatsIteration n) : Bool :=
  start.any fun start => (it.relevantEvent t selfCheckNetworkRelevantEvents).any fun evt =>
    selfCheckNetworkResult start it.networkCheckNow evt == .finished

namespace NatsWorld

/-- `Start` connects once, and nothing calls it again. -/
def start (startProcess startNetwork : ℤ) (config : FormatterConfig)
    (rateLimiter : RateLimitCache) (clusterId : Bytes) (connected : Bool) : NatsWorld :=
  ⟨some startProcess, some startNetwork, ⟨config, rateLimiter, ⟨0, 0, 0, 0, 0⟩⟩,
    ⟨clusterId, connected⟩, []⟩

variable (t : EventInfoTable n) (tables : HandlerTables n) (w : NatsWorld)

/-- `PushSignals`, for a signal that the rate limiter lets through. -/
def push (env : NatsEnv) (signal : Option ProcessSignal) :
    SignalResult × NatsSignalServiceClient × Option Message :=
  match signal with
  | none => (.ignored, w.client, none)
  | some signal =>
    if (w.handler.rateLimiter.allow (computeProcessKey signal) env.clock).1 then
      w.client.pushSignals (some signal) env.status
    else (.ignored, w.client, none)

def handleSignal (env : NatsEnv) (evt : InspectorEvt n) : SignalResult × NatsWorld :=
  let sinspEvt := evt.toSinspEvt tables.processSignals
  let pushed := w.push env
    (toProtoMessageOfEvent tables.protobuf w.handler.config env.uuid sinspEvt)
  let answer := w.handler.handleSignal tables.protobuf
    ⟨env.uuid, env.clock, pushed.1⟩ sinspEvt
  (answer.1, { w with
    handler := answer.2
    client := pushed.2.1
    published := w.published ++ pushed.2.2.toList })

def handleExistingProcess (env : NatsEnv) (tinfo : ThreadInfo) : SignalResult × NatsWorld :=
  let pushed := w.push env
    (toProtoMessageOfThread tables.protobuf w.handler.config env.uuid tinfo)
  let answer := w.handler.handleExistingProcess tables.protobuf
    ⟨env.uuid, env.clock, pushed.1⟩ tinfo
  (answer.1, { w with
    handler := answer.2
    client := pushed.2.1
    published := w.published ++ pushed.2.2.toList })

def sendExistingThreads : NatsWorld → List NatsThread → Bool × NatsWorld
  | w, [] => (true, w)
  | w, thread :: rest =>
    if thread.tinfo.containerId ≠ [] ∧ thread.isMainThread = true then
      let answer := w.handleExistingProcess tables thread.env thread.tinfo
      if answer.1.refused then (false, answer.2)
      else sendExistingThreads answer.2 rest
    else sendExistingThreads w rest

/-- The event comes to the handler of process signals, which stays, as its client never answers
`FINISHED`. -/
def offerEvent (it : NatsIteration n) : NatsWorld :=
  match it.relevantEvent t processRelevantEvents with
  | none => w
  | some evt =>
    match w.handleSignal tables it.first evt with
    | (.needsRefresh, w) =>
      match it.threads with
      | none => w
      | some threads =>
        match w.sendExistingThreads tables threads with
        | (false, w) => w
        | (true, w) => (w.handleSignal tables it.retry evt).2
    | (_, w) => w

/-- One turn of the loop. A self-check that finishes is erased, and ends the turn. -/
def turn (it : NatsIteration n) : NatsWorld :=
  if it.endsProcessCheck t w.processCheck then { w with processCheck := none }
  else if it.endsNetworkCheck t w.networkCheck then { w with networkCheck := none }
  else w.offerEvent t tables it

def run (its : List (NatsIteration n)) : NatsWorld := its.foldl (turn t tables) w

end NatsWorld

section Published

variable (t : EventInfoTable n) (tables : HandlerTables n)

def NatsIteration.signal (config : FormatterConfig) (it : NatsIteration n) :
    Option ProcessSignal :=
  (it.relevantEvent t processRelevantEvents).bind fun evt =>
    toProtoMessageOfEvent tables.protobuf config it.first.uuid
      (evt.toSinspEvt tables.processSignals)

/-- The iterations whose events come to the handler: each self-check keeps one to itself. -/
def natsSeen (processCheck networkCheck : Option ℤ) (its : List (NatsIteration n)) :
    List (NatsIteration n) :=
  (its.eraseP fun it => it.endsProcessCheck t processCheck).eraseP fun it =>
    it.endsNetworkCheck t networkCheck

/-- The signals of the events that the rate limiter lets through, each with the status of its
publishing. -/
def allowedSignals (config : FormatterConfig) :
    RateLimitCache → List (NatsIteration n) → List (ProcessSignal × PublishStatus)
  | _, [] => []
  | c, it :: its =>
    match it.signal t tables config with
    | none => allowedSignals config c its
    | some signal =>
      let allowed := c.allow (computeProcessKey signal) it.first.clock
      if allowed.1 then (signal, it.first.status) :: allowedSignals config allowed.2 its
      else allowedSignals config allowed.2 its

/-- The message that a connected client hands over to the broker for the signal. -/
def publication (clusterId : Bytes) (a : ProcessSignal × PublishStatus) : Option Message :=
  if a.2 = .ok then
    (convertToProcessEvent a.1 clusterId).serializeToString.map
      (⟨utf8 "acs." ++ clusterId ++ utf8 "." ++ utf8 "process-events", ·⟩)
  else none

def closesConnection (clusterId : Bytes) (a : ProcessSignal × PublishStatus) : Bool :=
  decide (a.2 = .failed true) && (convertToProcessEvent a.1 clusterId).serializeToString.isSome

/-- What a client hands over for the signals: nothing when it is not connected, and nothing from
the first failure on that closes the connection. -/
def publications (clusterId : Bytes) (connected : Bool)
    (signals : List (ProcessSignal × PublishStatus)) : List Message :=
  if connected then
    (signals.takeWhile fun a => !closesConnection clusterId a).filterMap (publication clusterId)
  else []

end Published

theorem publications_cons (clusterId : Bytes) (connected : Bool) (a : ProcessSignal × PublishStatus)
    (signals : List (ProcessSignal × PublishStatus)) :
    publications clusterId connected (a :: signals) =
      (if connected then publication clusterId a else none).toList ++
        publications clusterId (connected && !closesConnection clusterId a) signals := by
  unfold publications
  cases connected with
  | false => rfl
  | true =>
    cases hcloses : closesConnection clusterId a with
    | false =>
      rw [List.takeWhile_cons_of_pos (by simp [hcloses]), List.filterMap_cons]
      cases publication clusterId a <;> simp
    | true =>
      have hfailed : a.2 = .failed true := by
        unfold closesConnection at hcloses
        simp_all
      have hnone : publication clusterId a = none := by simp [publication, hfailed]
      rw [List.takeWhile_cons_of_neg (by simp [hcloses]), hnone]
      rfl

theorem publications_append (clusterId : Bytes) (connected : Bool)
    (l l' : List (ProcessSignal × PublishStatus)) :
    publications clusterId connected (l ++ l') = publications clusterId connected l ++
      publications clusterId (connected && !l.any (closesConnection clusterId)) l' := by
  induction l generalizing connected with
  | nil => simp [publications]
  | cons a l ih =>
    rw [List.cons_append, publications_cons, publications_cons, ih, List.append_assoc,
      List.any_cons, Bool.not_or, Bool.and_assoc]

/-- A signal is answered with `PROCESSED` exactly if its message was handed over, and never with
`NEEDS_REFRESH`. -/
theorem NatsSignalServiceClient.pushSignals_eq (client : NatsSignalServiceClient)
    (signal : ProcessSignal) (status : PublishStatus) :
    let message := if client.connected then publication client.clusterId (signal, status) else none
    client.pushSignals (some signal) status =
      (if message.isSome then .processed else .error,
        ⟨client.clusterId,
          client.connected && !closesConnection client.clusterId (signal, status)⟩, message) := by
  obtain ⟨clusterId, connected⟩ := client
  unfold pushSignals publication closesConnection buildSubject
  cases connected with
  | false => rfl
  | true =>
    cases hserialized : (convertToProcessEvent signal clusterId).serializeToString with
    | none => cases status <;> simp [hserialized]
    | some serialized =>
      cases status with
      | ok => simp [hserialized]
      | failed closed => cases closed <;> simp [hserialized]

theorem NatsIteration.signal_of_relevantEvent {t : EventInfoTable n} {tables : HandlerTables n}
    {config : FormatterConfig} {it : NatsIteration n} {evt : InspectorEvt n}
    (h : it.relevantEvent t processRelevantEvents = some evt) :
    it.signal t tables config = toProtoMessageOfEvent tables.protobuf config it.first.uuid
      (evt.toSinspEvt tables.processSignals) := by
  rw [NatsIteration.signal, h, Option.bind_some]

namespace NatsWorld

variable {t : EventInfoTable n} {tables : HandlerTables n}

theorem push_ne_needsRefresh (w : NatsWorld) (env : NatsEnv) (signal : Option ProcessSignal) :
    (w.push env signal).1 ≠ .needsRefresh := by
  cases signal with
  | none => simp [push]
  | some signal =>
    rw [push]
    split_ifs
    · rw [NatsSignalServiceClient.pushSignals_eq]
      dsimp only
      split_ifs <;> simp
    · simp

/-- The handler passes the answer of its client on. -/
theorem handleSignal_ne_needsRefresh (tables : HandlerTables n) (w : NatsWorld) (env : NatsEnv)
    (evt : InspectorEvt n) :
    (w.handleSignal tables env evt).1 ≠ .needsRefresh := by
  unfold handleSignal ProcessSignalHandler.handleSignal
  dsimp only
  generalize hformat : toProtoMessageOfEvent _ _ _ _ = signal
  have hpush := w.push_ne_needsRefresh env signal
  cases signal with
  | none => simp
  | some signal =>
    unfold ProcessSignalHandler.send
    dsimp only
    split_ifs
    · simp
    · split <;> simp_all

/-- No turn asks for the existing processes. -/
theorem offerEvent_eq (w : NatsWorld) (it : NatsIteration n) :
    w.offerEvent t tables it = (it.relevantEvent t processRelevantEvents).elim w fun evt =>
      (w.handleSignal tables it.first evt).2 := by
  unfold offerEvent
  cases it.relevantEvent t processRelevantEvents with
  | none => rfl
  | some evt =>
    have hanswer := handleSignal_ne_needsRefresh tables w it.first evt
    dsimp only [Option.elim_some]
    split
    · next h => exact absurd (congrArg Prod.fst h) hanswer
    · next h => rw [h]

theorem checks_offerEvent (t : EventInfoTable n) (tables : HandlerTables n) (w : NatsWorld)
    (it : NatsIteration n) :
    (w.offerEvent t tables it).processCheck = w.processCheck ∧
      (w.offerEvent t tables it).networkCheck = w.networkCheck := by
  rw [offerEvent_eq]
  cases it.relevantEvent t processRelevantEvents <;> exact ⟨rfl, rfl⟩

theorem eraseP_endsProcessCheck_none (its : List (NatsIteration n)) :
    its.eraseP (fun it => it.endsProcessCheck t none) = its :=
  List.eraseP_of_forall_not fun _ _ => Bool.false_ne_true

theorem eraseP_endsNetworkCheck_none (its : List (NatsIteration n)) :
    its.eraseP (fun it => it.endsNetworkCheck t none) = its :=
  List.eraseP_of_forall_not fun _ _ => Bool.false_ne_true

theorem turn_cases (t : EventInfoTable n) (tables : HandlerTables n) (w : NatsWorld)
    (it : NatsIteration n) (its : List (NatsIteration n)) :
    ((w.turn t tables it).handler = w.handler ∧ (w.turn t tables it).client = w.client ∧
        (w.turn t tables it).published = w.published ∧
        natsSeen t w.processCheck w.networkCheck (it :: its) =
          natsSeen t (w.turn t tables it).processCheck (w.turn t tables it).networkCheck its) ∨
      (w.turn t tables it = w.offerEvent t tables it ∧
        natsSeen t w.processCheck w.networkCheck (it :: its) =
          it :: natsSeen t (w.turn t tables it).processCheck
            (w.turn t tables it).networkCheck its) := by
  unfold turn natsSeen
  by_cases hprocess : it.endsProcessCheck t w.processCheck = true
  · left
    rw [if_pos hprocess, List.eraseP_cons_of_pos hprocess, eraseP_endsProcessCheck_none]
    exact ⟨rfl, rfl, rfl, rfl⟩
  · rw [if_neg hprocess, List.eraseP_cons_of_neg hprocess]
    by_cases hnetwork : it.endsNetworkCheck t w.networkCheck = true
    · left
      rw [if_pos hnetwork, List.eraseP_cons_of_pos hnetwork, eraseP_endsNetworkCheck_none]
      exact ⟨rfl, rfl, rfl, rfl⟩
    · right
      obtain ⟨hp, hn⟩ := checks_offerEvent t tables w it
      rw [if_neg hnetwork, List.eraseP_cons_of_neg hnetwork, hp, hn]
      exact ⟨rfl, rfl⟩

/-- The iteration of the service in which the handlers meet the same event at the same times, and
the handler of process signals is answered as the client answers it. -/
structure Answers (t : EventInfoTable n) (tables : HandlerTables n) (w : NatsWorld)
    (it : NatsIteration n) (it' : Iteration n) : Prop where
  next : it'.next = it.next
  processCheck : (it'.pass .selfCheckProcessHandler).first.steadyNow = it.processCheckNow
  networkCheck : (it'.pass .selfCheckNetworkHandler).first.steadyNow = it.networkCheckNow
  first : (it'.pass .processSignalHandler).first.surroundings =
    ⟨it.first.uuid, it.first.clock, (w.push it.first (it.signal t tables w.handler.config)).1⟩

section Answers

variable {w : NatsWorld} {it : NatsIteration n} {it' : Iteration n} (h : Answers t tables w it it')

include h

theorem Answers.relevantEvent (relevantEvents : List String) :
    it'.relevantEvent t relevantEvents = it.relevantEvent t relevantEvents := by
  rw [Iteration.relevantEvent, Iteration.event, NatsIteration.relevantEvent, h.next]

theorem Answers.endsProcessCheck (start : Option ℤ) :
    start.any (endsProcessCheck t · it') = it.endsProcessCheck t start := by
  unfold Collector.endsProcessCheck
  rw [h.relevantEvent, h.processCheck]
  rfl

theorem Answers.endsNetworkCheck (start : Option ℤ) :
    start.any (endsNetworkCheck t · it') = it.endsNetworkCheck t start := by
  unfold Collector.endsNetworkCheck
  rw [h.relevantEvent, h.networkCheck]
  rfl

theorem Answers.handler_offerEvent :
    (w.offerEvent t tables it).handler = processTurn t tables w.handler it' := by
  have hfirst := h.first
  rw [offerEvent_eq, processTurn, h.relevantEvent]
  cases hrelevant : it.relevantEvent t processRelevantEvents with
  | none => rfl
  | some evt =>
    rw [NatsIteration.signal_of_relevantEvent hrelevant] at hfirst
    have hanswer := handleSignal_ne_needsRefresh tables w it.first evt
    unfold handleSignal at hanswer
    dsimp only [Option.elim_some]
    rw [hfirst, if_neg hanswer]
    rfl

end Answers

def AnswersRun (t : EventInfoTable n) (tables : HandlerTables n) :
    NatsWorld → List (NatsIteration n) → List (Iteration n) → Prop
  | _, [], [] => True
  | w, it :: its, it' :: its' =>
    Answers t tables w it it' ∧ AnswersRun t tables (w.turn t tables it) its its'
  | _, _, _ => False

/-- The iterations of a run of the service that come to the handler of process signals. -/
def serviceSeen (t : EventInfoTable n) (processCheck networkCheck : Option ℤ)
    (its : List (Iteration n)) : List (Iteration n) :=
  (its.eraseP fun it => processCheck.any (endsProcessCheck t · it)).eraseP fun it =>
    networkCheck.any (endsNetworkCheck t · it)

/-- The handler goes through the states that it has in the loop of the service. -/
theorem handler_run {w : NatsWorld} {its : List (NatsIteration n)} {its' : List (Iteration n)}
    (h : AnswersRun t tables w its its') :
    (w.run t tables its).handler =
      (serviceSeen t w.processCheck w.networkCheck its').foldl (processTurn t tables)
        w.handler := by
  induction its generalizing w its' with
  | nil =>
    cases its' with
    | nil => rfl
    | cons it' its' => exact h.elim
  | cons it its ih =>
    cases its' with
    | nil => exact h.elim
    | cons it' its' =>
      have hprocess := h.1.endsProcessCheck w.processCheck
      have hnetwork := h.1.endsNetworkCheck w.networkCheck
      have hnone (l : List (Iteration n)) : l.eraseP (fun _ => false) = l :=
        List.eraseP_of_forall_not fun _ _ => Bool.false_ne_true
      change ((w.turn t tables it).run t tables its).handler = _
      rw [ih h.2]
      unfold serviceSeen turn
      rw [List.eraseP_cons, hprocess]
      cases it.endsProcessCheck t w.processCheck with
      | true =>
        simp only [if_true, Option.any_none, cond_true]
        rw [hnone]
      | false =>
        simp only [Bool.false_eq_true, if_false, cond_false, List.eraseP_cons, hnetwork]
        cases it.endsNetworkCheck t w.networkCheck with
        | true =>
          simp only [if_true, Option.any_none, cond_true]
          rw [hnone]
        | false =>
          obtain ⟨hkeptProcess, hkeptNetwork⟩ := checks_offerEvent t tables w it
          simp only [Bool.false_eq_true, if_false, cond_false, List.foldl_cons, hkeptProcess,
            hkeptNetwork, h.1.handler_offerEvent]

structure Delivers (w w' : NatsWorld) (signals : List (ProcessSignal × PublishStatus)) : Prop where
  config : w'.handler.config = w.handler.config
  client : w'.client = ⟨w.client.clusterId,
    w.client.connected && !signals.any (closesConnection w.client.clusterId)⟩
  published : w'.published =
    w.published ++ publications w.client.clusterId w.client.connected signals
  sent : w'.handler.stats.nProcessSent = w.handler.stats.nProcessSent +
    (publications w.client.clusterId w.client.connected signals).length
  asked : w'.handler.stats.nProcessSent + w'.handler.stats.nProcessSendFailures =
    w.handler.stats.nProcessSent + w.handler.stats.nProcessSendFailures + signals.length

theorem Delivers.trans {w w' w'' : NatsWorld} {l l' : List (ProcessSignal × PublishStatus)}
    (h : Delivers w w' l) (h' : Delivers w' w'' l') : Delivers w w'' (l ++ l') := by
  have hrest := publications_append w.client.clusterId w.client.connected l l'
  have hconfig := h'.config
  have hclient := h'.client
  have hpublished := h'.published
  have hsent := h'.sent
  have hasked := h'.asked
  rw [h.client] at hclient hpublished hsent
  refine ⟨hconfig.trans h.config, ?_, ?_, ?_, ?_⟩
  · rw [hclient, List.any_append, Bool.not_or, Bool.and_assoc]
  · rw [hpublished, h.published, hrest, List.append_assoc]
  · rw [hsent, h.sent, hrest, List.length_append, Nat.add_assoc]
  · rw [hasked, h.asked, List.length_append, Nat.add_assoc]

theorem Delivers.refl (w : NatsWorld) : Delivers w w [] := by
  refine ⟨rfl, ?_, ?_, ?_, rfl⟩
  · simp
  · simp [publications]
  · simp [publications]

def limiterAfter (t : EventInfoTable n) (tables : HandlerTables n) (config : FormatterConfig)
    (c : RateLimitCache) (it : NatsIteration n) : RateLimitCache :=
  (it.signal t tables config).elim c fun signal =>
    (c.allow (computeProcessKey signal) it.first.clock).2

theorem allowedSignals_cons (config : FormatterConfig) (c : RateLimitCache) (it : NatsIteration n)
    (its : List (NatsIteration n)) :
    allowedSignals t tables config c (it :: its) = allowedSignals t tables config c [it] ++
      allowedSignals t tables config (limiterAfter t tables config c it) its := by
  unfold limiterAfter
  rw [allowedSignals, allowedSignals]
  cases it.signal t tables config with
  | none => rfl
  | some signal =>
    dsimp only [Option.elim_some]
    split_ifs <;> rfl

theorem delivers_send {w : NatsWorld} {env : NatsEnv} {signal : ProcessSignal}
    (hallowed : (w.handler.rateLimiter.allow (computeProcessKey signal) env.clock).1 = true) :
    let pushed := w.client.pushSignals (some signal) env.status
    Delivers w
      { w with
        handler := (w.handler.send ⟨env.uuid, env.clock, pushed.1⟩ signal).2
        client := pushed.2.1
        published := w.published ++ pushed.2.2.toList } [(signal, env.status)] := by
  have hpublications := publications_cons w.client.clusterId w.client.connected
    (signal, env.status) []
  have hnil (connected : Bool) : publications w.client.clusterId connected [] = [] := by
    cases connected <;> rfl
  rw [hnil, List.append_nil] at hpublications
  dsimp only
  rw [NatsSignalServiceClient.pushSignals_eq]
  dsimp only
  generalize hmessage : (if w.client.connected then
    publication w.client.clusterId (signal, env.status) else none) = message at hpublications ⊢
  have hany : [(signal, env.status)].any (closesConnection w.client.clusterId) =
      closesConnection w.client.clusterId (signal, env.status) := by simp
  cases message with
  | none =>
    refine ⟨?_, by rw [hany], by rw [hpublications], ?_, ?_⟩
    · simp [ProcessSignalHandler.send, hallowed]
    · simp [ProcessSignalHandler.send, hallowed, hpublications]
    · simp [ProcessSignalHandler.send, hallowed, Nat.add_assoc]
  | some message =>
    refine ⟨?_, by rw [hany], by rw [hpublications], ?_, ?_⟩
    · simp [ProcessSignalHandler.send, hallowed]
    · simp [ProcessSignalHandler.send, hallowed, hpublications]
    · simp [ProcessSignalHandler.send, hallowed]
      omega

theorem delivers_offerEvent (t : EventInfoTable n) (tables : HandlerTables n) (w : NatsWorld)
    (it : NatsIteration n) :
    Delivers w (w.offerEvent t tables it)
        (allowedSignals t tables w.handler.config w.handler.rateLimiter [it]) ∧
      (w.offerEvent t tables it).handler.rateLimiter =
        limiterAfter t tables w.handler.config w.handler.rateLimiter it := by
  rw [offerEvent_eq]
  unfold limiterAfter
  rw [allowedSignals, allowedSignals]
  cases hrelevant : it.relevantEvent t processRelevantEvents with
  | none =>
    have hsignal : it.signal t tables w.handler.config = none := by
      rw [NatsIteration.signal, hrelevant, Option.bind_none]
    rw [hsignal]
    exact ⟨Delivers.refl w, rfl⟩
  | some evt =>
    dsimp only [Option.elim_some]
    unfold handleSignal ProcessSignalHandler.handleSignal
    dsimp only
    rw [← NatsIteration.signal_of_relevantEvent hrelevant]
    cases it.signal t tables w.handler.config with
    | none =>
      dsimp only [push, Option.elim_none, Option.toList_none]
      rw [List.append_nil]
      have hrefl := Delivers.refl w
      exact ⟨⟨rfl, hrefl.client, hrefl.published, hrefl.sent, rfl⟩, rfl⟩
    | some signal =>
      dsimp only [push, Option.elim_some]
      by_cases hallowed :
          (w.handler.rateLimiter.allow (computeProcessKey signal) it.first.clock).1 = true
      · rw [if_pos hallowed, if_pos hallowed]
        exact ⟨delivers_send hallowed, rateLimiter_send _ _ _⟩
      · rw [if_neg hallowed, if_neg hallowed]
        refine ⟨?_, rateLimiter_send _ _ _⟩
        have hrefl := Delivers.refl w
        unfold ProcessSignalHandler.send
        simp only [hallowed, Bool.not_false, if_true, Option.toList_none, List.append_nil]
        exact ⟨rfl, hrefl.client, hrefl.published, hrefl.sent, rfl⟩

theorem delivers_run (w : NatsWorld) (its : List (NatsIteration n)) :
    Delivers w (w.run t tables its) (allowedSignals t tables w.handler.config
      w.handler.rateLimiter (natsSeen t w.processCheck w.networkCheck its)) := by
  induction its generalizing w with
  | nil => exact Delivers.refl w
  | cons it its ih =>
    have hrest := ih (w.turn t tables it)
    rcases turn_cases t tables w it its with
      ⟨hhandler, hclient, hpublished, hseen⟩ | ⟨hoffered, hseen⟩
    · -- a self-check has kept the event to itself
      rw [hhandler] at hrest
      rw [hseen]
      have hsent := hrest.sent
      have hasked := hrest.asked
      have hafter := hrest.client
      have hall := hrest.published
      rw [hclient] at hsent hafter hall
      rw [hhandler] at hsent hasked
      rw [hpublished] at hall
      exact ⟨hrest.config.trans (congrArg ProcessSignalHandler.config hhandler), hafter, hall,
        hsent, hasked⟩
    · obtain ⟨hturn, hlimiter⟩ := delivers_offerEvent t tables w it
      rw [← hoffered] at hturn hlimiter
      rw [hturn.config, hlimiter] at hrest
      rw [hseen, allowedSignals_cons]
      exact hturn.trans hrest

/-- Over every run, the broker is handed the signals of the events that the self-checks leave and
that the limiter lets through, up to the first failure that closes the connection, and no existing
process: none at all when the connection failed at the start. The counters of the handler say so. -/
theorem run_published (t : EventInfoTable n) (tables : HandlerTables n)
    (startProcess startNetwork : ℤ) (config : FormatterConfig) (rateLimiter : RateLimitCache)
    (clusterId : Bytes) (connected : Bool) (its : List (NatsIteration n)) :
    let w := (start startProcess startNetwork config rateLimiter clusterId connected).run t tables
      its
    let seen := (its.eraseP fun it => it.endsProcessCheck t (some startProcess)).eraseP fun it =>
      it.endsNetworkCheck t (some startNetwork)
    let signals := allowedSignals t tables config rateLimiter seen
    w.published = publications clusterId connected signals ∧
      w.handler.stats.nProcessSent = w.published.length ∧
      w.handler.stats.nProcessSent + w.handler.stats.nProcessSendFailures = signals.length := by
  intro w seen signals
  have hrun : Delivers (start startProcess startNetwork config rateLimiter clusterId connected) w
      signals :=
    delivers_run _ its
  have hpublished : w.published = publications clusterId connected signals := hrun.published
  refine ⟨hpublished, ?_, ?_⟩
  · rw [hpublished, hrun.sent]
    apply Nat.zero_add
  · rw [hrun.asked]
    apply Nat.zero_add

end NatsWorld

end AcsNext.Collector
