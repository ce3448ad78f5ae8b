import AcsNext.Collector.ControlMessages
import AcsNext.Collector.FetchState
import AcsNext.Collector.StatusReporting

/-! The network status notifier: what one turn of its loop scrapes, fetches and sends, and the
streams on which it does so. -/
namespace AcsNext.Collector
open AcsNext.Data

structure NotifierConfig where
  turnOffScrape : Bool
  scrapeListenEndpoints : Bool
  enableAfterglow : Bool
  afterglowPeriod : ℤ
  perContainerRateLimit : ℤ

/-- The order in which the loops that fill a message visit the entries of a map. -/
structure DeltaOrder where
  conns : ConnMap → List (Connection × ConnStatus)
  endpoints : AdvertisedEndpointMap → List (AdvertisedEndpoint × ConnStatus)
  perm_conns : ∀ m, (conns m).Perm m.entries
  perm_endpoints : ∀ m, (endpoints m).Perm m.entries

def DeltaOrder.stored : DeltaOrder :=
  ⟨fun m => m.entries, fun m => m.entries, fun _ => .refl _, fun _ => .refl _⟩

/-- An inactive entry is sent with its close timestamp, an active one without. -/
structure InfoMessage where
  updatedConnections : List (Connection × ConnStatus)
  updatedEndpoints : List (AdvertisedEndpoint × ConnStatus)

structure StreamState where
  oldConnState : ConnMap
  oldCepState : AdvertisedEndpointMap
  timeAtLastScrape : ℤ
  prevEnableExternalIPs : ExternalIPsConfig

/-- What a turn reads: the result of the scraper (`none` if it fails), the two clocks, the
current configuration and the outcome of `Write`. -/
structure Turn where
  scraped : Option (List RawConnection × List ContainerEndpoint)
  ts : ℤ
  timeMicros : ℤ
  externalIPs : ExternalIPsConfig
  order : DeltaOrder
  written : Bool

namespace NotifierConfig

variable (config : NotifierConfig)

/-- The scraper is not asked for endpoints unless the setting is on. -/
def listenEndpoints (scraped : List ContainerEndpoint) : List ContainerEndpoint :=
  if config.scrapeListenEndpoints then scraped else []

def updateAllConnsAndEndpoints (t : ConnectionTracker) (turn : Turn) : Option ConnectionTracker :=
  if config.turnOffScrape then some t
  else
    match turn.scraped with
    | none => none
    | some (allConns, allListenEndpoints) =>
      some (t.update allConns (config.listenEndpoints allListenEndpoints) turn.ts)

/-- The connections to report, and the old state that is kept for the next turn. -/
def connDelta (t : ConnectionTracker) (s : StreamState) (newConnState : ConnMap)
    (timeMicros : ℤ) : ConnMap × ConnMap :=
  if config.enableAfterglow then
    let delta := computeDeltaAfterglow newConnState s.oldConnState ∅ timeMicros s.timeAtLastScrape
      config.afterglowPeriod
    let closed := t.closeConnectionsOnExternalIPsConfigChange s.prevEnableExternalIPs
      s.oldConnState delta
    (closed.2, updateOldState closed.1 newConnState timeMicros config.afterglowPeriod)
  else (computeDelta newConnState s.oldConnState, newConnState)

/-- There is no message when both differences are empty; the limit applies to connections. -/
def createInfoMessage (order : DeltaOrder) (connDelta : ConnMap)
    (endpointDelta : AdvertisedEndpointMap) : Option InfoMessage :=
  if connDelta.size = 0 ∧ endpointDelta.size = 0 then none
  else some
    { updatedConnections :=
        addConnections Connection.container ⟨config.perContainerRateLimit, ∅⟩
          (order.conns connDelta)
      updatedEndpoints := order.endpoints endpointDelta }

/-- A turn after its scrape: what is fetched, what is kept and what is to be written. -/
def report (t : ConnectionTracker) (s : StreamState) (turn : Turn) :
    ConnectionTracker × StreamState × Option InfoMessage :=
  let t := t.setExternalIPsConfig turn.externalIPs
  let (newConnState, t) := t.fetchConnState true true
  let (deltaConn, oldConnState) := config.connDelta t s newConnState turn.timeMicros
  let (newCepState, t) := t.fetchEndpointState true true
  let deltaCep := computeDelta newCepState s.oldCepState
  (t, ⟨oldConnState, newCepState, turn.timeMicros,
      if config.enableAfterglow then turn.externalIPs else s.prevEnableExternalIPs⟩,
    config.createInfoMessage turn.order deltaConn deltaCep)

end NotifierConfig

/-- The tracker, and the stream that is open, if any, with the messages written to it. -/
structure Notifier where
  tracker : ConnectionTracker
  stream : Option (StreamState × List InfoMessage)

inductive NotifierEvent where
  | updateConnection (conn : RawConnection) (timestamp : ℤ) (added : Bool)
  | control (msg : Option NetworkFlowsControlMessage)
  | opened (nowMicros : ℤ) (externalIPs : ExternalIPsConfig)
  | turn (turn : Turn)
  | hungUp

namespace Notifier

variable (config : NotifierConfig)

/-- A failed scrape or an empty report ends the turn; a failed write ends the stream. -/
def runTurn (n : Notifier) (turn : Turn) : Notifier :=
  match n.stream with
  | none => n
  | some (s, sent) =>
    match config.updateAllConnsAndEndpoints n.tracker turn with
    | none => n
    | some t =>
      match config.report t s turn with
      | (t, s, none) => ⟨t, some (s, sent)⟩
      | (t, s, some msg) => ⟨t, if turn.written then some (s, sent ++ [msg]) else none⟩

def step (n : Notifier) : NotifierEvent → Notifier
  | .updateConnection conn timestamp added =>
    { n with tracker := n.tracker.updateConnection conn timestamp added }
  | .control msg => { n with tracker := n.tracker.onRecvControlMessage msg }
  | .opened nowMicros externalIPs =>
    { n with stream := some (⟨∅, ∅, nowMicros, externalIPs⟩, []) }
  | .turn turn => n.runTurn config turn
  | .hungUp => { n with stream := none }

def run (n : Notifier) (es : List NotifierEvent) : Notifier := es.foldl (step config) n

/-- The endpoints that the receiver of the messages has open. -/
def openAfter (sent : List InfoMessage) : AdvertisedEndpoint → Bool :=
  receiveAll (fun _ => false) (sent.flatMap InfoMessage.updatedEndpoints)

end Notifier

section Receiver

variable {T E : Type*} [BEq T] [BEq E] [EquivBEq E]

theorem FetchesMax.any_isActive_iff {process : T → E} {filter : T → Bool} {state : StatusMap T}
    {fetched : StatusMap E} (h : FetchesMax process filter state fetched) (c : E) :
    (fetched.find? c).any ConnStatus.isActive = true ↔
      ∃ e ∈ state.entries, filter e.1 = true ∧ (process e.1 == c) = true ∧
        e.2.isActive = true := by
  rw [Option.any_eq_true]
  constructor
  · intro hc
    obtain ⟨s, hs, hact⟩ := hc
    obtain ⟨x, hx, hxc, rfl⟩ := (fetched.find?_eq_some_iff c s).mp hs
    obtain ⟨e, he, hf, hkey⟩ := h.keys x.1 (List.mem_map_of_mem hx)
    obtain ⟨s', hs', hmem, _⟩ := h.binds e he hf
    rw [← hkey, fetched.find?_congr hxc, hs] at hs'
    rw [← Option.some.inj hs'] at hmem
    obtain ⟨e', he', heq⟩ := List.mem_map.mp hmem
    obtain ⟨he', hcond⟩ := List.mem_filter.mp he'
    obtain ⟨hf', hsame⟩ := Bool.and_eq_true_iff.mp hcond
    have hkey' : (process e'.1 == c) = true := BEq.trans (BEq.symm hsame) (hkey ▸ hxc)
    exact ⟨e', he', hf', hkey', heq ▸ hact⟩
  · intro hc
    obtain ⟨e, he, hf, hkey, hact⟩ := hc
    obtain ⟨s, hs, _, hmax⟩ := h.binds e he hf
    have hself : e.2 ∈ statusesAt process filter state.entries (process e.1) := by
      refine List.mem_map_of_mem (List.mem_filter.mpr ⟨he, ?_⟩)
      simp [hf]
    have hle := hmax e.2 hself
    rw [fetched.find?_congr hkey] at hs
    refine ⟨s, hs, ?_⟩
    rcases hle with ⟨hinactive, _⟩ | ⟨heq, _⟩
    · rw [hinactive] at hact
      cases hact
    · rw [← heq, hact]

/-- A receiver does not see the order in which a difference is sent. -/
theorem receiveAll_perm (isOpen : E → Bool) (delta : StatusMap E) {l : List (E × ConnStatus)}
    (hl : l.Perm delta.entries) (c : E) :
    receiveAll isOpen l c = match delta.find? c with
      | some s => s.isActive
      | none => isOpen c := by
  have hsymm : ∀ {a b : E × ConnStatus}, (b.1 == a.1) = false → (a.1 == b.1) = false := by
    intro a b h
    rw [BEq.comm, h]
  have hdistinct : DistinctKeys l := (hl.pairwise_iff hsymm).mpr delta.distinct
  have hsame : (⟨l, hdistinct⟩ : StatusMap E).find? c = delta.find? c := by
    apply Option.ext
    intro s
    rw [AssocMap.find?_eq_some_iff, AssocMap.find?_eq_some_iff]
    simp only [hl.mem_iff]
  rw [← hsame]
  exact receiveAll_entries isOpen ⟨l, hdistinct⟩ c

/-- After a difference, the receiver has the active keys of the new state open, if it had
those of the old state open before. -/
theorem receiveAll_computeDelta (isOpen : E → Bool) (new old : StatusMap E)
    (hopen : ∀ c, isOpen c = (old.find? c).any ConnStatus.isActive)
    {l : List (E × ConnStatus)} (hl : l.Perm (computeDelta new old).entries) (c : E) :
    receiveAll isOpen l c = (new.find? c).any ConnStatus.isActive := by
  rw [receiveAll_perm isOpen _ hl, find?_computeDelta, hopen]
  cases new.find? c with
  | none =>
    cases old.find? c with
    | none => rfl
    | some o => cases ho : o.isActive <;> simp [deltaEntry, ho]
  | some s =>
    cases old.find? c with
    | none => rfl
    | some o =>
      by_cases hne : (s.isActive != o.isActive) = true
      · simp [deltaEntry, hne]
      · have heq : s.isActive = o.isActive := by simpa using hne
        by_cases hlt : o.lastActiveTime < s.lastActiveTime <;>
          cases ho : o.isActive <;> simp [deltaEntry, heq, ho, hlt]

end Receiver

/-- How the tracker hands out an endpoint. -/
def ContainerEndpoint.advertised (cep : ContainerEndpoint) : AdvertisedEndpoint :=
  ⟨ConnectionTracker.normalizeContainerEndpoint cep⟩

/-- Originators are pointers: a process object is determined by its identity. -/
def ContainerEndpoint.FromObject (object : ℕ → IProcess) (cep : ContainerEndpoint) : Prop :=
  ∀ p, cep.originator = some p → object p.id = p

theorem ContainerEndpoint.FromObject.eq_of_beq {object : ℕ → IProcess} {a b : ContainerEndpoint}
    (ha : a.FromObject object) (hb : b.FromObject object) (h : (a == b) = true) : a = b := by
  obtain ⟨hc, he, hp, ho⟩ := (ContainerEndpoint.beq_iff a b).mp h
  have horiginator : a.originator = b.originator := by
    cases hao : a.originator with
    | none =>
      cases hbo : b.originator with
      | none => rfl
      | some q => simp [hao, hbo] at ho
    | some p =>
      cases hbo : b.originator with
      | none => simp [hao, hbo] at ho
      | some q =>
        have hid : p.id = q.id := by simpa [hao, hbo] using ho
        rw [← ha p hao, ← hb q hbo, hid]
  obtain ⟨ac, ae, ap, ao, har⟩ := a
  obtain ⟨bc, be, bp, bo, hbr⟩ := b
  simp only at hc he hp horiginator
  subst hc he hp horiginator
  rfl

theorem mem_keys_scrapeInto {T : Type*} [BEq T] {state : StatusMap T} {scraped : List T} {ts : ℤ}
    {q : T} (hq : q ∈ (scrapeInto state scraped ts).keys) : q ∈ state.keys ∨ q ∈ scraped := by
  have hkeys : (deactivateAll state).keys = state.keys := by
    simp [deactivateAll, AssocMap.keys, AssocMap.filterMap]
  have hfold (m : StatusMap T) (l : List T) (status : ConnStatus)
      (hm : q ∈ (l.foldl (fun m obj => (emplaceOrUpdate m obj status).2) m).keys) :
      q ∈ m.keys ∨ q ∈ l := by
    induction l generalizing m with
    | nil => exact Or.inl hm
    | cons obj l ih =>
      rcases ih _ hm with hin | hin
      · unfold emplaceOrUpdate at hin
        cases hfind : m.find? obj with
        | none =>
          simp only [hfind] at hin
          rcases AssocMap.mem_keys_insert hin with hin | rfl
          · exact Or.inl hin
          · exact Or.inr List.mem_cons_self
        | some stored =>
          simp only [hfind] at hin
          split_ifs at hin with hlt
          · rw [AssocMap.keys_set] at hin
            exact Or.inl hin
          · exact Or.inl hin
      · exact Or.inr (List.mem_cons_of_mem _ hin)
  rcases hfold _ _ _ hq with hin | hin
  · exact Or.inl (hkeys ▸ hin)
  · exact Or.inr hin

namespace ConnectionTracker

/-- Every stored endpoint names a process object and carries the time of a scrape. -/
structure EndpointsFrom (object : ℕ → IProcess) (times : List ℤ) (t : ConnectionTracker) :
    Prop where
  objects : ∀ q ∈ t.endpointState.keys, q.FromObject object
  stamped : ∀ q s, t.endpointState.find? q = some s → s.lastActiveTime ∈ times

variable {object : ℕ → IProcess} {times : List ℤ} {t : ConnectionTracker}

theorem EndpointsFrom.mono {times' : List ℤ} (h : t.EndpointsFrom object times)
    (hsub : times ⊆ times') : t.EndpointsFrom object times' :=
  ⟨h.objects, fun q s hs => hsub (h.stamped q s hs)⟩

theorem EndpointsFrom.update (h : t.EndpointsFrom object times) (conns : List RawConnection)
    {eps : List ContainerEndpoint} (heps : ∀ e ∈ eps, e.FromObject object) {ts : ℤ} (h0 : 0 ≤ ts)
    (h1 : ts < 2 ^ 63) (hlt : ∀ t ∈ times, t < ts) :
    (t.update conns eps ts).EndpointsFrom object (times ++ [ts]) := by
  have hfind := find?_scrapeInto t.endpointState eps ts
  constructor
  · intro q hq
    rw [endpointState_update] at hq
    rcases mem_keys_scrapeInto hq with hq | hq
    · exact h.objects q hq
    · exact heps q hq
  · intro q s hs
    rw [endpointState_update, hfind] at hs
    split_ifs at hs with hany
    · have htime := lastActiveTime_scrapedStatus ts h0 h1 (t.endpointState.find? q)
      rw [← Option.some.inj hs, htime]
      cases hq : t.endpointState.find? q with
      | none => simp
      | some stored =>
        have hle := (hlt _ (h.stamped q stored hq)).le
        simp [max_eq_right hle]
    · obtain ⟨stored, hstored, rfl⟩ := Option.map_eq_some_iff.mp hs
      have hold := h.stamped q stored hstored
      simp [hold]

theorem EndpointsFrom.fetchEndpointState (h : t.EndpointsFrom object times) :
    (t.fetchEndpointState true true).2.EndpointsFrom object times := by
  have hstate : (t.fetchEndpointState true true).2.endpointState =
      t.endpointState.filter fun _ s => s.isActive := rfl
  constructor
  · intro q hq
    rw [hstate, AssocMap.keys, AssocMap.entries_filter] at hq
    obtain ⟨e, he, rfl⟩ := List.mem_map.mp hq
    exact h.objects e.1 (List.mem_map_of_mem (List.mem_filter.mp he).1)
  · intro q s hs
    rw [hstate, AssocMap.find?_filter t.endpointState _ (fun _ _ _ _ => rfl),
      Option.filter_eq_some_iff] at hs
    exact h.stamped q s hs.1

/-- After a scrape that is later than every stored time, the active endpoints are the scraped
ones. -/
theorem EndpointsFrom.active_update_iff (h : t.EndpointsFrom object times)
    (conns : List RawConnection) {eps : List ContainerEndpoint}
    (heps : ∀ e ∈ eps, e.FromObject object) {ts : ℤ} (h0 : 0 ≤ ts) (h1 : ts < 2 ^ 63)
    (hlt : ∀ t ∈ times, t < ts) (q : ContainerEndpoint) :
    (∃ e ∈ (t.update conns eps ts).endpointState.entries, e.1 = q ∧ e.2.isActive = true) ↔
      q ∈ eps := by
  have hfind := find?_scrapeInto t.endpointState eps ts
  have hkeys := (h.update conns heps h0 h1 hlt).objects
  rw [endpointState_update] at hkeys ⊢
  constructor
  · intro he
    obtain ⟨e, he, rfl, hact⟩ := he
    have hstored := AssocMap.find?_of_mem _ he
    rw [hfind] at hstored
    split_ifs at hstored with hany
    · obtain ⟨x, hx, hxe⟩ := List.any_eq_true.mp hany
      have heq := (heps x hx).eq_of_beq (hkeys e.1 (List.mem_map_of_mem he)) hxe
      rwa [← heq]
    · obtain ⟨stored, _, heq⟩ := Option.map_eq_some_iff.mp hstored
      rw [← heq, ConnStatus.isActive_setActive] at hact
      cases hact
  · intro hq
    have hany : eps.any (· == q) = true := List.any_eq_true.mpr ⟨q, hq, BEq.rfl⟩
    have hstored := hfind q
    rw [if_pos hany] at hstored
    obtain ⟨e, he, heq, hstatus⟩ := (AssocMap.find?_eq_some_iff _ q _).mp hstored
    refine ⟨e, he, (hkeys e.1 (List.mem_map_of_mem he)).eq_of_beq (heps q hq) heq, ?_⟩
    rw [hstatus, isActive_scrapedStatus_iff ts h0 h1]
    exact fun s hs => hlt _ (h.stamped q s hs)

/-- Skipping the filters when there are none makes no difference to endpoints. -/
theorem fetchesMax_advertised (t : ConnectionTracker) :
    FetchesMax ContainerEndpoint.advertised t.shouldFetchContainerEndpoint t.endpointState
      (t.fetchEndpointState true true).1 := by
  have hequiv (S : Set AdvertisedEndpoint) : AssocMap.EquivOn S :=
    ⟨fun _ _ => BEq.rfl, fun _ _ _ _ h => BEq.symm h, fun _ _ _ _ _ _ h h' => BEq.trans h h'⟩
  have hfilter : (if t.hasConnectionFilters then t.shouldFetchContainerEndpoint
      else fun _ => true) = t.shouldFetchContainerEndpoint := by
    by_cases hfilters : t.hasConnectionFilters = true
    · rw [if_pos hfilters]
    · have hports : t.ignoredL4protoPortPairs = ∅ := by
        simp only [hasConnectionFilters, Bool.or_eq_true, not_or] at hfilters
        simpa using hfilters.1
      rw [if_neg hfilters]
      funext cep
      simp [shouldFetchContainerEndpoint, isIgnoredL4ProtoPortPair, hports]
  have hmax := fetchesMax_normalize ContainerEndpoint.advertised
    (if t.hasConnectionFilters then t.shouldFetchContainerEndpoint else fun _ => true)
    t.endpointState (hequiv _) true
  rw [hfilter] at hmax
  change FetchesMax _ _ _ (fetchState t.endpointState true true ContainerEndpoint.advertised
    (if t.hasConnectionFilters then t.shouldFetchContainerEndpoint else fun _ => true)).1
  rwa [hfilter]

theorem fetchEndpointState_any_iff (t : ConnectionTracker) (c : AdvertisedEndpoint) :
    ((t.fetchEndpointState true true).1.find? c).any ConnStatus.isActive = true ↔
      ∃ e ∈ t.endpointState.entries, t.shouldFetchContainerEndpoint e.1 = true ∧
        (e.1.advertised == c) = true ∧ e.2.isActive = true :=
  t.fetchesMax_advertised.any_isActive_iff c

theorem find?_fetchEndpointState_eq_none {c : AdvertisedEndpoint}
    (h : ∀ q ∈ t.endpointState.keys, (q.advertised == c) = false) :
    (t.fetchEndpointState true true).1.find? c = none := by
  cases hfind : (t.fetchEndpointState true true).1.find? c with
  | none => rfl
  | some s =>
    obtain ⟨x, hx, hxc, _⟩ := (AssocMap.find?_eq_some_iff _ c s).mp hfind
    obtain ⟨e, he, _, hkey⟩ := t.fetchesMax_advertised.keys x.1 (List.mem_map_of_mem hx)
    rw [hkey, h e.1 (List.mem_map_of_mem he)] at hxc
    cases hxc

end ConnectionTracker

namespace NotifierConfig

variable (config : NotifierConfig)

theorem mem_listenEndpoints {eps : List ContainerEndpoint} {e : ContainerEndpoint}
    (he : e ∈ config.listenEndpoints eps) : e ∈ eps := by
  unfold listenEndpoints at he
  split_ifs at he
  · exact he
  · cases he

variable (t : ConnectionTracker) (s : StreamState) (turn : Turn)

theorem report_tracker : ∃ conns, (config.report t s turn).1 =
    { (t.fetchEndpointState true true).2 with
      connState := conns
      externalIpsConfig := turn.externalIPs } := ⟨_, rfl⟩

/-- Whether there is a message or not, the endpoint difference is what the receiver gets. -/
theorem report_message :
    match (config.report t s turn).2.2 with
    | none => (computeDelta (t.fetchEndpointState true true).1 s.oldCepState).entries = []
    | some msg => msg.updatedEndpoints.Perm
        (computeDelta (t.fetchEndpointState true true).1 s.oldCepState).entries := by
  obtain ⟨connDelta, hmsg⟩ : ∃ connDelta, (config.report t s turn).2.2 =
      config.createInfoMessage turn.order connDelta
        (computeDelta (t.fetchEndpointState true true).1 s.oldCepState) := ⟨_, rfl⟩
  rw [hmsg]
  unfold createInfoMessage
  by_cases hempty : connDelta.size = 0 ∧
      (computeDelta (t.fetchEndpointState true true).1 s.oldCepState).size = 0
  · rw [if_pos hempty]
    exact List.length_eq_zero_iff.mp hempty.2
  · rw [if_neg hempty]
    exact turn.order.perm_endpoints _

end NotifierConfig

namespace Notifier

variable {config : NotifierConfig} {n : Notifier} {turn : Turn}

theorem openAfter_append {sent sent' : List InfoMessage}
    {updates : List (AdvertisedEndpoint × ConnStatus)}
    (h : sent'.flatMap InfoMessage.updatedEndpoints =
      sent.flatMap InfoMessage.updatedEndpoints ++ updates) :
    openAfter sent' = receiveAll (openAfter sent) updates := by
  simp [openAfter, receiveAll, h]

/-- What a turn can do: nothing, without a stream or after a failed scrape; or report, and lose
the stream or send the endpoint difference on it. -/
theorem runTurn_cases (config : NotifierConfig) (n : Notifier) (turn : Turn) :
    (n.runTurn config turn = n ∧
      (n.stream = none ∨ config.updateAllConnsAndEndpoints n.tracker turn = none)) ∨
    ∃ s sent t, n.stream = some (s, sent) ∧
      config.updateAllConnsAndEndpoints n.tracker turn = some t ∧
      (n.runTurn config turn).tracker = (config.report t s turn).1 ∧
      ((n.runTurn config turn).stream = none ∨
        ∃ sent', (n.runTurn config turn).stream = some ((config.report t s turn).2.1, sent') ∧
          ∃ updates, updates.Perm
              (computeDelta (t.fetchEndpointState true true).1 s.oldCepState).entries ∧
            sent'.flatMap InfoMessage.updatedEndpoints =
              sent.flatMap InfoMessage.updatedEndpoints ++ updates) := by
  unfold runTurn
  cases hstream : n.stream with
  | none => exact Or.inl ⟨rfl, Or.inl rfl⟩
  | some st =>
    obtain ⟨s, sent⟩ := st
    cases hupdate : config.updateAllConnsAndEndpoints n.tracker turn with
    | none => exact Or.inl ⟨rfl, Or.inr rfl⟩
    | some t =>
      refine Or.inr ⟨s, sent, t, rfl, rfl, ?_⟩
      have hmsg := config.report_message t s turn
      dsimp only
      generalize config.report t s turn = r at hmsg ⊢
      obtain ⟨t', s', msg⟩ := r
      cases msg with
      | none => exact ⟨rfl, Or.inr ⟨sent, rfl, [], List.Perm.of_eq hmsg.symm, by simp⟩⟩
      | some msg =>
        cases hwritten : turn.written with
        | false => exact ⟨rfl, Or.inl rfl⟩
        | true =>
          exact ⟨rfl, Or.inr ⟨sent ++ [msg], rfl, msg.updatedEndpoints, hmsg, by simp⟩⟩

/-- The receiver of the open stream has the active endpoints of its state open. -/
def Known (n : Notifier) : Prop :=
  ∀ s sent, n.stream = some (s, sent) → ∀ c,
    openAfter sent c = (s.oldCepState.find? c).any ConnStatus.isActive

theorem Known.step (h : n.Known) (e : NotifierEvent) : (n.step config e).Known := by
  cases e with
  | updateConnection conn timestamp added => exact h
  | control msg => exact h
  | opened nowMicros externalIPs =>
    intro s sent hs c
    obtain ⟨rfl, rfl⟩ := Prod.mk.inj (Option.some.inj hs)
    rfl
  | turn r =>
    intro s' sent' hs' c
    change (n.runTurn config r).stream = some (s', sent') at hs'
    rcases runTurn_cases config n r with
      ⟨hsame, _⟩ | ⟨s, sent, t, hstream, _, _, hnone | ⟨sent'', hsome, updates, hperm, hsent⟩⟩
    · rw [hsame] at hs'
      exact h s' sent' hs' c
    · rw [hs'] at hnone
      cases hnone
    · rw [hs'] at hsome
      obtain ⟨rfl, rfl⟩ := Prod.mk.inj (Option.some.inj hsome)
      rw [openAfter_append hsent]
      exact receiveAll_computeDelta _ _ _ (h s sent hstream) hperm c
  | hungUp =>
    intro s sent hs
    cases hs

theorem known_run (config : NotifierConfig) (t₀ : ConnectionTracker)
    (es : List NotifierEvent) :
    (run config ⟨t₀, none⟩ es).Known := by
  induction es using List.reverseRecOn with
  | nil =>
    intro s sent hs
    cases hs
  | append_singleton es e ih =>
    rw [run, List.foldl_append]
    exact ih.step e

end Notifier

end AcsNext.Collector
