import AcsNext.Collector.StatusNotifier

/-! What the receiver knows of the listening endpoints while scrapes fail and streams break and
are opened again. -/
namespace AcsNext.Collector
open AcsNext.Data

def NotifierEvent.scrapeTime : NotifierEvent → Option ℤ
  | .turn r => r.scraped.map fun _ => r.ts
  | _ => none

/-- An endpoint of the scrape of the event, if it is a turn that scrapes. -/
def NotifierEvent.Lists (e : NotifierEvent) (cep : ContainerEndpoint) : Prop :=
  ∃ r conns eps, e = .turn r ∧ r.scraped = some (conns, eps) ∧ cep ∈ eps

/-- What a run may rely on: the clock that stamps the scrapes advances, and endpoints name
process objects. -/
structure Scrapes (object : ℕ → IProcess) (es : List NotifierEvent) : Prop where
  ordered : (es.filterMap NotifierEvent.scrapeTime).Pairwise (· < ·)
  range : ∀ ts ∈ es.filterMap NotifierEvent.scrapeTime, 0 ≤ ts ∧ ts < 2 ^ 63
  objects : ∀ e ∈ es, ∀ cep, e.Lists cep → cep.FromObject object

namespace NotifierConfig

variable (config : NotifierConfig)

/-- The endpoints of the last scrape after an event, for the stream that is open then. -/
def scrapedAfter (scraped : List ContainerEndpoint) : NotifierEvent → List ContainerEndpoint
  | .opened _ _ => []
  | .turn turn =>
    if config.turnOffScrape then scraped
    else
      match turn.scraped with
      | none => scraped
      | some (_, eps) => config.listenEndpoints eps
  | _ => scraped

def lastScrape (es : List NotifierEvent) : List ContainerEndpoint :=
  es.foldl config.scrapedAfter []

end NotifierConfig

namespace Notifier

variable {config : NotifierConfig} {n : Notifier} {turn : Turn}

/-- The invariant of a run: the tracker holds endpoints of earlier scrapes, and the state of the
open stream those of the last one. -/
structure EndpointRun (config : NotifierConfig) (t₀ : ConnectionTracker) (object : ℕ → IProcess)
    (es : List NotifierEvent) (n : Notifier) : Prop where
  ignored : n.tracker.ignoredL4protoPortPairs = t₀.ignoredL4protoPortPairs
  stored : n.tracker.EndpointsFrom object (es.filterMap NotifierEvent.scrapeTime)
  off : config.turnOffScrape = true →
    n.tracker.endpointState.entries = [] ∧ config.lastScrape es = []
  scraped : ∀ s sent, n.stream = some (s, sent) → ∀ c,
    (s.oldCepState.find? c).any ConnStatus.isActive = true ↔
      ∃ e ∈ config.lastScrape es, t₀.shouldFetchContainerEndpoint e = true ∧
        (e.advertised == c) = true

variable {t₀ : ConnectionTracker} {object : ℕ → IProcess} {es : List NotifierEvent}

theorem lastScrape_append (config : NotifierConfig) (es : List NotifierEvent) (e : NotifierEvent) :
    config.lastScrape (es ++ [e]) = config.scrapedAfter (config.lastScrape es) e := by
  simp [NotifierConfig.lastScrape]

theorem Scrapes.of_append {e : NotifierEvent} (h : Scrapes object (es ++ [e])) :
    Scrapes object es where
  ordered := by
    have hordered := h.ordered
    rw [List.filterMap_append] at hordered
    exact (List.pairwise_append.mp hordered).1
  range ts hts := h.range ts (by simp [hts])
  objects e' he' := h.objects e' (List.mem_append_left _ he')

theorem Scrapes.earlier {r : Turn} {scraped : List RawConnection × List ContainerEndpoint}
    (h : Scrapes object (es ++ [.turn r])) (hr : r.scraped = some scraped) :
    (0 ≤ r.ts ∧ r.ts < 2 ^ 63) ∧
      ∀ ts ∈ es.filterMap NotifierEvent.scrapeTime, ts < r.ts := by
  have hlast : [NotifierEvent.turn r].filterMap NotifierEvent.scrapeTime = [r.ts] := by
    simp [NotifierEvent.scrapeTime, hr]
  have hordered := h.ordered
  rw [List.filterMap_append, hlast] at hordered
  refine ⟨h.range r.ts (by rw [List.filterMap_append, hlast]; simp), fun ts hts => ?_⟩
  exact (List.pairwise_append.mp hordered).2.2 ts hts r.ts (by simp)

theorem shouldFetch_congr {t t' : ConnectionTracker}
    (h : t.ignoredL4protoPortPairs = t'.ignoredL4protoPortPairs) (cep : ContainerEndpoint) :
    t.shouldFetchContainerEndpoint cep = t'.shouldFetchContainerEndpoint cep := by
  simp only [ConnectionTracker.shouldFetchContainerEndpoint,
    ConnectionTracker.isIgnoredL4ProtoPortPair, h]

theorem ignored_update (t : ConnectionTracker) (conns : List RawConnection)
    (eps : List ContainerEndpoint) (ts : ℤ) :
    (t.update conns eps ts).ignoredL4protoPortPairs = t.ignoredL4protoPortPairs := by
  have hconns (l : List RawConnection) (status : ConnStatus) (t : ConnectionTracker) :
      (l.foldl (fun t conn => t.emplaceOrUpdateConnection conn status) t).ignoredL4protoPortPairs =
        t.ignoredL4protoPortPairs := by
    induction l generalizing t with
    | nil => rfl
    | cons conn l ih => exact ih (t.emplaceOrUpdateConnection conn status)
  have heps (l : List ContainerEndpoint) (status : ConnStatus) (t : ConnectionTracker) :
      (l.foldl (fun t ep => t.emplaceOrUpdateEndpoint ep status) t).ignoredL4protoPortPairs =
        t.ignoredL4protoPortPairs := by
    induction l generalizing t with
    | nil => rfl
    | cons ep l ih => exact ih (t.emplaceOrUpdateEndpoint ep status)
  rw [ConnectionTracker.update, heps, hconns]

/-- What a turn fetches: the unignored endpoints of the last scrape are the active ones. -/
theorem EndpointRun.scrape {r : Turn} {t : ConnectionTracker}
    (h : EndpointRun config t₀ object es n) (hes : Scrapes object (es ++ [.turn r]))
    (ht : config.updateAllConnsAndEndpoints n.tracker r = some t) :
    t.ignoredL4protoPortPairs = t₀.ignoredL4protoPortPairs ∧
      t.EndpointsFrom object ((es ++ [NotifierEvent.turn r]).filterMap NotifierEvent.scrapeTime) ∧
      (config.turnOffScrape = true → t.endpointState.entries = [] ∧
        config.lastScrape (es ++ [.turn r]) = []) ∧
      ∀ c, ((t.fetchEndpointState true true).1.find? c).any ConnStatus.isActive = true ↔
        ∃ e ∈ config.lastScrape (es ++ [.turn r]), t₀.shouldFetchContainerEndpoint e = true ∧
          (e.advertised == c) = true := by
  rw [lastScrape_append]
  unfold NotifierConfig.updateAllConnsAndEndpoints at ht
  by_cases hoff : config.turnOffScrape = true
  · rw [if_pos hoff] at ht
    obtain rfl := Option.some.inj ht
    obtain ⟨hentries, hlast⟩ := h.off hoff
    have hkept : config.scrapedAfter (config.lastScrape es) (.turn r) = [] := by
      simp [NotifierConfig.scrapedAfter, hoff, hlast]
    refine ⟨h.ignored, h.stored.mono (by simp), fun _ => ⟨hentries, hkept⟩, fun c => ?_⟩
    rw [ConnectionTracker.fetchEndpointState_any_iff, hkept, hentries]
    simp
  · rw [if_neg hoff] at ht
    cases hr : r.scraped with
    | none => simp [hr] at ht
    | some scraped =>
      obtain ⟨conns, eps⟩ := scraped
      simp only [hr, Option.some.injEq] at ht
      obtain ⟨⟨h0, h1⟩, hlt⟩ := Scrapes.earlier hes hr
      have hobjects : ∀ e ∈ config.listenEndpoints eps, e.FromObject object := fun e he =>
        hes.objects (.turn r) (by simp) e
          ⟨r, conns, eps, rfl, hr, config.mem_listenEndpoints he⟩
      have hignored : t.ignoredL4protoPortPairs = t₀.ignoredL4protoPortPairs := by
        rw [← ht, ignored_update, h.ignored]
      have htimes : (es ++ [NotifierEvent.turn r]).filterMap NotifierEvent.scrapeTime =
          es.filterMap NotifierEvent.scrapeTime ++ [r.ts] := by
        simp [NotifierEvent.scrapeTime, hr]
      refine ⟨hignored, ?_, fun hon => absurd hon hoff, fun c => ?_⟩
      · rw [htimes, ← ht]
        exact h.stored.update conns hobjects h0 h1 hlt
      · have hactive := h.stored.active_update_iff conns hobjects h0 h1 hlt
        rw [ht] at hactive
        have hlast : config.scrapedAfter (config.lastScrape es) (.turn r) =
            config.listenEndpoints eps := by
          simp [NotifierConfig.scrapedAfter, hoff, hr]
        rw [ConnectionTracker.fetchEndpointState_any_iff, hlast]
        simp only [← hactive, shouldFetch_congr hignored]
        constructor
        · intro he
          obtain ⟨e, he, hf, hc, hact⟩ := he
          exact ⟨e.1, ⟨e, he, rfl, hact⟩, hf, hc⟩
        · intro hq
          obtain ⟨q, ⟨e, he, rfl, hact⟩, hf, hc⟩ := hq
          exact ⟨e, he, hf, hc, hact⟩

theorem EndpointRun.runTurn {r : Turn} (h : EndpointRun config t₀ object es n)
    (hes : Scrapes object (es ++ [.turn r])) :
    EndpointRun config t₀ object (es ++ [.turn r]) (n.runTurn config r) := by
  rcases runTurn_cases config n r with
    ⟨hsame, hidle⟩ | ⟨s, sent, t, hstream, hupdate, htracker, hnext⟩
  · rw [hsame]
    refine ⟨h.ignored, h.stored.mono (by simp), fun hoff => ?_, fun s sent hs => ?_⟩
    · obtain ⟨hentries, hlast⟩ := h.off hoff
      exact ⟨hentries, by simp [lastScrape_append, NotifierConfig.scrapedAfter, hoff, hlast]⟩
    · -- with a stream, the turn is idle because its scrape failed
      rcases hidle with hnone | hfailed
      · rw [hs] at hnone
        cases hnone
      · have hlast : config.lastScrape (es ++ [.turn r]) = config.lastScrape es := by
          rw [lastScrape_append]
          unfold NotifierConfig.updateAllConnsAndEndpoints at hfailed
          cases hr : r.scraped with
          | none => simp [NotifierConfig.scrapedAfter, hr]
          | some scraped =>
            by_cases hoff : config.turnOffScrape = true <;> simp [hoff, hr] at hfailed
        rw [hlast]
        exact h.scraped s sent hs
  · obtain ⟨hignored, hstored, hoff, hscraped⟩ := h.scrape hes hupdate
    obtain ⟨conns, hreport⟩ := config.report_tracker t s r
    rw [hreport] at htracker
    have hkept : (n.runTurn config r).tracker.EndpointsFrom object
        ((es ++ [NotifierEvent.turn r]).filterMap NotifierEvent.scrapeTime) := by
      rw [htracker]
      exact ⟨hstored.fetchEndpointState.objects, hstored.fetchEndpointState.stamped⟩
    have hcleared (ho : config.turnOffScrape = true) :
        (n.runTurn config r).tracker.endpointState.entries = [] := by
      have hfilter := t.endpointState.entries_filter fun _ s => s.isActive
      rw [(hoff ho).1] at hfilter
      rw [htracker]
      exact hfilter
    refine ⟨by rw [htracker]; exact hignored, hkept, fun ho => ⟨hcleared ho, (hoff ho).2⟩, ?_⟩
    intro s' sent' hs' c
    rcases hnext with hnone | ⟨sent'', hsome, _⟩
    · rw [hs'] at hnone
      cases hnone
    · rw [hs'] at hsome
      obtain ⟨rfl, rfl⟩ := Prod.mk.inj (Option.some.inj hsome)
      exact hscraped c

/-- Events that leave the stored endpoints alone, and keep, end or open the stream. -/
theorem EndpointRun.frame {e : NotifierEvent} {n' : Notifier}
    (h : EndpointRun config t₀ object es n)
    (htracker : n'.tracker.endpointState = n.tracker.endpointState ∧
      n'.tracker.ignoredL4protoPortPairs = n.tracker.ignoredL4protoPortPairs)
    (hstream : ((∀ s sent, n'.stream = some (s, sent) → n.stream = some (s, sent)) ∧
        config.scrapedAfter (config.lastScrape es) e = config.lastScrape es) ∨
      ((∀ s sent, n'.stream = some (s, sent) → s.oldCepState = ∅) ∧
        config.scrapedAfter (config.lastScrape es) e = [])) :
    EndpointRun config t₀ object (es ++ [e]) n' := by
  have hsub : es.filterMap NotifierEvent.scrapeTime ⊆
      (es ++ [e]).filterMap NotifierEvent.scrapeTime := by
    rw [List.filterMap_append]
    exact List.subset_append_left _ _
  have hstored : n'.tracker.EndpointsFrom object
      ((es ++ [e]).filterMap NotifierEvent.scrapeTime) := by
    have hmono := h.stored.mono hsub
    exact ⟨htracker.1 ▸ hmono.objects, htracker.1 ▸ hmono.stamped⟩
  have hignored := htracker.2.trans h.ignored
  rcases hstream with ⟨hsame, hlast⟩ | ⟨hfresh, hlast⟩
  · refine ⟨hignored, hstored, fun hoff => ?_, fun s sent hs => ?_⟩
    · rw [htracker.1, lastScrape_append, hlast]
      exact h.off hoff
    · rw [lastScrape_append, hlast]
      exact h.scraped s sent (hsame s sent hs)
  · refine ⟨hignored, hstored, fun hoff => ?_, fun s sent hs c => ?_⟩
    · rw [htracker.1, lastScrape_append, hlast]
      exact ⟨(h.off hoff).1, rfl⟩
    · rw [hfresh s sent hs, lastScrape_append, hlast]
      simp

theorem endpointState_onRecvControlMessage (t : ConnectionTracker)
    (msg : Option NetworkFlowsControlMessage) :
    (t.onRecvControlMessage msg).endpointState = t.endpointState ∧
      (t.onRecvControlMessage msg).ignoredL4protoPortPairs = t.ignoredL4protoPortPairs := by
  cases msg with
  | none => exact ⟨rfl, rfl⟩
  | some msg =>
    unfold ConnectionTracker.onRecvControlMessage
    cases hnetworks : msg.ipNetworks with
    | none => simp [hnetworks]
    | some networks =>
      simp only [hnetworks, Option.isSome_some, if_true]
      exact ⟨rfl, rfl⟩

theorem endpointRun_run (config : NotifierConfig) (ht₀ : t₀.endpointState = ∅)
    (hes : Scrapes object es) :
    EndpointRun config t₀ object es (run config ⟨t₀, none⟩ es) := by
  induction es using List.reverseRecOn with
  | nil =>
    refine ⟨rfl, ⟨fun q hq => ?_, fun q s hs => ?_⟩, fun _ => ⟨?_, rfl⟩, fun s sent hs => ?_⟩
    · rw [run, List.foldl_nil, ht₀] at hq
      cases hq
    · rw [run, List.foldl_nil, ht₀] at hs
      cases hs
    · rw [run, List.foldl_nil, ht₀]
      rfl
    · cases hs
  | append_singleton es e ih =>
    have hbefore := ih (Scrapes.of_append hes)
    have hrun : run config ⟨t₀, none⟩ (es ++ [e]) =
        (run config ⟨t₀, none⟩ es).step config e := by
      simp [run]
    rw [hrun]
    cases e with
    | updateConnection conn timestamp added =>
      exact hbefore.frame ⟨rfl, rfl⟩ (Or.inl ⟨fun _ _ hs => hs, rfl⟩)
    | control msg =>
      exact hbefore.frame (endpointState_onRecvControlMessage _ msg)
        (Or.inl ⟨fun _ _ hs => hs, rfl⟩)
    | opened nowMicros externalIPs =>
      refine hbefore.frame ⟨rfl, rfl⟩ (Or.inr ⟨fun s sent hs => ?_, rfl⟩)
      obtain ⟨rfl, rfl⟩ := Prod.mk.inj (Option.some.inj hs)
      rfl
    | turn r => exact hbefore.runTurn hes
    | hungUp => exact hbefore.frame ⟨rfl, rfl⟩ (Or.inl ⟨fun _ _ hs => (by cases hs), rfl⟩)

def watchedConfig : NotifierConfig where
  turnOffScrape := false
  scrapeListenEndpoints := true
  enableAfterglow := true
  afterglowPeriod := 300000000
  perContainerRateLimit := 1024

def endpointTurn (scraped : Option (List ContainerEndpoint)) (ts : ℤ) (written : Bool) : Turn :=
  ⟨scraped.map fun eps => ([], eps), ts, ts + 1, ⟨.none⟩, .stored, written⟩

def listening : List NotifierEvent :=
  [.opened 0 ⟨.none⟩, .turn (endpointTurn (some [ConnectionTracker.listenEndpoint 1]) 5 true),
    .turn (endpointTurn none 7 true)]

theorem mem_of_lists_endpointTurn {scraped : Option (List ContainerEndpoint)} {ts : ℤ}
    {written : Bool} {cep : ContainerEndpoint}
    (h : (NotifierEvent.turn (endpointTurn scraped ts written)).Lists cep) :
    cep ∈ scraped.getD [] := by
  obtain ⟨r, conns, eps, hturn, hr, hcep⟩ := h
  rw [← NotifierEvent.turn.inj hturn] at hr
  obtain ⟨eps', rfl, heq⟩ := Option.map_eq_some_iff.mp hr
  rw [(Prod.mk.inj heq).2]
  exact hcep

theorem objects_listening : ∀ e ∈ listening, ∀ cep, e.Lists cep →
    cep.FromObject fun _ => ⟨1, "srv", "/bin/srv", ""⟩ := by
  intro e he cep hlists
  rcases List.mem_cons.mp he with rfl | he
  · obtain ⟨r, _, _, hturn, _⟩ := hlists
    cases hturn
  · rcases List.mem_cons.mp he with rfl | he
    · rw [List.mem_singleton.mp (mem_of_lists_endpointTurn hlists)]
      intro p hp
      rw [← Option.some.inj hp]
    · rw [List.mem_singleton.mp he] at hlists
      cases mem_of_lists_endpointTurn hlists

theorem mem_keys_updateAll {r : Turn} {t t' : ConnectionTracker} {q : ContainerEndpoint}
    (hupdate : config.updateAllConnsAndEndpoints t r = some t')
    (hq : q ∈ t'.endpointState.keys) :
    q ∈ t.endpointState.keys ∨ (NotifierEvent.turn r).Lists q := by
  unfold NotifierConfig.updateAllConnsAndEndpoints at hupdate
  by_cases hoff : config.turnOffScrape = true
  · rw [if_pos hoff] at hupdate
    rw [Option.some.inj hupdate]
    exact Or.inl hq
  · rw [if_neg hoff] at hupdate
    cases hr : r.scraped with
    | none => simp [hr] at hupdate
    | some scraped =>
      obtain ⟨conns, eps⟩ := scraped
      simp only [hr, Option.some.injEq] at hupdate
      rw [← hupdate, ConnectionTracker.endpointState_update] at hq
      rcases mem_keys_scrapeInto hq with hold | hnew
      · exact Or.inl hold
      · exact Or.inr ⟨r, conns, eps, rfl, hr, config.mem_listenEndpoints hnew⟩

theorem mem_keys_report {r : Turn} {t : ConnectionTracker} {s : StreamState}
    {q : ContainerEndpoint} (hq : q ∈ (config.report t s r).1.endpointState.keys) :
    ∃ e ∈ t.endpointState.entries, e.1 = q ∧ e.2.isActive = true := by
  obtain ⟨conns, hreport⟩ := config.report_tracker t s r
  rw [hreport] at hq
  have hentries := t.endpointState.entries_filter fun _ s => s.isActive
  change q ∈ (t.endpointState.filter fun _ s => s.isActive).entries.map Prod.fst at hq
  rw [hentries] at hq
  obtain ⟨e, he, rfl⟩ := List.mem_map.mp hq
  obtain ⟨he, hact⟩ := List.mem_filter.mp he
  exact ⟨e, he, rfl, hact⟩

theorem mem_keys_step {e : NotifierEvent} {q : ContainerEndpoint}
    (hq : q ∈ (n.step config e).tracker.endpointState.keys) :
    q ∈ n.tracker.endpointState.keys ∨ e.Lists q := by
  cases e with
  | updateConnection conn timestamp added => exact Or.inl hq
  | control msg =>
    refine Or.inl ?_
    rw [← (endpointState_onRecvControlMessage n.tracker msg).1]
    exact hq
  | opened nowMicros externalIPs => exact Or.inl hq
  | turn r =>
    change q ∈ (n.runTurn config r).tracker.endpointState.keys at hq
    rcases runTurn_cases config n r with
      ⟨hsame, _⟩ | ⟨s, sent, t, _, hupdate, htracker, _⟩
    · rw [hsame] at hq
      exact Or.inl hq
    · rw [htracker] at hq
      obtain ⟨e, he, rfl, _⟩ := mem_keys_report hq
      exact mem_keys_updateAll hupdate (List.mem_map_of_mem he)
  | hungUp => exact Or.inl hq

/-- Neither the tracker nor the open stream knows of the endpoint. -/
structure Forgotten (c : AdvertisedEndpoint) (n : Notifier) : Prop where
  stored : ∀ q ∈ n.tracker.endpointState.keys, (q.advertised == c) = false
  stream : ∀ s sent, n.stream = some (s, sent) → s.oldCepState.find? c = none ∧
    ∀ x ∈ sent.flatMap InfoMessage.updatedEndpoints, (x.1 == c) = false

theorem Forgotten.step {c : AdvertisedEndpoint} (h : Forgotten c n) {e : NotifierEvent}
    (he : ∀ cep, e.Lists cep → (cep.advertised == c) = false) :
    Forgotten c (n.step config e) := by
  refine ⟨fun q hq => ?_, ?_⟩
  · rcases mem_keys_step hq with hold | hnew
    · exact h.stored q hold
    · exact he q hnew
  · cases e with
    | updateConnection conn timestamp added => exact h.stream
    | control msg => exact h.stream
    | opened nowMicros externalIPs =>
      intro s sent hs
      obtain ⟨rfl, rfl⟩ := Prod.mk.inj (Option.some.inj hs)
      exact ⟨rfl, by simp⟩
    | turn r =>
      intro s' sent' hs'
      change (n.runTurn config r).stream = some (s', sent') at hs'
      rcases runTurn_cases config n r with
        ⟨hsame, _⟩ | ⟨s, sent, t, hstream, hupdate, _, hnone | ⟨sent'', hsome, updates, hperm, hsent⟩⟩
      · rw [hsame] at hs'
        exact h.stream s' sent' hs'
      · rw [hs'] at hnone
        cases hnone
      · rw [hs'] at hsome
        obtain ⟨rfl, rfl⟩ := Prod.mk.inj (Option.some.inj hsome)
        obtain ⟨hold, hmessages⟩ := h.stream s sent hstream
        have hnew : (t.fetchEndpointState true true).1.find? c = none := by
          apply ConnectionTracker.find?_fetchEndpointState_eq_none
          intro q hq
          exact (mem_keys_updateAll hupdate hq).elim (h.stored q) (he q)
        refine ⟨hnew, fun x hx => ?_⟩
        rw [hsent, List.mem_append] at hx
        rcases hx with hx | hx
        · exact hmessages x hx
        · -- the difference binds the endpoint to nothing
          by_contra hxc
          have hentry := (AssocMap.find?_eq_some_iff _ c x.2).mpr
            ⟨x, hperm.subset hx, by simpa using hxc, rfl⟩
          rw [find?_computeDelta, hnew, hold] at hentry
          cases hentry
    | hungUp =>
      intro s sent hs
      cases hs

theorem Forgotten.run {c : AdvertisedEndpoint} (h : Forgotten c n) (es : List NotifierEvent)
    (hes : ∀ e ∈ es, ∀ cep, e.Lists cep → (cep.advertised == c) = false) :
    Forgotten c (n.run config es) := by
  induction es generalizing n with
  | nil => exact h
  | cons e es ih =>
    have hfirst : Forgotten c (n.step config e) := h.step (hes e List.mem_cons_self)
    exact ih hfirst fun e' he' => hes e' (List.mem_cons_of_mem _ he')

/-- Stored endpoints name process objects in every run whose scrapes do. -/
theorem objects_run (config : NotifierConfig) (ht₀ : t₀.endpointState = ∅)
    (hes : ∀ e ∈ es, ∀ cep, e.Lists cep → cep.FromObject object) :
    ∀ q ∈ (run config ⟨t₀, none⟩ es).tracker.endpointState.keys, q.FromObject object := by
  induction es using List.reverseRecOn with
  | nil =>
    intro q hq
    rw [run, List.foldl_nil, ht₀] at hq
    cases hq
  | append_singleton es e ih =>
    intro q hq
    rw [run, List.foldl_append] at hq
    rcases mem_keys_step hq with hold | hnew
    · exact ih (fun e' he' => hes e' (List.mem_append_left _ he')) q hold
    · exact hes e (by simp) q hnew

/-- After a scrape that does not list it, no active entry is advertised as the endpoint. -/
theorem not_active_of_unlisted {r : Turn} {t t' : ConnectionTracker} {c : AdvertisedEndpoint}
    (hon : config.turnOffScrape = false)
    (hupdate : config.updateAllConnsAndEndpoints t r = some t')
    (hstored : ∀ q ∈ t.endpointState.keys, q.FromObject object)
    (hscraped : ∀ cep, (NotifierEvent.turn r).Lists cep → cep.FromObject object)
    (hgone : ∀ cep, (NotifierEvent.turn r).Lists cep → (cep.advertised == c) = false)
    {e : ContainerEndpoint × ConnStatus} (he : e ∈ t'.endpointState.entries)
    (hact : e.2.isActive = true) : (e.1.advertised == c) = false := by
  have hobject : e.1.FromObject object :=
    (mem_keys_updateAll hupdate (List.mem_map_of_mem he)).elim (hstored e.1) (hscraped e.1)
  unfold NotifierConfig.updateAllConnsAndEndpoints at hupdate
  rw [if_neg (by simp [hon])] at hupdate
  cases hr : r.scraped with
  | none => simp [hr] at hupdate
  | some scraped =>
    obtain ⟨conns, eps⟩ := scraped
    simp only [hr, Option.some.injEq] at hupdate
    have hfind := AssocMap.find?_of_mem _ he
    rw [← hupdate, ConnectionTracker.endpointState_update, find?_scrapeInto] at hfind
    split_ifs at hfind with hany
    · obtain ⟨x, hx, hxe⟩ := List.any_eq_true.mp hany
      have hlists : (NotifierEvent.turn r).Lists x :=
        ⟨r, conns, eps, rfl, hr, config.mem_listenEndpoints hx⟩
      rw [← (hscraped x hlists).eq_of_beq hobject hxe]
      exact hgone x hlists
    · obtain ⟨stored, _, heq⟩ := Option.map_eq_some_iff.mp hfind
      rw [← heq, ConnStatus.isActive_setActive] at hact
      cases hact

end Notifier

end AcsNext.Collector
