import AcsNext.Collector.ConnTracker

/-! What a full scrape does to the stored connections and endpoints. -/
namespace AcsNext.Collector
open AcsNext.Data

section Upsert

variable {T : Type*} [BEq T]

/-- The loop of `Update` over the scraped keys of one map. -/
def scrapeInto (state : StatusMap T) (scraped : List T) (timestamp : ℤ) : StatusMap T :=
  scraped.foldl (fun m obj => (emplaceOrUpdate m obj (.ofTime timestamp true)).2)
    (deactivateAll state)

/-- What a scrape at `ts` should leave of a state, seen key by key. -/
structure ScrapeSpec (before after : StatusMap T) (scraped : List T) (ts : ℤ) : Prop where
  keys : ∀ q, after.contains q = (before.contains q || scraped.any (· == q))
  scraped_time : ∀ q s, after.find? q = some s → scraped.any (· == q) = true →
    s.lastActiveTime = match before.find? q with
      | none => ts
      | some stored => max stored.lastActiveTime ts
  other_time : ∀ q s, after.find? q = some s → scraped.any (· == q) = false →
    (before.find? q).map ConnStatus.lastActiveTime = some s.lastActiveTime
  scraped_active : ∀ q s, after.find? q = some s → scraped.any (· == q) = true →
    (∀ stored, before.find? q = some stored → stored.isActive = true ∨ stored.lastActiveTime ≤ ts) →
    s.isActive = true
  other_inactive : ∀ q s, after.find? q = some s → scraped.any (· == q) = false →
    s.isActive = false

/-- No scraped key is stored with the time of the scrape, nor as active with a later one. -/
def NoTimeAhead (before : StatusMap T) (scraped : List T) (ts : ℤ) : Prop :=
  ∀ q stored, before.find? q = some stored → scraped.any (· == q) = true →
    stored.lastActiveTime ≠ ts ∧ (ts < stored.lastActiveTime → stored.isActive = false)

variable [EquivBEq T]

def upsertStatus (status : ConnStatus) (stored : Option ConnStatus) : ConnStatus :=
  match stored with
  | none => status
  | some stored => if stored.lastActiveTime < status.lastActiveTime then status else stored

private theorem upsertStatus_idem (status : ConnStatus) (stored : Option ConnStatus) :
    upsertStatus status (some (upsertStatus status stored)) = upsertStatus status stored := by
  cases stored with
  | none => simp [upsertStatus]
  | some stored =>
    by_cases hlt : stored.lastActiveTime < status.lastActiveTime <;> simp [upsertStatus, hlt]

theorem find?_emplaceOrUpdate (m : StatusMap T) (obj : T) (status : ConnStatus) (q : T) :
    (emplaceOrUpdate m obj status).2.find? q =
      if obj == q then some (upsertStatus status (m.find? q)) else m.find? q := by
  unfold emplaceOrUpdate upsertStatus
  by_cases hq : (obj == q) = true
  · rw [m.find?_congr hq]
    cases hm : m.find? q with
    | none => simp [AssocMap.find?_insert, hq, hm]
    | some stored =>
      by_cases hlt : stored.lastActiveTime < status.lastActiveTime
      · simp [hlt, AssocMap.find?_set, hq, hm]
      · simp [hlt, hq, hm]
  · cases hm : m.find? obj with
    | none => simp [AssocMap.find?_insert, hq]
    | some stored =>
      by_cases hlt : stored.lastActiveTime < status.lastActiveTime <;>
        simp [hlt, AssocMap.find?_set, hq]

theorem find?_deactivateAll (m : StatusMap T) (q : T) :
    (deactivateAll m).find? q = (m.find? q).map (·.setActive false) := by
  rw [deactivateAll, AssocMap.find?_filterMap m _ (fun _ _ _ _ => rfl)]
  cases m.find? q <;> rfl

/-- Upserting one status under many keys upserts it once under each of them. -/
private theorem find?_foldl_emplace (status : ConnStatus) (scraped : List T) (m : StatusMap T)
    (q : T) :
    (scraped.foldl (fun m obj => (emplaceOrUpdate m obj status).2) m).find? q =
      if scraped.any (· == q) then some (upsertStatus status (m.find? q)) else m.find? q := by
  induction scraped generalizing m with
  | nil => rfl
  | cons obj scraped ih =>
    rw [List.foldl_cons, ih, find?_emplaceOrUpdate, List.any_cons]
    by_cases hq : (obj == q) = true
    · simp only [hq, Bool.true_or, if_true, upsertStatus_idem, ite_self]
    · simp only [hq, Bool.false_or, if_false, Bool.false_eq_true]

/-- What a scrape at `ts` leaves under a scraped key: a status that is not older only loses
its flag. -/
def scrapedStatus (ts : ℤ) (stored : Option ConnStatus) : ConnStatus :=
  upsertStatus (.ofTime ts true) (stored.map (·.setActive false))

theorem find?_scrapeInto (state : StatusMap T) (scraped : List T) (ts : ℤ) (q : T) :
    (scrapeInto state scraped ts).find? q =
      if scraped.any (· == q) then some (scrapedStatus ts (state.find? q))
      else (state.find? q).map (·.setActive false) := by
  unfold scrapeInto scrapedStatus
  rw [find?_foldl_emplace, find?_deactivateAll]

theorem lastActiveTime_scrapedStatus (ts : ℤ) (h0 : 0 ≤ ts) (h1 : ts < 2 ^ 63)
    (stored : Option ConnStatus) :
    (scrapedStatus ts stored).lastActiveTime = match stored with
      | none => ts
      | some s => max s.lastActiveTime ts := by
  have htime := ConnStatus.lastActiveTime_ofTime ts true h0 h1
  cases stored with
  | none => exact htime
  | some s =>
    by_cases hlt : s.lastActiveTime < ts
    · simp [scrapedStatus, upsertStatus, htime, hlt, hlt.le]
    · have hle : ts ≤ s.lastActiveTime := by omega
      simp [scrapedStatus, upsertStatus, htime, hlt, hle]

theorem isActive_scrapedStatus_iff (ts : ℤ) (h0 : 0 ≤ ts) (h1 : ts < 2 ^ 63)
    (stored : Option ConnStatus) :
    (scrapedStatus ts stored).isActive = true ↔ ∀ s, stored = some s → s.lastActiveTime < ts := by
  have htime := ConnStatus.lastActiveTime_ofTime ts true h0 h1
  cases stored with
  | none => simp [scrapedStatus, upsertStatus]
  | some s =>
    by_cases hlt : s.lastActiveTime < ts <;> simp [scrapedStatus, upsertStatus, htime, hlt]

/-- The keys and the times are as they should be after every scrape; the flags of scraped keys
are what can go wrong. -/
private theorem scrapeSpec_of_active (state : StatusMap T) (scraped : List T) (ts : ℤ)
    (h0 : 0 ≤ ts) (h1 : ts < 2 ^ 63)
    (hactive : ∀ q, scraped.any (· == q) = true →
      (∀ stored, state.find? q = some stored →
        stored.isActive = true ∨ stored.lastActiveTime ≤ ts) →
      (scrapedStatus ts (state.find? q)).isActive = true) :
    ScrapeSpec state (scrapeInto state scraped ts) scraped ts := by
  have hfind := find?_scrapeInto state scraped ts
  have hother (q : T) (s : ConnStatus) (hs : (scrapeInto state scraped ts).find? q = some s)
      (hq : scraped.any (· == q) = false) :
      ∃ stored, state.find? q = some stored ∧ stored.setActive false = s := by
    rw [hfind q, hq] at hs
    exact Option.map_eq_some_iff.mp hs
  have hscraped (q : T) (s : ConnStatus) (hs : (scrapeInto state scraped ts).find? q = some s)
      (hq : scraped.any (· == q) = true) : s = scrapedStatus ts (state.find? q) := by
    rw [hfind q, hq] at hs
    exact (Option.some.inj hs).symm
  constructor
  · intro q
    rw [AssocMap.contains_eq, AssocMap.contains_eq, hfind q]
    by_cases hq : scraped.any (· == q) = true <;> simp [hq]
  · intro q s hs hq
    rw [hscraped q s hs hq]
    exact lastActiveTime_scrapedStatus ts h0 h1 _
  · intro q s hs hq
    obtain ⟨stored, hstored, rfl⟩ := hother q s hs hq
    simp [hstored]
  · intro q s hs hq hor
    rw [hscraped q s hs hq]
    exact hactive q hq hor
  · intro q s hs hq
    obtain ⟨stored, _, rfl⟩ := hother q s hs hq
    simp

theorem scrapeSpec_iff (state : StatusMap T) (scraped : List T) (ts : ℤ) (h0 : 0 ≤ ts)
    (h1 : ts < 2 ^ 63) :
    ScrapeSpec state (scrapeInto state scraped ts) scraped ts ↔ NoTimeAhead state scraped ts := by
  have hactive (q : T) := isActive_scrapedStatus_iff ts h0 h1 (state.find? q)
  constructor
  · intro h q stored hstored hq
    have hfind := find?_scrapeInto state scraped ts q
    rw [if_pos hq] at hfind
    -- where the specification asks for an active key, the stored time has to be older
    have hlt (hor : stored.isActive = true ∨ stored.lastActiveTime ≤ ts) :
        stored.lastActiveTime < ts := by
      refine (hactive q).mp (h.scraped_active q _ hfind hq fun s hs => ?_) stored hstored
      rw [hstored] at hs
      rwa [← Option.some.inj hs]
    constructor
    · intro heq
      have := hlt (Or.inr heq.le)
      omega
    · intro hahead
      by_contra hact
      have := hlt (Or.inl (by simpa using hact))
      omega
  · intro h
    refine scrapeSpec_of_active state scraped ts h0 h1 fun q hq hor => ?_
    rw [hactive q]
    intro stored hstored
    obtain ⟨hne, hahead⟩ := h q stored hstored hq
    by_contra hge
    have hinactive := hahead (by omega)
    rcases hor stored hstored with hact | hle
    · simp [hinactive] at hact
    · omega

end Upsert

namespace ConnectionTracker

private theorem connState_foldl_conns (status : ConnStatus) (conns : List RawConnection)
    (t : ConnectionTracker) :
    (conns.foldl (fun t conn => t.emplaceOrUpdateConnection conn status) t).connState =
        conns.foldl (fun m conn => (emplaceOrUpdate m conn status).2) t.connState ∧
      (conns.foldl (fun t conn => t.emplaceOrUpdateConnection conn status) t).endpointState =
        t.endpointState := by
  induction conns generalizing t with
  | nil => exact ⟨rfl, rfl⟩
  | cons conn conns ih => exact ih (t.emplaceOrUpdateConnection conn status)

private theorem connState_foldl_endpoints (status : ConnStatus) (eps : List ContainerEndpoint)
    (t : ConnectionTracker) :
    (eps.foldl (fun t ep => t.emplaceOrUpdateEndpoint ep status) t).connState = t.connState ∧
      (eps.foldl (fun t ep => t.emplaceOrUpdateEndpoint ep status) t).endpointState =
        eps.foldl (fun m ep => (emplaceOrUpdate m ep status).2) t.endpointState := by
  induction eps generalizing t with
  | nil => exact ⟨rfl, rfl⟩
  | cons ep eps ih => exact ih (t.emplaceOrUpdateEndpoint ep status)

theorem connState_update (t : ConnectionTracker) (conns : List RawConnection)
    (eps : List ContainerEndpoint) (ts : ℤ) :
    (t.update conns eps ts).connState = scrapeInto t.connState conns ts := by
  rw [update, (connState_foldl_endpoints _ eps _).1, (connState_foldl_conns _ conns _).1]
  rfl

theorem endpointState_update (t : ConnectionTracker) (conns : List RawConnection)
    (eps : List ContainerEndpoint) (ts : ℤ) :
    (t.update conns eps ts).endpointState = scrapeInto t.endpointState eps ts := by
  rw [update, (connState_foldl_endpoints _ eps _).2, (connState_foldl_conns _ conns _).2]
  rfl

/-- A scrape leaves what it should exactly when no scraped key carries its time already, or,
while active, a later one. -/
theorem update_spec_iff (t : ConnectionTracker) (conns : List RawConnection)
    (eps : List ContainerEndpoint) (ts : ℤ) (h0 : 0 ≤ ts) (h1 : ts < 2 ^ 63) :
    (ScrapeSpec t.connState (t.update conns eps ts).connState conns ts ∧
      ScrapeSpec t.endpointState (t.update conns eps ts).endpointState eps ts) ↔
      NoTimeAhead t.connState conns ts ∧ NoTimeAhead t.endpointState eps ts := by
  rw [connState_update, endpointState_update]
  exact and_congr (scrapeSpec_iff _ _ _ h0 h1) (scrapeSpec_iff _ _ _ h0 h1)

/-- A client connection from 10.0.0.1:45000 to 10.0.0.2:443. -/
def scrapedConnection : RawConnection :=
  ⟨.new "c1" (.ofAddress (.ofBytes 10 0 0 1) 45000) (.ofAddress (.ofBytes 10 0 0 2) 443) .tcp false,
    rfl, rfl⟩

theorem update_spec_scrapedConnection :
    (ScrapeSpec (empty.updateConnection scrapedConnection 5 true).connState
        ((empty.updateConnection scrapedConnection 5 true).update [scrapedConnection] []
          7).connState [scrapedConnection] 7 ∧
      ScrapeSpec (empty.updateConnection scrapedConnection 5 true).endpointState
        ((empty.updateConnection scrapedConnection 5 true).update [scrapedConnection] []
          7).endpointState [] 7) ↔
      NoTimeAhead (empty.updateConnection scrapedConnection 5 true).connState
          [scrapedConnection] 7 ∧
        NoTimeAhead (empty.updateConnection scrapedConnection 5 true).endpointState [] 7 :=
  update_spec_iff _ _ _ 7 (by decide) (by decide)

/-- An event stamped at 9 reopens the connection while the scrape that began at 7 is read:
the scrape still lists the connection, yet it ends inactive. -/
theorem update_deactivates_live_connection :
    ((empty.updateConnection scrapedConnection 9 true).connState.find? scrapedConnection).map
        ConnStatus.isActive = some true ∧
      (((empty.updateConnection scrapedConnection 9 true).update [scrapedConnection] []
        7).connState.find? scrapedConnection).map ConnStatus.isActive = some false := by
  decide +kernel

end ConnectionTracker

end AcsNext.Collector
