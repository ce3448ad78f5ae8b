import AcsNext.Collector.ScrapeUpdate

/-! Connection events that arrive in any order: the tracker ends up with the latest event of
each connection, and has counted each connection once. -/
namespace AcsNext.Collector
open AcsNext.Data

structure ConnEvent where
  conn : RawConnection
  timestamp : ℤ
  added : Bool
deriving DecidableEq

def ConnEvent.LatestIn (es : List ConnEvent) (e : ConnEvent) : Prop :=
  e ∈ es ∧ ∀ e' ∈ es, e'.conn = e.conn → e'.timestamp ≤ e.timestamp

namespace ConnEvent.LatestIn

variable {es : List ConnEvent} {e e' : ConnEvent}

theorem append_self (h : ∀ x ∈ es, x.conn = e.conn → x.timestamp ≤ e.timestamp) :
    e.LatestIn (es ++ [e]) := by
  refine ⟨by simp, fun x hx hconn => ?_⟩
  rcases List.mem_append.mp hx with hx | hx
  · exact h x hx hconn
  · rw [List.mem_singleton.mp hx]

theorem append (h : e.LatestIn es) (hle : e'.conn = e.conn → e'.timestamp ≤ e.timestamp) :
    e.LatestIn (es ++ [e']) := by
  refine ⟨List.mem_append_left _ h.1, fun x hx hconn => ?_⟩
  rcases List.mem_append.mp hx with hx | hx
  · exact h.2 x hx hconn
  · rw [List.mem_singleton.mp hx] at hconn ⊢
    exact hle hconn

theorem unique (h : e.LatestIn es) (h' : e'.LatestIn es) (hconn : e.conn = e'.conn)
    (hdistinct : es.Pairwise fun x y => x.conn = y.conn → x.timestamp ≠ y.timestamp) : e = e' := by
  have : Std.Symm fun x y : ConnEvent => x.conn = y.conn → x.timestamp ≠ y.timestamp :=
    ⟨fun _ _ hxy hsame => (hxy hsame.symm).symm⟩
  by_contra hne
  have htime := le_antisymm (h'.2 e h.1 hconn) (h.2 e' h'.1 hconn.symm)
  exact hdistinct.forall h.1 h'.1 hne hconn htime

end ConnEvent.LatestIn

def Stats.counter (stats : Stats) (isServer isPublic : Bool) : BitVec 32 :=
  match isServer, isPublic with
  | true, true => stats.inboundPublic
  | true, false => stats.inboundPrivate
  | false, true => stats.outboundPublic
  | false, false => stats.outboundPrivate

namespace ConnectionTracker

variable (t : ConnectionTracker)

def updateConnections (es : List ConnEvent) : ConnectionTracker :=
  es.foldl (fun t e => t.updateConnection e.conn e.timestamp e.added) t

/-- The connection is fetched, and has this direction and kind of remote address. -/
def Counted (c : RawConnection) (isServer isPublic : Bool) : Prop :=
  t.shouldFetchConnection c.conn = true ∧ c.conn.isServer = isServer ∧
    c.conn.remote.address.isPublic = isPublic

instance (c : RawConnection) (isServer isPublic : Bool) :
    Decidable (t.Counted c isServer isPublic) :=
  inferInstanceAs (Decidable (t.shouldFetchConnection c.conn = true ∧ c.conn.isServer = isServer ∧
    c.conn.remote.address.isPublic = isPublic))

/-- The number of different connections of this direction and kind among the events. -/
def fetchableCount (es : List ConnEvent) (isServer isPublic : Bool) : ℕ :=
  ((es.map ConnEvent.conn).toFinset.filter fun c => t.Counted c isServer isPublic).card

theorem updateConnections_append_singleton (es : List ConnEvent) (e : ConnEvent) :
    t.updateConnections (es ++ [e]) =
      (t.updateConnections es).updateConnection e.conn e.timestamp e.added := by
  rw [updateConnections, List.foldl_append]
  rfl

private theorem find?_updateConnection (conn : RawConnection) (ts : ℤ) (added : Bool)
    (c : RawConnection) :
    (t.updateConnection conn ts added).connState.find? c =
      if conn = c then some (upsertStatus (.ofTime ts added) (t.connState.find? c))
      else t.connState.find? c := by
  have hfind := find?_emplaceOrUpdate t.connState conn (.ofTime ts added) c
  simp only [beq_iff_eq] at hfind
  exact hfind

/-- After any list of events a connection is stored exactly if it was mentioned, with the
status of one of its latest events. -/
private theorem find?_updateConnections (ht : t.connState = ∅) (es : List ConnEvent)
    (hrange : ∀ e ∈ es, 0 ≤ e.timestamp ∧ e.timestamp < 2 ^ 63) (c : RawConnection) :
    match (t.updateConnections es).connState.find? c with
    | none => ∀ e ∈ es, e.conn ≠ c
    | some s => ∃ e : ConnEvent, e.LatestIn es ∧ e.conn = c ∧ s = .ofTime e.timestamp e.added := by
  induction es using List.reverseRecOn with
  | nil => simp [updateConnections, ht]
  | append_singleton es e ih =>
    have ih := ih fun e' he' => hrange e' (List.mem_append_left _ he')
    have htime := ConnStatus.lastActiveTime_ofTime e.timestamp e.added
      (hrange e (by simp)).1 (hrange e (by simp)).2
    rw [updateConnections_append_singleton, find?_updateConnection]
    by_cases hc : e.conn = c
    · rw [if_pos hc]
      cases hfind : (t.updateConnections es).connState.find? c with
      | none =>
        rw [hfind] at ih
        have hlatest : e.LatestIn (es ++ [e]) := .append_self fun x hx hconn =>
          absurd (hconn.trans hc) (ih x hx)
        exact ⟨e, hlatest, hc, rfl⟩
      | some s =>
        rw [hfind] at ih
        obtain ⟨e0, h0, hc0, rfl⟩ := ih
        have hrange0 := hrange e0 (List.mem_append_left _ h0.1)
        have htime0 := ConnStatus.lastActiveTime_ofTime e0.timestamp e0.added hrange0.1 hrange0.2
        simp only [upsertStatus, htime, htime0]
        by_cases hlt : e0.timestamp < e.timestamp
        · rw [if_pos hlt]
          have hlatest : e.LatestIn (es ++ [e]) := .append_self fun x hx hconn =>
            (h0.2 x hx (hconn.trans (hc.trans hc0.symm))).trans hlt.le
          exact ⟨e, hlatest, hc, rfl⟩
        · rw [if_neg hlt]
          exact ⟨e0, h0.append fun _ => by omega, hc0, rfl⟩
    · rw [if_neg hc]
      cases hfind : (t.updateConnections es).connState.find? c with
      | none =>
        rw [hfind] at ih
        intro e' he'
        rcases List.mem_append.mp he' with he' | he'
        · exact ih e' he'
        · rwa [List.mem_singleton.mp he']
      | some s =>
        rw [hfind] at ih
        obtain ⟨e0, h0, hc0, hs⟩ := ih
        exact ⟨e0, h0.append fun hconn => absurd (hconn.trans hc0) hc, hc0, hs⟩

private theorem counter_incrementConnectionStats (c : RawConnection) (stats : Stats)
    (isServer isPublic : Bool) :
    (t.incrementConnectionStats c.conn stats).counter isServer isPublic =
      stats.counter isServer isPublic + if t.Counted c isServer isPublic then 1 else 0 := by
  unfold incrementConnectionStats
  by_cases hfetch : t.shouldFetchConnection c.conn = true
  · have hcounted : t.Counted c isServer isPublic ↔
        c.conn.isServer = isServer ∧ c.conn.remote.address.isPublic = isPublic := by
      simp [Counted, hfetch]
    simp only [hfetch, hcounted]
    cases c.conn.isServer <;> cases c.conn.remote.address.isPublic <;> cases isServer <;>
      cases isPublic <;> simp [Stats.counter]
  · have hcounted : ¬ t.Counted c isServer isPublic := fun h => hfetch h.1
    simp [hfetch, hcounted]

private theorem shouldFetchConnection_updateConnections (es : List ConnEvent) :
    (t.updateConnections es).shouldFetchConnection = t.shouldFetchConnection := by
  induction es using List.reverseRecOn with
  | nil => rfl
  | append_singleton es e ih =>
    rw [updateConnections_append_singleton, ← ih]
    rfl

private theorem counter_updateConnection (conn : RawConnection) (ts : ℤ) (added : Bool)
    (isServer isPublic : Bool) :
    (t.updateConnection conn ts added).insertedConnectionsCounters.counter isServer isPublic =
      t.insertedConnectionsCounters.counter isServer isPublic +
        if t.connState.find? conn = none ∧ t.Counted conn isServer isPublic then 1 else 0 := by
  unfold updateConnection emplaceOrUpdateConnection emplaceOrUpdate
  cases hfind : t.connState.find? conn with
  | none => simpa using t.counter_incrementConnectionStats conn _ isServer isPublic
  | some s => simp

private theorem fetchableCount_append_singleton (es : List ConnEvent) (e : ConnEvent)
    (isServer isPublic : Bool) :
    t.fetchableCount (es ++ [e]) isServer isPublic = t.fetchableCount es isServer isPublic +
      if (∀ e' ∈ es, e'.conn ≠ e.conn) ∧ t.Counted e.conn isServer isPublic then 1 else 0 := by
  have hset : ((es ++ [e]).map ConnEvent.conn).toFinset =
      insert e.conn (es.map ConnEvent.conn).toFinset := by
    ext c
    simp
  have hmem : e.conn ∈ (es.map ConnEvent.conn).toFinset ↔ ¬ ∀ e' ∈ es, e'.conn ≠ e.conn := by
    simp
  unfold fetchableCount
  rw [hset, Finset.filter_insert]
  by_cases hcounted : t.Counted e.conn isServer isPublic
  · rw [if_pos hcounted]
    by_cases hnew : ∀ e' ∈ es, e'.conn ≠ e.conn
    · rw [if_pos ⟨hnew, hcounted⟩, Finset.card_insert_of_notMem]
      exact fun hin => hmem.mp (Finset.mem_filter.mp hin).1 hnew
    · rw [if_neg fun h => hnew h.1, Finset.insert_eq_of_mem, Nat.add_zero]
      exact Finset.mem_filter.mpr ⟨hmem.mpr hnew, hcounted⟩
  · have hnot : ¬ ((∀ e' ∈ es, e'.conn ≠ e.conn) ∧ t.Counted e.conn isServer isPublic) :=
      fun h => hcounted h.2
    rw [if_neg hcounted, if_neg hnot, Nat.add_zero]

/-- Every connection that will be fetched has been counted once. -/
private theorem counter_updateConnections (ht : t.connState = ∅) (es : List ConnEvent)
    (hrange : ∀ e ∈ es, 0 ≤ e.timestamp ∧ e.timestamp < 2 ^ 63) (isServer isPublic : Bool) :
    (t.updateConnections es).insertedConnectionsCounters.counter isServer isPublic =
      t.insertedConnectionsCounters.counter isServer isPublic +
        BitVec.ofNat 32 (t.fetchableCount es isServer isPublic) := by
  induction es using List.reverseRecOn with
  | nil => simp [updateConnections, fetchableCount]
  | append_singleton es e ih =>
    have hrange' : ∀ e' ∈ es, 0 ≤ e'.timestamp ∧ e'.timestamp < 2 ^ 63 := fun e' he' =>
      hrange e' (List.mem_append_left _ he')
    have hfind := t.find?_updateConnections ht es hrange' e.conn
    have hnew : (t.updateConnections es).connState.find? e.conn = none ↔
        ∀ e' ∈ es, e'.conn ≠ e.conn := by
      cases hf : (t.updateConnections es).connState.find? e.conn with
      | none =>
        rw [hf] at hfind
        exact ⟨fun _ => hfind, fun _ => rfl⟩
      | some s =>
        rw [hf] at hfind
        obtain ⟨e0, ⟨he0, _⟩, hc0, _⟩ := hfind
        exact ⟨fun h => (Option.some_ne_none s h).elim, fun h => absurd hc0 (h e0 he0)⟩
    have hcounted : (t.updateConnections es).Counted e.conn isServer isPublic ↔
        t.Counted e.conn isServer isPublic := by
      unfold Counted
      rw [shouldFetchConnection_updateConnections]
    rw [updateConnections_append_singleton, counter_updateConnection, ih hrange',
      fetchableCount_append_singleton, BitVec.ofNat_add, BitVec.add_assoc]
    simp only [hnew, hcounted]
    congr 2
    split_ifs <;> rfl

/-- Events with a time of their own on each connection may come in any order: the tracker
binds each mentioned connection to its latest event and nothing else, and its counters have
each connection that is fetched once. -/
theorem events_in_any_order (ht : t.connState = ∅) (es : List ConnEvent)
    (hrange : ∀ e ∈ es, 0 ≤ e.timestamp ∧ e.timestamp < 2 ^ 63)
    (hdistinct : es.Pairwise fun e e' => e.conn = e'.conn → e.timestamp ≠ e'.timestamp)
    (es' : List ConnEvent) (hperm : es'.Perm es) :
    (∀ c s, (t.updateConnections es').connState.find? c = some s ↔
      ∃ e ∈ es, e.conn = c ∧ (∀ e' ∈ es, e'.conn = c → e'.timestamp ≤ e.timestamp) ∧
        s.lastActiveTime = e.timestamp ∧ s.isActive = e.added) ∧
    ∀ isServer isPublic,
      (t.updateConnections es').insertedConnectionsCounters.counter isServer isPublic =
        t.insertedConnectionsCounters.counter isServer isPublic +
          BitVec.ofNat 32 (t.fetchableCount es isServer isPublic) := by
  have hrange' : ∀ e ∈ es', 0 ≤ e.timestamp ∧ e.timestamp < 2 ^ 63 := fun e he =>
    hrange e (hperm.mem_iff.mp he)
  constructor
  · intro c s
    have hfind := t.find?_updateConnections ht es' hrange' c
    have hstatus (e : ConnEvent) (he : e ∈ es) : s = .ofTime e.timestamp e.added ↔
        s.lastActiveTime = e.timestamp ∧ s.isActive = e.added := by
      rw [ConnStatus.eq_iff, ConnStatus.isActive_ofTime,
        ConnStatus.lastActiveTime_ofTime _ _ (hrange e he).1 (hrange e he).2]
    have hlatest (e : ConnEvent) : e.LatestIn es' ↔ e.LatestIn es := by
      simp only [ConnEvent.LatestIn, hperm.mem_iff]
    constructor
    · intro hs
      rw [hs] at hfind
      obtain ⟨e, he, rfl, heq⟩ := hfind
      have he := (hlatest e).mp he
      exact ⟨e, he.1, rfl, he.2, (hstatus e he.1).mp heq⟩
    · intro hex
      obtain ⟨e, he, rfl, hmax, heq⟩ := hex
      cases hf : (t.updateConnections es').connState.find? e.conn with
      | none =>
        rw [hf] at hfind
        exact absurd rfl (hfind e (hperm.mem_iff.mpr he))
      | some s' =>
        rw [hf] at hfind
        obtain ⟨e0, he0, hc0, hs'⟩ := hfind
        have hsame : e0 = e := ((hlatest e0).mp he0).unique ⟨he, hmax⟩ hc0 hdistinct
        rw [hs', hsame, ← (hstatus e he).mpr heq]
  · intro isServer isPublic
    have hset : (es'.map ConnEvent.conn).toFinset = (es.map ConnEvent.conn).toFinset :=
      List.toFinset_eq_of_perm _ _ (hperm.map _)
    rw [t.counter_updateConnections ht es' hrange' isServer isPublic, fetchableCount, hset]
    rfl

/-- The connection was opened at 5 and closed at 7, but the close is seen first. -/
theorem events_in_any_order_late_open :
    (empty.updateConnections
      [⟨scrapedConnection, 7, false⟩, ⟨scrapedConnection, 5, true⟩]).connState.find?
        scrapedConnection = some (.ofTime 7 false) := by
  refine ((events_in_any_order empty rfl
    [⟨scrapedConnection, 5, true⟩, ⟨scrapedConnection, 7, false⟩] (by decide) (by decide)
    [⟨scrapedConnection, 7, false⟩, ⟨scrapedConnection, 5, true⟩] (.swap _ _ _)).1 _ _).mpr ?_
  exact ⟨⟨scrapedConnection, 7, false⟩, by decide, rfl, by decide, by decide, by decide⟩

end ConnectionTracker

end AcsNext.Collector
