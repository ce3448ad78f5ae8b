import AcsNext.Data.AssocMap
import AcsNext.Collector.ConnStatus

/-! The state differences that the tracker computes between two scrapes, with and
without an afterglow period, and what each of them binds to a key. -/
namespace AcsNext.Collector
open AcsNext.Data

variable {T : Type*} [BEq T]

abbrev StatusMap (T : Type*) [BEq T] := AssocMap T ConnStatus

/-- Expired entries leave the old state; every entry of the new state enters it. -/
def updateOldState (oldState newState : StatusMap T)
    (timeMicros afterglowPeriodMicros : ℤ) : StatusMap T :=
  newState.entries.foldl (fun m conn => m.assign conn.1 conn.2)
    (oldState.filter fun _ s => s.isInAfterglowPeriod timeMicros afterglowPeriodMicros)

/-- The body of the first loop of `computeDelta`, for one object of the new state. -/
def computeDeltaInsert (oldState : StatusMap T) (conn : T × ConnStatus) : StatusMap T :=
  match oldState.find? conn.1 with
  | none => oldState.insert conn.1 conn.2
  | some old =>
    if conn.2.isActive != old.isActive then oldState.set conn.1 conn.2
    else if conn.2.isActive then oldState.erase conn.1
    else if old.lastActiveTime < conn.2.lastActiveTime then oldState.set conn.1 conn.2
    else oldState.erase conn.1

/-- The source overwrites `*old_state` with the difference; the model returns it. -/
def computeDelta (newState oldState : StatusMap T) : StatusMap T :=
  (newState.entries.foldl computeDeltaInsert oldState).filterMap fun key s =>
    if newState.contains key then some s
    else if s.isActive then some (s.setActive false)
    else none

def changeConnToActiveIfNeeded (newConn : T × ConnStatus) (newRecentlyActive : Bool) :
    T × ConnStatus :=
  if newRecentlyActive && !newConn.2.isActive then
    (newConn.1, ConnStatus.ofTime newConn.2.lastActiveTime true)
  else newConn

def computeDeltaForAConnectionInOldAndNewStates (newConn : T × ConnStatus)
    (oldConnStatus : ConnStatus) (delta : StatusMap T)
    (timeMicros timeAtLastScrape afterglowPeriodMicros : ℤ) : StatusMap T :=
  let newRecentlyActive := newConn.2.wasRecentlyActive timeMicros afterglowPeriodMicros
  let oldRecentlyActive := oldConnStatus.wasRecentlyActive timeAtLastScrape afterglowPeriodMicros
  if newRecentlyActive != oldRecentlyActive then
    let newDelta := changeConnToActiveIfNeeded newConn newRecentlyActive
    delta.insert newDelta.1 newDelta.2
  else if !newRecentlyActive then
    if oldConnStatus.lastActiveTime < newConn.2.lastActiveTime then
      delta.insert newConn.1 newConn.2
    else delta
  else delta

def computeDeltaForAConnectionInNewState (newConn : T × ConnStatus) (delta : StatusMap T)
    (timeMicros afterglowPeriodMicros : ℤ) : StatusMap T :=
  let newRecentlyActive := newConn.2.wasRecentlyActive timeMicros afterglowPeriodMicros
  let newDelta := changeConnToActiveIfNeeded newConn newRecentlyActive
  delta.insert newDelta.1 newDelta.2

def checkIfOldConnShouldBeInactiveInDelta (connKey : T) (connStatus : ConnStatus)
    (newState : StatusMap T) (timeMicros timeAtLastScrape afterglowPeriodMicros : ℤ) : Bool :=
  if newState.contains connKey then false
  else if !connStatus.wasRecentlyActive timeAtLastScrape afterglowPeriodMicros then false
  else if connStatus.isInAfterglowPeriod timeMicros afterglowPeriodMicros then false
  else true

def computeDeltaAfterglow (newState oldState delta : StatusMap T)
    (timeMicros timeAtLastScrape afterglowPeriodMicros : ℤ) : StatusMap T :=
  let delta := newState.entries.foldl (fun delta newConn =>
    match oldState.find? newConn.1 with
    | some oldConn => computeDeltaForAConnectionInOldAndNewStates newConn oldConn delta
        timeMicros timeAtLastScrape afterglowPeriodMicros
    | none => computeDeltaForAConnectionInNewState newConn delta
        timeMicros afterglowPeriodMicros) delta
  oldState.entries.foldl (fun delta oldConn =>
    if checkIfOldConnShouldBeInactiveInDelta oldConn.1 oldConn.2 newState
        timeMicros timeAtLastScrape afterglowPeriodMicros then
      delta.insert oldConn.1 (ConnStatus.ofTime oldConn.2.lastActiveTime false)
    else delta) delta

/-- What `computeDelta` reports for a key, given its new and its old status. -/
def deltaEntry : Option ConnStatus → Option ConnStatus → Option ConnStatus
  | some s, some o =>
    if s.isActive != o.isActive then some s
    else if s.isActive then none
    else if o.lastActiveTime < s.lastActiveTime then some s
    else none
  | some s, none => some s
  | none, some o => if o.isActive then some (o.setActive false) else none
  | none, none => none

/-- The entry that a connection of the new state contributes when it is reported. -/
def activated (s : ConnStatus) (recent : Bool) : ConnStatus :=
  if recent && !s.isActive then ConnStatus.ofTime s.lastActiveTime true else s

theorem isActive_activated (s : ConnStatus) (recent : Bool)
    (h : s.isActive = true → recent = true) :
    (activated s recent).isActive = recent := by
  unfold activated
  cases ha : s.isActive <;> cases recent <;> simp_all

/-- What `computeDeltaAfterglow` reports for a key, given its new and its old status. -/
def afterglowEntry (t tLast A : ℤ) : Option ConnStatus → Option ConnStatus → Option ConnStatus
  | some s, some o =>
    if s.wasRecentlyActive t A != o.wasRecentlyActive tLast A then
      some (activated s (s.wasRecentlyActive t A))
    else if !s.wasRecentlyActive t A && decide (o.lastActiveTime < s.lastActiveTime) then some s
    else none
  | some s, none => some (activated s (s.wasRecentlyActive t A))
  | none, some o =>
    if o.wasRecentlyActive tLast A && !o.isInAfterglowPeriod t A then
      some (ConnStatus.ofTime o.lastActiveTime false)
    else none
  | none, none => none

omit [BEq T] in
private theorem changeConnToActiveIfNeeded_eq (e : T × ConnStatus) (r : Bool) :
    changeConnToActiveIfNeeded e r = (e.1, activated e.2 r) := by
  unfold changeConnToActiveIfNeeded activated
  split_ifs <;> rfl

private theorem afterglow_first_body (old delta : StatusMap T) (e : T × ConnStatus)
    (t tLast A : ℤ) :
    (match old.find? e.1 with
      | some o => computeDeltaForAConnectionInOldAndNewStates e o delta t tLast A
      | none => computeDeltaForAConnectionInNewState e delta t A) =
    match afterglowEntry t tLast A (some e.2) (old.find? e.1) with
      | some s => delta.insert e.1 s
      | none => delta := by
  cases old.find? e.1 with
  | none =>
    simp only [computeDeltaForAConnectionInNewState, changeConnToActiveIfNeeded_eq, afterglowEntry]
  | some o =>
    simp only [computeDeltaForAConnectionInOldAndNewStates, changeConnToActiveIfNeeded_eq,
      afterglowEntry]
    by_cases hne : (e.2.wasRecentlyActive t A != o.wasRecentlyActive tLast A) = true
    · simp only [hne, if_true]
    · cases hr : e.2.wasRecentlyActive t A <;>
        by_cases hlt : o.lastActiveTime < e.2.lastActiveTime <;> simp_all [not_lt.mpr]

private theorem afterglow_second_body (new delta : StatusMap T) (e : T × ConnStatus)
    (t tLast A : ℤ) :
    (if checkIfOldConnShouldBeInactiveInDelta e.1 e.2 new t tLast A then
        delta.insert e.1 (ConnStatus.ofTime e.2.lastActiveTime false)
      else delta) =
    match (if new.contains e.1 then none else afterglowEntry t tLast A none (some e.2)) with
      | some s => delta.insert e.1 s
      | none => delta := by
  unfold checkIfOldConnShouldBeInactiveInDelta afterglowEntry
  cases hc : new.contains e.1 <;> cases hr : e.2.wasRecentlyActive tLast A <;>
    cases hi : e.2.isInAfterglowPeriod t A <;> simp [hr, hi]

section Pointwise

variable [EquivBEq T]

theorem find?_updateOldState (old new : StatusMap T) (t A : ℤ) (q : T) :
    (updateOldState old new t A).find? q = match new.find? q with
      | some s => some s
      | none => (old.find? q).filter fun s => s.isInAfterglowPeriod t A := by
  unfold updateOldState
  rw [AssocMap.find?_foldl _ (fun _ v _ => some v) (fun _ _ _ _ _ => rfl)
    (fun m e q => AssocMap.find?_assign m e.1 e.2 q)]
  cases new.find? q with
  | some s => rfl
  | none => exact AssocMap.find?_filter old _ (fun _ _ _ _ => rfl) q

private theorem find?_computeDeltaInsert (m : StatusMap T) (e : T × ConnStatus) (q : T) :
    (computeDeltaInsert m e).find? q =
      if e.1 == q then deltaEntry (some e.2) (m.find? q) else m.find? q := by
  by_cases hq : (e.1 == q) = true
  · unfold computeDeltaInsert
    rw [m.find?_congr hq, if_pos hq]
    cases hm : m.find? q with
    | none => simp [AssocMap.find?_insert, hm, hq, deltaEntry]
    | some o =>
      simp only [deltaEntry]
      split_ifs <;> simp [AssocMap.find?_set, AssocMap.find?_erase, hm, hq]
  · unfold computeDeltaInsert
    cases hm : m.find? e.1 with
    | none => simp [AssocMap.find?_insert, hq]
    | some o =>
      simp only
      split_ifs <;> simp [AssocMap.find?_set, AssocMap.find?_erase, hq]

theorem find?_computeDelta (new old : StatusMap T) (q : T) :
    (computeDelta new old).find? q = deltaEntry (new.find? q) (old.find? q) := by
  unfold computeDelta
  rw [AssocMap.find?_filterMap _ _ (fun a b v h => by rw [new.contains_congr h]),
    AssocMap.find?_foldl _ (fun _ v o => deltaEntry (some v) o) (fun _ _ _ _ _ => rfl)
      find?_computeDeltaInsert]
  -- the second loop skips the keys of the new state and touches only leftovers
  cases hn : new.find? q with
  | some s =>
    cases ho : deltaEntry (some s) (old.find? q) <;> simp [AssocMap.contains_eq, hn, ho]
  | none =>
    cases ho : old.find? q <;> simp [AssocMap.contains_eq, hn, deltaEntry]

/-- Both loops of `computeDeltaAfterglow` insert without overwriting. -/
private theorem find?_insertEntry (m : StatusMap T) (k : T) (o : Option ConnStatus) (q : T) :
    (match o with | some s => m.insert k s | none => m).find? q =
      if k == q then (m.find? q <|> o) else m.find? q := by
  cases o with
  | none => by_cases hq : (k == q) = true <;> cases m.find? q <;> simp [hq]
  | some s =>
    rw [AssocMap.find?_insert]
    by_cases hq : (k == q) = true <;> cases m.find? q <;> simp [hq]

theorem find?_computeDeltaAfterglow (new old delta : StatusMap T) (t tLast A : ℤ) (q : T) :
    (computeDeltaAfterglow new old delta t tLast A).find? q =
      (delta.find? q <|> afterglowEntry t tLast A (new.find? q) (old.find? q)) := by
  unfold computeDeltaAfterglow
  simp only [afterglow_first_body, afterglow_second_body]
  rw [AssocMap.find?_foldl _
      (fun k v o => o <|> if new.contains k then none else afterglowEntry t tLast A none (some v))
      (fun a b v o h => by rw [new.contains_congr h])
      (fun m e q => find?_insertEntry m e.1 _ q),
    AssocMap.find?_foldl _ (fun k v o => o <|> afterglowEntry t tLast A (some v) (old.find? k))
      (fun a b v o h => by rw [old.find?_congr h])
      (fun m e q => find?_insertEntry m e.1 _ q)]
  cases hn : new.find? q <;> cases ho : old.find? q <;>
    simp [AssocMap.contains_eq, hn, afterglowEntry]

private theorem isInAfterglowPeriod_zero {s : ConnStatus} {t : ℤ} (h : s.lastActiveTime ≤ t) :
    s.isInAfterglowPeriod t 0 = false := by
  have hlt : ¬ t - s.lastActiveTime < 0 := by omega
  simp [ConnStatus.isInAfterglowPeriod, hlt]

private theorem wasRecentlyActive_zero {s : ConnStatus} {t : ℤ} (h : s.lastActiveTime ≤ t) :
    s.wasRecentlyActive t 0 = s.isActive := by
  rw [ConnStatus.wasRecentlyActive, isInAfterglowPeriod_zero h, Bool.or_false]

private theorem activated_isActive (s : ConnStatus) : activated s s.isActive = s := by
  unfold activated
  cases s.isActive <;> rfl

private theorem ofTime_lastActiveTime (s : ConnStatus) (a : Bool) :
    ConnStatus.ofTime s.lastActiveTime a = s.setActive a := by
  rw [ConnStatus.eq_iff]
  have htime := ConnStatus.lastActiveTime_ofTime s.lastActiveTime a s.lastActiveTime_nonneg
    s.lastActiveTime_lt
  simp [htime]

/-- With period zero the two algorithms report the same for every key. -/
private theorem afterglowEntry_zero (t tLast : ℤ) (ht : tLast ≤ t) (new old : Option ConnStatus)
    (hnew : ∀ s ∈ new, s.lastActiveTime ≤ t) (hold : ∀ s ∈ old, s.lastActiveTime ≤ tLast) :
    afterglowEntry t tLast 0 new old = deltaEntry new old := by
  cases new with
  | none =>
    cases old with
    | none => rfl
    | some o =>
      have ho := hold o rfl
      simp only [afterglowEntry, deltaEntry, wasRecentlyActive_zero ho,
        isInAfterglowPeriod_zero (ho.trans ht), ofTime_lastActiveTime, Bool.not_false,
        Bool.and_true]
  | some s =>
    have hs := hnew s rfl
    cases old with
    | none => simp only [afterglowEntry, deltaEntry, wasRecentlyActive_zero hs, activated_isActive]
    | some o =>
      have ho := hold o rfl
      simp only [afterglowEntry, deltaEntry, wasRecentlyActive_zero hs, wasRecentlyActive_zero ho,
        activated_isActive]
      cases s.isActive <;> simp

/-- Between two scrapes of a clock that does not run backwards, an afterglow period of zero
reports what the plain difference does, and the old state becomes the new one. -/
theorem zero_afterglow_is_plain (new old : StatusMap T) (tLast t : ℤ) (ht : tLast ≤ t)
    (hold : ∀ e ∈ old.entries, e.2.lastActiveTime ≤ tLast)
    (hnew : ∀ e ∈ new.entries, e.2.lastActiveTime ≤ t) (q : T) :
    (computeDeltaAfterglow new old ∅ t tLast 0).find? q = (computeDelta new old).find? q ∧
      (updateOldState old new t 0).find? q = new.find? q := by
  have holdq : ∀ s ∈ old.find? q, s.lastActiveTime ≤ tLast := fun s hs => by
    obtain ⟨e, he, _, rfl⟩ := (old.find?_eq_some_iff q s).mp hs
    exact hold e he
  have hnewq : ∀ s ∈ new.find? q, s.lastActiveTime ≤ t := fun s hs => by
    obtain ⟨e, he, _, rfl⟩ := (new.find?_eq_some_iff q s).mp hs
    exact hnew e he
  constructor
  · rw [find?_computeDeltaAfterglow, find?_computeDelta, AssocMap.find?_empty]
    exact afterglowEntry_zero t tLast ht _ _ hnewq holdq
  · rw [find?_updateOldState]
    cases hn : new.find? q with
    | some s => rfl
    | none =>
      cases ho : old.find? q with
      | none => rfl
      | some o =>
        have hle := (holdq o ho).trans ht
        simp [Option.filter, isInAfterglowPeriod_zero hle]

end Pointwise

/-- Of two active keys, one is gone at the next scrape. -/
theorem zero_afterglow_is_plain_closed_key :
    (computeDeltaAfterglow ((∅ : StatusMap ℕ).insert 1 (.ofTime 9 true))
        (((∅ : StatusMap ℕ).insert 1 (.ofTime 4 true)).insert 2 (.ofTime 5 true)) ∅ 10 5 0).find? 2 =
      some (.ofTime 5 false) := by
  have hplain := (zero_afterglow_is_plain ((∅ : StatusMap ℕ).insert 1 (.ofTime 9 true))
    (((∅ : StatusMap ℕ).insert 1 (.ofTime 4 true)).insert 2 (.ofTime 5 true)) 5 10 (by decide)
    (by decide) (by decide) 2).1
  rw [hplain]
  decide

end AcsNext.Collector
