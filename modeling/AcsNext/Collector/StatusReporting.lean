import AcsNext.Collector.ConnDelta

/-! Whole runs of status reports: the set of keys that a receiver of the reported
differences has open after every scrape. -/
namespace AcsNext.Collector
open AcsNext.Data

variable {T : Type*} [BEq T]

/-- A receiver opens the key of an active entry and closes the key of an inactive one. -/
def receive (isOpen : T → Bool) (update : T × ConnStatus) : T → Bool :=
  fun c => if update.1 == c then update.2.isActive else isOpen c

def receiveAll (isOpen : T → Bool) (updates : List (T × ConnStatus)) : T → Bool :=
  updates.foldl receive isOpen

/-- Either some active update opened the key, or it was open and no update named it. -/
theorem receiveAll_cases (isOpen : T → Bool) (updates : List (T × ConnStatus)) (c : T)
    (h : receiveAll isOpen updates c = true) :
    (∃ e ∈ updates, (e.1 == c) = true ∧ e.2.isActive = true) ∨
      (isOpen c = true ∧ ∀ e ∈ updates, (e.1 == c) = false) := by
  induction updates generalizing isOpen with
  | nil => exact Or.inr ⟨h, by simp⟩
  | cons e l ih =>
    rcases ih (receive isOpen e) h with ⟨x, hx, hxc⟩ | ⟨ho, hl⟩
    · exact Or.inl ⟨x, List.mem_cons_of_mem e hx, hxc⟩
    · by_cases he : (e.1 == c) = true
      · rw [receive, if_pos he] at ho
        exact Or.inl ⟨e, List.mem_cons_self, he, ho⟩
      · rw [receive, if_neg he] at ho
        have he' : (e.1 == c) = false := by simpa using he
        exact Or.inr ⟨ho, fun x hx => (List.mem_cons.mp hx).elim (fun hxe => hxe ▸ he') (hl x)⟩

/-- The limiter of one message: a count for each container seen so far. -/
structure CountLimiter where
  count : ℤ
  cache : AssocMap String ℤ

def CountLimiter.allow (l : CountLimiter) (key : String) : Bool × CountLimiter :=
  let tokens := (l.cache.find? key).getD 0 + 1
  (decide (tokens ≤ l.count), { l with cache := l.cache.assign key tokens })

/-- Close events are always sent; open events only while the container's count allows. -/
def addConnections (container : T → String) :
    CountLimiter → List (T × ConnStatus) → List (T × ConnStatus)
  | _, [] => []
  | limiter, entry :: rest =>
    if !entry.2.isActive then entry :: addConnections container limiter rest
    else
      let (allowed, limiter) := limiter.allow (container entry.1)
      if allowed then entry :: addConnections container limiter rest
      else addConnections container limiter rest

omit [BEq T] in
theorem addConnections_sublist (container : T → String) (limiter : CountLimiter)
    (delta : List (T × ConnStatus)) : (addConnections container limiter delta).Sublist delta := by
  induction delta generalizing limiter with
  | nil => exact List.Sublist.slnil
  | cons e l ih =>
    simp only [addConnections]
    split_ifs
    · exact (ih _).cons_cons e
    · exact (ih _).cons_cons e
    · exact (ih _).cons e

omit [BEq T] in
theorem mem_addConnections_of_inactive (container : T → String) (limiter : CountLimiter)
    (delta : List (T × ConnStatus)) (e : T × ConnStatus) (he : e ∈ delta)
    (ha : e.2.isActive = false) : e ∈ addConnections container limiter delta := by
  induction delta generalizing limiter with
  | nil => cases he
  | cons x l ih =>
    simp only [addConnections]
    rcases List.mem_cons.mp he with rfl | he
    · simp [ha]
    · split_ifs
      · exact List.mem_cons_of_mem x (ih _ he)
      · exact List.mem_cons_of_mem x (ih _ he)
      · exact ih _ he

section Runs

variable (S : ℕ → StatusMap T) (t : ℕ → ℤ) (A : ℤ)

/-- The state kept between scrapes, where scrape `k ≥ 1` fetches `S k`. -/
def plainOldState : ℕ → StatusMap T
  | 0 => ∅
  | k + 1 => S (k + 1)

def plainDelta (k : ℕ) : StatusMap T := computeDelta (S (k + 1)) (plainOldState S k)

def plainOpen : ℕ → T → Bool
  | 0 => fun _ => false
  | k + 1 => receiveAll (plainOpen k) (plainDelta S k).entries

/-- `old_conn_state` after `k` iterations of the reporting loop. -/
def afterglowOldState : ℕ → StatusMap T
  | 0 => ∅
  | k + 1 => updateOldState (afterglowOldState k) (S (k + 1)) (t (k + 1)) A

/-- The difference reported at scrape `k + 1`, computed with two clock readings. -/
def afterglowDelta (k : ℕ) : StatusMap T :=
  computeDeltaAfterglow (S (k + 1)) (afterglowOldState S t A k) ∅ (t (k + 1)) (t k) A

def afterglowOpen : ℕ → T → Bool
  | 0 => fun _ => false
  | k + 1 => receiveAll (afterglowOpen k) (afterglowDelta S t A k).entries

/-- The receiver behind the per-container limiter, when scrape `k + 1` iterates over
its difference in the order `order k`. -/
def limitedOpen (container : T → String) (perContainerLimit : ℤ)
    (order : ℕ → List (T × ConnStatus)) : ℕ → T → Bool
  | 0 => fun _ => false
  | k + 1 => receiveAll (limitedOpen container perContainerLimit order k)
      (addConnections container ⟨perContainerLimit, ∅⟩ (order k))

/-- `S j` is the last of the first `k` fetched states that binds `c`, and binds it to `s`. -/
def LastSeen (k : ℕ) (c : T) (j : ℕ) (s : ConnStatus) : Prop :=
  1 ≤ j ∧ j ≤ k ∧ (S j).find? c = some s ∧ ∀ i, j < i → i ≤ k → (S i).find? c = none

/-- The open set of the specification: active in the last scrape, or still glowing. -/
def RecentlyOpen (k : ℕ) (c : T) : Prop :=
  ∃ j s, LastSeen S k c j s ∧
    ((j = k ∧ s.isActive = true) ∨ t k - s.lastActiveTime < A)

private theorem lastSeen_succ (k : ℕ) (c : T) (j : ℕ) (s : ConnStatus) :
    LastSeen S (k + 1) c j s ↔ match (S (k + 1)).find? c with
      | some s' => j = k + 1 ∧ s' = s
      | none => LastSeen S k c j s := by
  unfold LastSeen
  cases hn : (S (k + 1)).find? c with
  | some s' =>
    constructor
    · intro h
      obtain ⟨_, hjk, hj, hlast⟩ := h
      have he : j = k + 1 := by
        by_contra hne
        have := hlast (k + 1) (by omega) le_rfl
        simp [hn] at this
      subst he
      exact ⟨rfl, Option.some.inj (hn.symm.trans hj)⟩
    · intro h
      obtain ⟨rfl, rfl⟩ := h
      exact ⟨by omega, le_rfl, hn, fun i hi hik => by omega⟩
  | none =>
    constructor
    · intro h
      obtain ⟨h1, hjk, hj, hlast⟩ := h
      have hne : j ≠ k + 1 := by
        intro h
        subst h
        simp [hn] at hj
      exact ⟨h1, by omega, hj, fun i hi hik => hlast i hi (by omega)⟩
    · intro h
      obtain ⟨h1, hjk, hj, hlast⟩ := h
      refine ⟨h1, by omega, hj, fun i hi hik => ?_⟩
      by_cases hie : i = k + 1
      · rw [hie, hn]
      · exact hlast i hi (by omega)

end Runs

section Correctness

variable [EquivBEq T]

theorem receiveAll_entries (isOpen : T → Bool) (delta : StatusMap T) (c : T) :
    receiveAll isOpen delta.entries c = match delta.find? c with
      | some s => s.isActive
      | none => isOpen c := by
  obtain ⟨l, hl⟩ := delta
  simp only [AssocMap.find?, AssocMap.findPair?]
  induction l generalizing isOpen with
  | nil => rfl
  | cons e l ih =>
    obtain ⟨he, hl⟩ := List.pairwise_cons.mp hl
    have ih := ih (receive isOpen e) hl
    by_cases hc : (c == e.1) = true
    · rw [AssocMap.find?_tail_eq_none he hc] at ih
      simpa [receiveAll, receive, hc, BEq.symm hc] using ih
    · have hc' : (e.1 == c) = false := by
        rw [BEq.comm]
        simpa using hc
      simpa [receiveAll, receive, hc, hc'] using ih

variable (S : ℕ → StatusMap T) (t : ℕ → ℤ) (A : ℤ)

private theorem plainOpen_eq (k : ℕ) (c : T) :
    plainOpen S k c = ((plainOldState S k).find? c).any fun s => s.isActive := by
  induction k with
  | zero => rfl
  | succ k ih =>
    rw [plainOpen, receiveAll_entries, plainDelta, find?_computeDelta, ih]
    change _ = ((S (k + 1)).find? c).any fun s => s.isActive
    cases hn : (S (k + 1)).find? c with
    | none =>
      cases ho : (plainOldState S k).find? c with
      | none => rfl
      | some o => cases ha : o.isActive <;> simp [deltaEntry, ha]
    | some s =>
      cases ho : (plainOldState S k).find? c with
      | none => rfl
      | some o =>
        cases ha : o.isActive <;> cases hs : s.isActive <;> simp only [deltaEntry] <;>
          split_ifs <;> simp_all

/-- One scrape keeps the receiver's open set equal to the recently active keys of the
stored state, although the difference reads two clocks. -/
private theorem afterglow_step (t tLast A : ℤ) (new? old? : Option ConnStatus)
    (ht : old?.isSome = true → tLast ≤ t) :
    (match afterglowEntry t tLast A new? old? with
      | some d => d.isActive
      | none => old?.any fun o : ConnStatus => o.wasRecentlyActive tLast A) =
    (match new? with
      | some s => some s
      | none => old?.filter fun o : ConnStatus => o.isInAfterglowPeriod t A).any
        fun s : ConnStatus => s.wasRecentlyActive t A := by
  have hact (s : ConnStatus) : (activated s (s.wasRecentlyActive t A)).isActive =
      s.wasRecentlyActive t A :=
    isActive_activated s _ fun h => by simp [ConnStatus.wasRecentlyActive, h]
  cases new? with
  | some s =>
    cases old? with
    | none => simp [afterglowEntry, hact]
    | some o =>
      by_cases hne : (s.wasRecentlyActive t A != o.wasRecentlyActive tLast A) = true
      · simp [afterglowEntry, hne, hact]
      · have heq : s.wasRecentlyActive t A = o.wasRecentlyActive tLast A := by simpa using hne
        cases hr : o.wasRecentlyActive tLast A with
        | true => simp [afterglowEntry, heq, hr]
        | false =>
          have hs : s.isActive = false := by
            rw [hr, ConnStatus.wasRecentlyActive, Bool.or_eq_false_iff] at heq
            exact heq.1
          by_cases hlt : o.lastActiveTime < s.lastActiveTime <;>
            simp [afterglowEntry, heq, hr, hlt, hs]
  | none =>
    cases old? with
    | none => rfl
    | some o =>
      have hle : tLast ≤ t := ht rfl
      cases hi : o.isInAfterglowPeriod t A with
      | true =>
        have hl : o.isInAfterglowPeriod tLast A = true := by
          simp only [ConnStatus.isInAfterglowPeriod, decide_eq_true_eq] at hi ⊢
          omega
        simp [afterglowEntry, hi, ConnStatus.wasRecentlyActive, hl]
      | false =>
        cases hr : o.wasRecentlyActive tLast A <;> simp [afterglowEntry, hi, hr]

private theorem afterglowOpen_eq (ht : ∀ k, 1 ≤ k → t k ≤ t (k + 1)) (k : ℕ) (c : T) :
    afterglowOpen S t A k c =
      ((afterglowOldState S t A k).find? c).any fun s => s.wasRecentlyActive (t k) A := by
  induction k with
  | zero => rfl
  | succ k ih =>
    rw [afterglowOpen, receiveAll_entries, afterglowDelta, find?_computeDeltaAfterglow, ih,
      afterglowOldState, find?_updateOldState]
    refine afterglow_step (t (k + 1)) (t k) A _ _ fun hsome => ht k ?_
    -- the stored state is empty before the first scrape
    by_contra hk
    have hk0 : k = 0 := by omega
    subst hk0
    exact Bool.noConfusion hsome

/-- The stored state: the last status of every key seen in the last scrape or still glowing. -/
private theorem find?_afterglowOldState (ht : ∀ k, 1 ≤ k → t k ≤ t (k + 1)) (k : ℕ) (c : T)
    (s : ConnStatus) :
    (afterglowOldState S t A k).find? c = some s ↔
      ∃ j, LastSeen S k c j s ∧ (j = k ∨ t k - s.lastActiveTime < A) := by
  induction k generalizing s with
  | zero =>
    simp only [afterglowOldState, AssocMap.find?_empty, LastSeen]
    constructor
    · intro h
      cases h
    · intro hx
      obtain ⟨j, ⟨h1, hj, _⟩, _⟩ := hx
      omega
  | succ k ih =>
    rw [afterglowOldState, find?_updateOldState]
    simp only [lastSeen_succ]
    cases hn : (S (k + 1)).find? c with
    | some s' =>
      simp only [Option.some.injEq]
      constructor
      · intro hx
        subst hx
        exact ⟨k + 1, ⟨rfl, rfl⟩, Or.inl rfl⟩
      · intro hx
        obtain ⟨j, ⟨_, he⟩, _⟩ := hx
        exact he
    | none =>
      simp only [Option.filter_eq_some_iff, ih, ConnStatus.isInAfterglowPeriod, decide_eq_true_eq]
      constructor
      · intro hx
        obtain ⟨⟨j, hj, _⟩, hlt⟩ := hx
        exact ⟨j, hj, Or.inr hlt⟩
      · intro hx
        obtain ⟨j, hj, hor⟩ := hx
        have hjk : j ≤ k := hj.2.1
        have hlt : t (k + 1) - s.lastActiveTime < A := hor.resolve_left (by omega)
        have hmono := ht k (by have := hj.1; omega)
        exact ⟨⟨j, hj, Or.inr (by omega)⟩, hlt⟩

private theorem recentlyOpen_iff (ht : ∀ k, 1 ≤ k → t k ≤ t (k + 1)) (k : ℕ) (c : T) :
    RecentlyOpen S t A k c ↔ afterglowOpen S t A k c = true := by
  rw [afterglowOpen_eq S t A ht]
  constructor
  · intro he
    obtain ⟨j, s, hj, hor⟩ := he
    have hfind := (find?_afterglowOldState S t A ht k c s).mpr ⟨j, hj, hor.imp And.left id⟩
    rcases hor with ⟨_, ha⟩ | hlt
    · simp [hfind, ConnStatus.wasRecentlyActive, ha]
    · simp [hfind, ConnStatus.wasRecentlyActive, ConnStatus.isInAfterglowPeriod, hlt]
  · intro h
    cases hfind : (afterglowOldState S t A k).find? c with
    | none => simp [hfind] at h
    | some s =>
      obtain ⟨j, hj, hor⟩ := (find?_afterglowOldState S t A ht k c s).mp hfind
      refine ⟨j, s, hj, ?_⟩
      simp only [hfind, Option.any_some, ConnStatus.wasRecentlyActive, Bool.or_eq_true,
        ConnStatus.isInAfterglowPeriod, decide_eq_true_eq] at h
      rcases h with ha | hlt
      · exact hor.imp (fun hjk => ⟨hjk, ha⟩) id
      · exact Or.inr hlt

/-- Dropping open events can only remove keys from the receiver's open set, because
every close event is sent. -/
private theorem limitedOpen_subset (container : T → String) (perContainerLimit : ℤ)
    (order : ℕ → List (T × ConnStatus))
    (horder : ∀ k, (order k).Perm (afterglowDelta S t A k).entries) (k : ℕ) (c : T)
    (h : limitedOpen container perContainerLimit order k c = true) :
    afterglowOpen S t A k c = true := by
  induction k with
  | zero => exact h
  | succ k ih =>
    rw [afterglowOpen, receiveAll_entries]
    rcases receiveAll_cases _ _ c h with ⟨e, he, hec, ha⟩ | ⟨ho, hnone⟩
    · have hmem := (horder k).subset ((addConnections_sublist container _ _).subset he)
      have hfind := (AssocMap.find?_eq_some_iff _ c e.2).mpr ⟨e, hmem, hec, rfl⟩
      rw [hfind]
      exact ha
    · cases hfind : (afterglowDelta S t A k).find? c with
      | none => exact ih ho
      | some s =>
        obtain ⟨e, he, hec, rfl⟩ := (AssocMap.find?_eq_some_iff _ c s).mp hfind
        by_contra hinactive
        have hsent := mem_addConnections_of_inactive container ⟨perContainerLimit, ∅⟩ (order k) e
          ((horder k).symm.subset he) (by simpa using hinactive)
        rw [hnone e hsent] at hec
        exact Bool.noConfusion hec

/-- After every scrape the receiver of plain differences has exactly the active keys of
the last state open, and every difference is minimal. -/
theorem plain_run_exact_and_minimal :
    (∀ n c, plainOpen S n c = true ↔
      ∃ s, (plainOldState S n).find? c = some s ∧ s.isActive = true) ∧
    ∀ k c,
      ((plainDelta S k).contains c = true ↔
        ((S (k + 1)).contains c = true ∧ (plainOldState S k).contains c = false) ∨
        (∃ s o, (S (k + 1)).find? c = some s ∧ (plainOldState S k).find? c = some o ∧
          s.isActive ≠ o.isActive) ∨
        (∃ s o, (S (k + 1)).find? c = some s ∧ (plainOldState S k).find? c = some o ∧
          s.isActive = false ∧ o.isActive = false ∧ o.lastActiveTime < s.lastActiveTime) ∨
        (∃ o, (S (k + 1)).contains c = false ∧ (plainOldState S k).find? c = some o ∧
          o.isActive = true)) ∧
      ∀ d, (plainDelta S k).find? c = some d →
        match (S (k + 1)).find? c with
        | some s => d = s
        | none => ∃ o, (plainOldState S k).find? c = some o ∧ d = o.setActive false := by
  refine ⟨fun n c => ?_, fun k c => ⟨?_, fun d hd => ?_⟩⟩
  · rw [plainOpen_eq]
    cases (plainOldState S n).find? c <;> simp
  · rw [AssocMap.contains_eq, AssocMap.contains_eq, AssocMap.contains_eq, plainDelta,
      find?_computeDelta]
    cases hn : (S (k + 1)).find? c with
    | none =>
      cases ho : (plainOldState S k).find? c with
      | none => simp [deltaEntry]
      | some o => cases ha : o.isActive <;> simp [deltaEntry, ha]
    | some s =>
      cases ho : (plainOldState S k).find? c with
      | none => simp [deltaEntry]
      | some o =>
        cases ha : o.isActive <;> cases hs : s.isActive <;>
          by_cases hlt : o.lastActiveTime < s.lastActiveTime <;> simp [deltaEntry, ha, hs, hlt]
  · rw [plainDelta, find?_computeDelta] at hd
    cases hn : (S (k + 1)).find? c with
    | none =>
      cases ho : (plainOldState S k).find? c with
      | none => simp [hn, ho, deltaEntry] at hd
      | some o =>
        simp only [hn, ho, deltaEntry] at hd
        split_ifs at hd
        exact ⟨o, rfl, (Option.some.inj hd).symm⟩
    | some s =>
      cases ho : (plainOldState S k).find? c with
      | none =>
        simp only [hn, ho, deltaEntry] at hd
        exact (Option.some.inj hd).symm
      | some o =>
        simp only [hn, ho, deltaEntry] at hd
        split_ifs at hd <;> exact (Option.some.inj hd).symm

/-- A connection that is open at the first scrape, closes at the second and is gone then. -/
def closingScrapes : ℕ → StatusMap ℕ
  | 1 => AssocMap.insert ∅ 7 (ConnStatus.ofTime 10 true)
  | 2 => AssocMap.insert ∅ 7 (ConnStatus.ofTime 20 false)
  | _ => ∅

theorem plain_run_closingScrapes :
    plainOpen closingScrapes 1 7 = true ∧ ¬ plainOpen closingScrapes 2 7 = true := by
  obtain ⟨hopen, _⟩ := plain_run_exact_and_minimal closingScrapes
  refine ⟨(hopen 1 7).mpr ⟨ConnStatus.ofTime 10 true, by decide, by decide⟩, fun h => ?_⟩
  obtain ⟨s, hs, ha⟩ := (hopen 2 7).mp h
  have he : some (ConnStatus.ofTime 20 false) = some s := hs
  rw [← Option.some.inj he] at ha
  exact absurd ha (by decide)

/-- After every scrape the receiver of afterglow differences has exactly the recently open
keys open; behind the per-container limiter, in any iteration order, never more. -/
theorem afterglow_run_open_set (ht : ∀ k, 1 ≤ k → t k ≤ t (k + 1))
    (container : T → String) (perContainerLimit : ℤ) (order : ℕ → List (T × ConnStatus))
    (horder : ∀ k, (order k).Perm (afterglowDelta S t A k).entries) (k : ℕ) (c : T) :
    (afterglowOpen S t A k c = true ↔ RecentlyOpen S t A k c) ∧
      (limitedOpen container perContainerLimit order k c = true → RecentlyOpen S t A k c) := by
  have hiff := recentlyOpen_iff S t A ht k c
  exact ⟨hiff.symm, fun h => hiff.mpr
    (limitedOpen_subset S t A container perContainerLimit order horder k c h)⟩

/-- The closed connection of `closingScrapes` stays open for an afterglow period of 15. -/
theorem afterglow_run_closingScrapes :
    afterglowOpen closingScrapes (fun k => 10 * k) 15 3 7 = true := by
  have hrun := afterglow_run_open_set closingScrapes (fun k => 10 * k) 15
    (fun k _ => by omega) (fun _ => "pod") 1
    (fun k => (afterglowDelta closingScrapes (fun k => 10 * k) 15 k).entries)
    (fun k => List.Perm.refl _)
  refine (hrun 3 7).1.mpr ⟨2, ConnStatus.ofTime 20 false, ⟨by omega, by omega, by decide, ?_⟩, ?_⟩
  · intro i hi hi'
    have he : i = 3 := by omega
    subst he
    rfl
  · exact Or.inr (by decide)

private theorem find?_afterglowDelta_of_open (ht : ∀ k, 1 ≤ k → t k ≤ t (k + 1)) {k : ℕ} {c : T}
    (hk : RecentlyOpen S t A k c) (hk' : RecentlyOpen S t A (k + 1) c) :
    (afterglowDelta S t A k).find? c = none := by
  rw [recentlyOpen_iff S t A ht, afterglowOpen_eq S t A ht, Option.any_eq_true] at hk hk'
  obtain ⟨o, ho, hrecent⟩ := hk
  obtain ⟨s', hs', hrecent'⟩ := hk'
  rw [afterglowOldState, find?_updateOldState] at hs'
  rw [afterglowDelta, find?_computeDeltaAfterglow, ho]
  cases hn : (S (k + 1)).find? c with
  | some s =>
    rw [hn] at hs'
    obtain rfl := Option.some.inj hs'
    simp [afterglowEntry, hrecent, hrecent']
  | none =>
    rw [hn, ho, Option.filter_eq_some_iff] at hs'
    obtain ⟨heq, hglow⟩ := hs'
    obtain rfl := Option.some.inj heq
    simp [afterglowEntry, hglow]

omit [EquivBEq T] in
private theorem receiveAll_of_unnamed (isOpen : T → Bool) {updates : List (T × ConnStatus)} {c : T}
    (h : ∀ e ∈ updates, (e.1 == c) = false) : receiveAll isOpen updates c = isOpen c := by
  induction updates generalizing isOpen with
  | nil => rfl
  | cons e l ih =>
    have hfirst : receive isOpen e c = isOpen c := by
      rw [receive, h e List.mem_cons_self, if_neg (by simp)]
    rw [← hfirst]
    exact ih (receive isOpen e) fun x hx => h x (List.mem_cons_of_mem _ hx)

/-- Behind the limiter, a receiver that misses a key misses it for as long as the key stays
recently open, whatever room later messages have; one that has it keeps it. -/
theorem limited_run_frozen (ht : ∀ k, 1 ≤ k → t k ≤ t (k + 1))
    (container : T → String) (perContainerLimit : ℤ) (order : ℕ → List (T × ConnStatus))
    (horder : ∀ k, (order k).Perm (afterglowDelta S t A k).entries) (c : T) {i j : ℕ} (hij : i ≤ j)
    (hopen : ∀ k, i ≤ k → k ≤ j → RecentlyOpen S t A k c) :
    limitedOpen container perContainerLimit order j c =
      limitedOpen container perContainerLimit order i c := by
  induction j, hij using Nat.le_induction with
  | base => rfl
  | succ j hij ih =>
    have hdelta := find?_afterglowDelta_of_open S t A ht (hopen j hij (by omega))
      (hopen (j + 1) (by omega) le_rfl)
    rw [← ih fun k hik hkj => hopen k hik (by omega), limitedOpen]
    apply receiveAll_of_unnamed
    intro e he
    have hmem := (horder j).subset ((addConnections_sublist container _ _).subset he)
    by_contra hec
    have hfind := (AssocMap.find?_eq_some_iff _ c e.2).mpr ⟨e, hmem, by simpa using hec, rfl⟩
    rw [hdelta] at hfind
    cases hfind

/-- Two connections of one container that are open in every scrape. -/
def busyScrapes : ℕ → StatusMap ℕ := fun k =>
  (AssocMap.insert ∅ 7 (ConnStatus.ofTime k true)).insert 8 (ConnStatus.ofTime k true)

/-- With room for one connection in each message, the second one is never reported. -/
theorem limited_run_frozen_busyScrapes :
    limitedOpen (fun _ => "pod") 1
        (fun k => (afterglowDelta busyScrapes (fun k => 10 * k) 15 k).entries) 3 8 = false := by
  have ht : ∀ k : ℕ, 1 ≤ k → (10 * k : ℤ) ≤ 10 * (k + 1 : ℕ) := fun k _ => by omega
  have hopen : ∀ k, 1 ≤ k → k ≤ 3 → RecentlyOpen busyScrapes (fun k => 10 * k) 15 k 8 := by
    intro k hk _
    exact ⟨k, ConnStatus.ofTime k true, ⟨hk, le_rfl, rfl, fun i hi hik => by omega⟩,
      Or.inl ⟨rfl, ConnStatus.isActive_ofTime _ _⟩⟩
  have hfrozen := limited_run_frozen busyScrapes (fun k => 10 * k) 15 ht (fun _ => "pod") 1
    (fun k => (afterglowDelta busyScrapes (fun k => 10 * k) 15 k).entries)
    (fun _ => List.Perm.refl _) 8 (by omega : 1 ≤ 3) hopen
  rw [hfrozen]
  decide

end Correctness

end AcsNext.Collector
