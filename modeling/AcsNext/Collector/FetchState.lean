import AcsNext.Collector.ScrapeUpdate

/-! What the tracker hands out: the statuses of the stored entries that have one key in the
result, and when the result binds the key to the greatest of them. -/
namespace AcsNext.Collector
open AcsNext.Data

section FetchState

variable {T E : Type*} [BEq T] [BEq E]

def statusesAt (process : T → E) (filter : T → Bool) (entries : List (T × ConnStatus)) (k : E) :
    List ConnStatus :=
  (entries.filter fun e => filter e.1 && k == process e.1).map Prod.snd

/-- The fetched map binds the key of every unfiltered entry to the greatest status of the
entries with this key, and has no other key. -/
structure FetchesMax (process : T → E) (filter : T → Bool) (state : StatusMap T)
    (fetched : StatusMap E) : Prop where
  binds : ∀ e ∈ state.entries, filter e.1 = true → ∃ s, fetched.find? (process e.1) = some s ∧
    s ∈ statusesAt process filter state.entries (process e.1) ∧
    ∀ s' ∈ statusesAt process filter state.entries (process e.1), s'.Le s
  keys : ∀ k ∈ fetched.keys, ∃ e ∈ state.entries, filter e.1 = true ∧ k = process e.1

def fetchedKeys (process : T → E) (filter : T → Bool) (entries : List (T × ConnStatus)) : Set E :=
  {k | ∃ e ∈ entries, filter e.1 = true ∧ k = process e.1}

/-- In iteration order, no unfiltered entry is followed by a greater one with the same key. -/
def FirstIsMax (process : T → E) (filter : T → Bool) (state : StatusMap T) : Prop :=
  ∀ e ∈ state.entries, filter e.1 = true →
    ∀ s, (statusesAt process filter state.entries (process e.1)).head? = some s → e.2.Le s

private def fetchTurn (normalize : Bool) (process : T → E) (filter : T → Bool)
    (fetched : StatusMap E) (entry : T × ConnStatus) : StatusMap E :=
  if filter entry.1 then fetchInto normalize fetched (process entry.1) entry.2 else fetched

omit [BEq T] in
private theorem keys_fetchInto {normalize : Bool} {fetched : StatusMap E} {key k : E}
    {status : ConnStatus} (hk : k ∈ (fetchInto normalize fetched key status).keys) :
    k ∈ fetched.keys ∨ k = key := by
  unfold fetchInto at hk
  cases normalize with
  | false => exact AssocMap.mem_keys_insert hk
  | true =>
    cases hfind : fetched.find? key with
    | none =>
      simp only [hfind, if_true] at hk
      exact AssocMap.mem_keys_insert hk
    | some s =>
      simp only [hfind, if_true, AssocMap.keys_set] at hk
      exact Or.inl hk

omit [BEq T] in
private theorem keys_foldl_fetchTurn (normalize : Bool) (process : T → E) (filter : T → Bool)
    (entries : List (T × ConnStatus)) (fetched : StatusMap E) {k : E}
    (hk : k ∈ (entries.foldl (fetchTurn normalize process filter) fetched).keys) :
    k ∈ fetched.keys ∨ k ∈ fetchedKeys process filter entries := by
  induction entries generalizing fetched with
  | nil => exact Or.inl hk
  | cons e entries ih =>
    rw [List.foldl_cons] at hk
    rcases ih _ hk with hk | ⟨e', he', hf', rfl⟩
    · unfold fetchTurn at hk
      split_ifs at hk with hf
      · rcases keys_fetchInto hk with hk | rfl
        · exact Or.inl hk
        · exact Or.inr ⟨e, List.mem_cons_self, hf, rfl⟩
      · exact Or.inl hk
    · exact Or.inr ⟨e', List.mem_cons_of_mem _ he', hf', rfl⟩

/-- The status under a key after one more entry with it: merged, or the one that came first. -/
private def combine (normalize : Bool) (stored : Option ConnStatus) (status : ConnStatus) :
    ConnStatus :=
  match stored with
  | none => status
  | some stored => if normalize then stored.mergeFrom status else stored

section Lawful

variable {S : Set E} (hS : AssocMap.EquivOn S)

include hS

omit [BEq T] in
private theorem find?_fetchInto (normalize : Bool) {fetched : StatusMap E}
    (hm : ∀ k ∈ fetched.keys, k ∈ S) {key q : E} (hkey : key ∈ S) (hq : q ∈ S)
    (status : ConnStatus) :
    (fetchInto normalize fetched key status).find? q =
      if q == key then some (combine normalize (fetched.find? q) status)
      else fetched.find? q := by
  unfold fetchInto combine
  cases normalize with
  | false =>
    simp only [Bool.false_eq_true, if_false]
    rw [AssocMap.find?_insert_on hS hm hkey hq]
    cases fetched.find? q <;> rfl
  | true =>
    simp only [if_true]
    by_cases hqk : (q == key) = true
    · rw [← AssocMap.find?_congr_on hS hm hq hkey hqk]
      cases hfind : fetched.find? q with
      | none => simp [AssocMap.find?_insert_on hS hm hkey hq, hqk, hfind]
      | some s => simp [AssocMap.find?_set_on hS hm hkey hq, hqk, hfind]
    · cases hfind : fetched.find? key with
      | none => simp [AssocMap.find?_insert_on hS hm hkey hq, hqk]
      | some s => simp [AssocMap.find?_set_on hS hm hkey hq, hqk]

omit [BEq T] in
private theorem find?_foldl_fetchTurn (normalize : Bool) (process : T → E) (filter : T → Bool)
    (entries : List (T × ConnStatus)) (hentries : ∀ k ∈ fetchedKeys process filter entries, k ∈ S)
    (fetched : StatusMap E) (hm : ∀ k ∈ fetched.keys, k ∈ S) {q : E} (hq : q ∈ S) :
    (entries.foldl (fetchTurn normalize process filter) fetched).find? q =
      (statusesAt process filter entries q).foldl
        (fun stored s => some (combine normalize stored s)) (fetched.find? q) := by
  induction entries generalizing fetched with
  | nil => rfl
  | cons e entries ih =>
    have htail : ∀ k ∈ fetchedKeys process filter entries, k ∈ S := fun k hk => by
      obtain ⟨e', he', hf', rfl⟩ := hk
      exact hentries _ ⟨e', List.mem_cons_of_mem _ he', hf', rfl⟩
    rw [List.foldl_cons]
    cases hf : filter e.1 with
    | false =>
      have hturn : fetchTurn normalize process filter fetched e = fetched := by
        rw [fetchTurn, hf]
        rfl
      have hstatuses : statusesAt process filter (e :: entries) q =
          statusesAt process filter entries q := by simp [statusesAt, hf]
      rw [hturn, hstatuses]
      exact ih htail fetched hm
    | true =>
      have hkey : process e.1 ∈ S := hentries _ ⟨e, List.mem_cons_self, hf, rfl⟩
      have hturn : fetchTurn normalize process filter fetched e =
          fetchInto normalize fetched (process e.1) e.2 := by rw [fetchTurn, if_pos hf]
      have hm' : ∀ k ∈ (fetchInto normalize fetched (process e.1) e.2).keys, k ∈ S := fun k hk => by
        rcases keys_fetchInto hk with hk | rfl
        · exact hm k hk
        · exact hkey
      rw [hturn, ih htail _ hm', find?_fetchInto hS normalize hm hkey hq]
      by_cases hqk : (q == process e.1) = true
      · have hstatuses : statusesAt process filter (e :: entries) q =
            e.2 :: statusesAt process filter entries q := by simp [statusesAt, hf, hqk]
        rw [hstatuses, List.foldl_cons, if_pos hqk]
      · have hstatuses : statusesAt process filter (e :: entries) q =
            statusesAt process filter entries q := by simp [statusesAt, hf, hqk]
        rw [hstatuses, if_neg hqk]

end Lawful

private theorem foldl_combine_false (l : List ConnStatus) :
    l.foldl (fun stored s => some (combine false stored s)) none = l.head? := by
  have hsome (l : List ConnStatus) (s : ConnStatus) :
      l.foldl (fun stored s => some (combine false stored s)) (some s) = some s := by
    induction l with
    | nil => rfl
    | cons x l ih => exact ih
  cases l with
  | nil => rfl
  | cons s l => exact hsome l s

private theorem foldl_combine_true (l : List ConnStatus) (hl : l ≠ []) :
    ∃ s, l.foldl (fun stored s => some (combine true stored s)) none = some s ∧ s ∈ l ∧
      ∀ s' ∈ l, s'.Le s := by
  have hsome (l : List ConnStatus) (s0 : ConnStatus) :
      ∃ s, l.foldl (fun stored s => some (combine true stored s)) (some s0) = some s ∧
        s ∈ s0 :: l ∧ ∀ s' ∈ s0 :: l, s'.Le s := by
    induction l generalizing s0 with
    | nil => exact ⟨s0, rfl, by simp, by simpa using s0.le_refl⟩
    | cons x l ih =>
      obtain ⟨s, hs, hmem, hmax⟩ := ih (s0.mergeFrom x)
      have hmerge := hmax (s0.mergeFrom x) List.mem_cons_self
      refine ⟨s, hs, ?_, ?_⟩
      · rcases List.mem_cons.mp hmem with rfl | hmem
        · rcases s0.mergeFrom_cases x with ⟨heq, _⟩ | ⟨heq, _⟩ <;> simp [heq]
        · exact List.mem_cons_of_mem _ (List.mem_cons_of_mem _ hmem)
      · intro s' hs'
        have hboth : s0.Le (s0.mergeFrom x) ∧ x.Le (s0.mergeFrom x) := by
          rcases s0.mergeFrom_cases x with ⟨heq, hle⟩ | ⟨heq, hle⟩
          · rw [heq]
            exact ⟨s0.le_refl, hle⟩
          · rw [heq]
            exact ⟨hle, x.le_refl⟩
        rcases List.mem_cons.mp hs' with rfl | hs'
        · exact ConnStatus.le_trans hboth.1 hmerge
        · rcases List.mem_cons.mp hs' with rfl | hs'
          · exact ConnStatus.le_trans hboth.2 hmerge
          · exact hmax s' (List.mem_cons_of_mem _ hs')
  cases l with
  | nil => exact absurd rfl hl
  | cons s l => exact hsome l s

section Exact

variable (process : T → E) (filter : T → Bool) (state : StatusMap T)
  (hS : AssocMap.EquivOn (fetchedKeys process filter state.entries))

include hS

private theorem find?_fetchState (normalize clear : Bool) {e : T × ConnStatus}
    (he : e ∈ state.entries) (hf : filter e.1 = true) :
    (fetchState state normalize clear process filter).1.find? (process e.1) =
      (statusesAt process filter state.entries (process e.1)).foldl
        (fun stored s => some (combine normalize stored s)) none :=
  find?_foldl_fetchTurn hS normalize process filter state.entries (fun _ hk => hk) ∅
    (fun _ hk => by cases hk) ⟨e, he, hf, rfl⟩

private theorem mem_statusesAt_self {e : T × ConnStatus} (he : e ∈ state.entries)
    (hf : filter e.1 = true) :
    e.2 ∈ statusesAt process filter state.entries (process e.1) := by
  have hrefl := hS.refl (process e.1) ⟨e, he, hf, rfl⟩
  refine List.mem_map_of_mem (List.mem_filter.mpr ⟨he, ?_⟩)
  simp [hf, hrefl]

private theorem statusesAt_congr {e e' : T × ConnStatus} (he : e ∈ state.entries)
    (hf : filter e.1 = true) (he' : e' ∈ state.entries) (hf' : filter e'.1 = true)
    (hkey : (process e.1 == process e'.1) = true) :
    statusesAt process filter state.entries (process e.1) =
      statusesAt process filter state.entries (process e'.1) := by
  have hin : process e.1 ∈ fetchedKeys process filter state.entries := ⟨e, he, hf, rfl⟩
  have hin' : process e'.1 ∈ fetchedKeys process filter state.entries := ⟨e', he', hf', rfl⟩
  unfold statusesAt
  congr 1
  refine List.filter_congr fun x hx => ?_
  cases hfx : filter x.1 with
  | false => rfl
  | true =>
    have hinx : process x.1 ∈ fetchedKeys process filter state.entries := ⟨x, hx, hfx, rfl⟩
    rw [Bool.true_and, Bool.true_and, Bool.eq_iff_iff]
    exact ⟨hS.trans _ hin' _ hin _ hinx (hS.symm _ hin _ hin' hkey),
      hS.trans _ hin _ hin' _ hinx hkey⟩

omit hS in
private theorem keys_fetchState (normalize clear : Bool) :
    ∀ k ∈ (fetchState state normalize clear process filter).1.keys,
      ∃ e ∈ state.entries, filter e.1 = true ∧ k = process e.1 := by
  intro k hk
  rcases keys_foldl_fetchTurn normalize process filter state.entries ∅ hk with hk | hk
  · cases hk
  · exact hk

/-- With merging, the result is exact wherever its keys are lawful. -/
theorem fetchesMax_normalize (clear : Bool) :
    FetchesMax process filter state (fetchState state true clear process filter).1 := by
  refine ⟨fun e he hf => ?_, keys_fetchState process filter state true clear⟩
  rw [find?_fetchState process filter state hS true clear he hf]
  have hself := mem_statusesAt_self process filter state hS he hf
  exact foldl_combine_true _ (List.ne_nil_of_mem hself)

/-- Without merging, the result is exact if the first entry of each key is the greatest. -/
theorem fetchesMax_iff_firstIsMax (clear : Bool) :
    FetchesMax process filter state (fetchState state false clear process filter).1 ↔
      FirstIsMax process filter state := by
  have hfind {e : T × ConnStatus} (he : e ∈ state.entries) (hf : filter e.1 = true) :
      (fetchState state false clear process filter).1.find? (process e.1) =
        (statusesAt process filter state.entries (process e.1)).head? := by
    rw [find?_fetchState process filter state hS false clear he hf, foldl_combine_false]
  constructor
  · intro hmax e he hf s hs
    obtain ⟨s', hs', _, hle⟩ := hmax.binds e he hf
    rw [hfind he hf, hs] at hs'
    rw [Option.some.inj hs']
    exact hle e.2 (mem_statusesAt_self process filter state hS he hf)
  · intro hfirst
    refine ⟨fun e he hf => ?_, keys_fetchState process filter state false clear⟩
    rw [hfind he hf]
    have hself := mem_statusesAt_self process filter state hS he hf
    cases hhead : (statusesAt process filter state.entries (process e.1)).head? with
    | none =>
      rw [List.head?_eq_none_iff] at hhead
      rw [hhead] at hself
      cases hself
    | some s =>
      refine ⟨s, rfl, List.mem_of_head? hhead, fun s' hs' => ?_⟩
      obtain ⟨e', he', rfl⟩ := List.mem_map.mp hs'
      obtain ⟨he', hcond⟩ := List.mem_filter.mp he'
      obtain ⟨hf', hkey⟩ := Bool.and_eq_true_iff.mp hcond
      have hsame := statusesAt_congr process filter state hS he hf he' hf' hkey
      exact hfirst e' he' hf' s (hsame ▸ hhead)

end Exact

end FetchState

private theorem find_of_isEmpty {tree : NRadixTree} (h : tree.isEmpty = true) (q : IPNet) :
    tree.find q = .null := by
  have hroot : tree.root = .node none .nil .nil := by
    unfold NRadixTree.isEmpty at h
    split at h
    · assumption
    · cases h
  have hnone : tree.root.find q.path none = none := by
    rw [hroot]
    rcases q.path with _ | ⟨_ | _, p⟩ <;> rfl
  unfold NRadixTree.find
  rw [hnone]
  simp

private theorem entries_cleared {T : Type*} [BEq T] (state : StatusMap T) (clear : Bool) :
    (if clear then state.filter fun _ s => s.isActive else state).entries =
      state.entries.filter fun e => !clear || e.2.isActive := by
  cases clear with
  | false => simp
  | true => simpa using state.entries_filter fun _ s => s.isActive

private theorem equivOn_of_equivBEq {E : Type*} [BEq E] [EquivBEq E] (S : Set E) :
    AssocMap.EquivOn S :=
  ⟨fun _ _ => BEq.rfl, fun _ _ _ _ h => BEq.symm h, fun _ _ _ _ _ _ h h' => BEq.trans h h'⟩

namespace ConnectionTracker

variable (t : ConnectionTracker)

/-- Skipping the filters when there are none makes no difference. -/
private theorem shouldFetch_of_no_filters (h : t.hasConnectionFilters = false) :
    (∀ c, t.shouldFetchConnection c = true) ∧ ∀ cep, t.shouldFetchContainerEndpoint cep = true := by
  simp only [hasConnectionFilters, Bool.or_eq_false_iff, Bool.not_eq_false', decide_eq_true_eq] at h
  obtain ⟨hports, hnets⟩ := h
  have hignored (p : L4Proto × BitVec 16) : t.isIgnoredL4ProtoPortPair p = false := by
    simp [isIgnoredL4ProtoPortPair, hports]
  constructor
  · intro c
    have hnull : (t.ignoredNetworks.findAddress c.remote.address).isNull = true := by
      rw [NRadixTree.findAddress, find_of_isEmpty hnets]
      decide
    simp [shouldFetchConnection, hignored, hnull]
  · intro cep
    simp [shouldFetchContainerEndpoint, hignored]

private theorem fetchConnState_eq (normalize clear : Bool) :
    (t.fetchConnState normalize clear).1 =
      (fetchState t.connState normalize clear
        (if normalize then fun c => t.normalizeConnectionNoLock c.conn else RawConnection.conn)
        fun c => t.shouldFetchConnection c.conn).1 := by
  unfold fetchConnState
  cases h : t.hasConnectionFilters with
  | true => rfl
  | false =>
    have hall : (fun c : RawConnection => t.shouldFetchConnection c.conn) = fun _ => true := by
      funext c
      exact (t.shouldFetch_of_no_filters h).1 c.conn
    rw [hall]
    rfl

private theorem fetchEndpointState_eq (normalize clear : Bool) :
    (t.fetchEndpointState normalize clear).1 =
      (fetchState t.endpointState normalize clear
        (if normalize then fun cep => ⟨normalizeContainerEndpoint cep⟩ else AdvertisedEndpoint.mk)
        t.shouldFetchContainerEndpoint).1 := by
  unfold fetchEndpointState
  cases h : t.hasConnectionFilters with
  | true => rfl
  | false =>
    have hall : t.shouldFetchContainerEndpoint = fun _ => true := by
      funext cep
      exact (t.shouldFetch_of_no_filters h).2 cep
    rw [hall]
    rfl

private theorem equivOn_conn (filter : RawConnection → Bool)
    (entries : List (RawConnection × ConnStatus)) :
    AssocMap.EquivOn (fetchedKeys RawConnection.conn filter entries) := by
  have hiff (a b : RawConnection) : (a.conn == b.conn) = true ↔ a = b := RawConnection.beq_iff_eq a b
  refine ⟨fun a _ => BEq.rfl, fun a ha b hb hab => ?_, fun a ha b hb c hc hab hbc => ?_⟩
  · obtain ⟨x, _, _, rfl⟩ := ha
    obtain ⟨y, _, _, rfl⟩ := hb
    rw [hiff] at hab ⊢
    exact hab.symm
  · obtain ⟨x, _, _, rfl⟩ := ha
    obtain ⟨y, _, _, rfl⟩ := hb
    obtain ⟨z, _, _, rfl⟩ := hc
    rw [hiff] at hab hbc ⊢
    exact hab.trans hbc

/-- Stored connections have different keys, so there is nothing to merge. -/
private theorem firstIsMax_conn (filter : RawConnection → Bool) :
    FirstIsMax RawConnection.conn filter t.connState := by
  intro e he hf s hs
  obtain ⟨x, hx, rfl⟩ := List.mem_map.mp (List.mem_of_head? hs)
  obtain ⟨hx, hcond⟩ := List.mem_filter.mp hx
  have hkey : e.1 = x.1 := (RawConnection.beq_iff_eq _ _).mp (Bool.and_eq_true_iff.mp hcond).2
  have hfind := t.connState.find?_of_mem he
  rw [hkey, t.connState.find?_of_mem hx] at hfind
  rw [Option.some.inj hfind]
  exact e.2.le_refl

/-- What fetching returns and keeps. Connections as stored and normalised endpoints are
always merged exactly, normalised connections wherever their keys are lawful; endpoints as
stored are exactly where the first of those that are advertised alike is the greatest. The
stored state keeps its active entries, or all of them. -/
theorem fetch_exact_iff (clear : Bool) :
    FetchesMax RawConnection.conn (fun c => t.shouldFetchConnection c.conn) t.connState
      (t.fetchConnState false clear).1 ∧
    (KeyLaws (fetchedKeys (fun c => t.normalizeConnectionNoLock c.conn)
        (fun c => t.shouldFetchConnection c.conn) t.connState.entries)
        Connection.hash (fun _ _ => True) →
      FetchesMax (fun c => t.normalizeConnectionNoLock c.conn)
        (fun c => t.shouldFetchConnection c.conn) t.connState (t.fetchConnState true clear).1) ∧
    FetchesMax (fun cep => ⟨normalizeContainerEndpoint cep⟩) t.shouldFetchContainerEndpoint
      t.endpointState (t.fetchEndpointState true clear).1 ∧
    (FetchesMax AdvertisedEndpoint.mk t.shouldFetchContainerEndpoint t.endpointState
        (t.fetchEndpointState false clear).1 ↔
      FirstIsMax AdvertisedEndpoint.mk t.shouldFetchContainerEndpoint t.endpointState) ∧
    (∀ normalize, ∃ kept, (t.fetchConnState normalize clear).2 = { t with connState := kept } ∧
      kept.entries = t.connState.entries.filter fun e => !clear || e.2.isActive) ∧
    ∀ normalize, ∃ kept,
      (t.fetchEndpointState normalize clear).2 = { t with endpointState := kept } ∧
        kept.entries = t.endpointState.entries.filter fun e => !clear || e.2.isActive := by
  refine ⟨?_, fun hlaws => ?_, ?_, ?_, fun normalize => ?_, fun normalize => ?_⟩
  · rw [fetchConnState_eq]
    exact (fetchesMax_iff_firstIsMax _ _ _ (equivOn_conn _ _) clear).mpr (t.firstIsMax_conn _)
  · rw [fetchConnState_eq]
    exact fetchesMax_normalize _ _ _ ⟨hlaws.refl, hlaws.symm, hlaws.trans⟩ clear
  · rw [fetchEndpointState_eq]
    exact fetchesMax_normalize _ _ _ (equivOn_of_equivBEq _) clear
  · rw [fetchEndpointState_eq]
    exact fetchesMax_iff_firstIsMax _ _ _ (equivOn_of_equivBEq _) clear
  · exact ⟨_, rfl, entries_cleared t.connState clear⟩
  · exact ⟨_, rfl, entries_cleared t.endpointState clear⟩

theorem fetch_exact_scrapedConnection :
    FetchesMax (fun c => empty.normalizeConnectionNoLock c.conn)
      (fun c => empty.shouldFetchConnection c.conn)
      (empty.updateConnection scrapedConnection 5 true).connState
      ((empty.updateConnection scrapedConnection 5 true).fetchConnState true false).1 := by
  refine (fetch_exact_iff (empty.updateConnection scrapedConnection 5 true) false).2.1 ?_
  have hkeys : ∀ k ∈ fetchedKeys (fun c => empty.normalizeConnectionNoLock c.conn)
      (fun c => empty.shouldFetchConnection c.conn)
      (empty.updateConnection scrapedConnection 5 true).connState.entries,
      k = empty.normalizeConnectionNoLock scrapedConnection.conn := fun k hk => by
    obtain ⟨e, he, _, rfl⟩ := hk
    rw [List.mem_singleton.mp he]
  constructor
  · exact fun x _ => BEq.rfl
  · exact fun x hx y hy _ => by
      rw [hkeys x hx, hkeys y hy]
      exact BEq.rfl
  · exact fun x hx y hy z hz _ _ => by
      rw [hkeys x hx, hkeys z hz]
      exact BEq.rfl
  · exact fun std x hx y hy _ => by rw [hkeys x hx, hkeys y hy]
  · exact fun x hx y hy _ => trivial

def listenEndpoint (id : ℕ) : ContainerEndpoint :=
  ⟨"c1", .ofAddress (.ofBytes 10 0 0 1) 8080, .tcp, some ⟨id, "srv", "/bin/srv", ""⟩, rfl⟩

/-- Two processes take turns at listening, seen by scrapes at 5, 7 and 9. -/
def takenTurns : ConnectionTracker :=
  ((empty.update [] [listenEndpoint 1] 5).update [] [listenEndpoint 2] 7).update []
    [listenEndpoint 1] 9

/-- The same tracker in the order of a hash map that puts the newer of two entries of equal hash
first. -/
def takenTurnsHashed : ConnectionTracker :=
  { takenTurns with
    endpointState := ⟨[(listenEndpoint 2, .ofTime 7 false), (listenEndpoint 1, .ofTime 9 true)],
      List.pairwise_pair.mpr (by decide)⟩ }

/-- The two are advertised alike, so the endpoint is reported inactive since 7, although it was
active at 9. -/
theorem fetch_endpoints_drops_active :
    takenTurnsHashed.endpointState.entries.Perm takenTurns.endpointState.entries ∧
      (takenTurnsHashed.fetchEndpointState false false).1.find? ⟨listenEndpoint 1⟩ =
        some (.ofTime 7 false) ∧
      ¬FetchesMax AdvertisedEndpoint.mk takenTurnsHashed.shouldFetchContainerEndpoint
        takenTurnsHashed.endpointState (takenTurnsHashed.fetchEndpointState false false).1 := by
  have hfirst : (takenTurnsHashed.fetchEndpointState false false).1.find? ⟨listenEndpoint 1⟩ =
      some (.ofTime 7 false) := by
    decide
  refine ⟨by decide, hfirst, ?_⟩
  intro hmax
  obtain ⟨s, hs, _, hle⟩ := hmax.binds (listenEndpoint 1, .ofTime 9 true)
    (List.mem_cons_of_mem _ List.mem_cons_self) (by decide)
  have heq : s = .ofTime 7 false := Option.some.inj (hs.symm.trans hfirst)
  have hactive := hle (.ofTime 9 true) (by decide)
  rw [heq] at hactive
  exact absurd hactive (by decide)

end ConnectionTracker

end AcsNext.Collector
