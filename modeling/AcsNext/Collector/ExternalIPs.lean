import AcsNext.Collector.Normalization

/-! Changing the external-IPs configuration: which stored keys are closed, and which of them
have lost their representation. -/
namespace AcsNext.Collector
open AcsNext.Data

namespace ConnectionTracker

section Close

variable (old delta : ConnMap) (p : Connection → Bool)

private theorem entries_closeConnections :
    (closeConnections old delta p).1.entries = old.entries.filter fun e => !p e.1 :=
  AssocMap.entries_filter _ _

private theorem closeInto_of_true (delta : ConnMap) {e : Connection × ConnStatus}
    (h : p e.1 = true) : closeInto p delta e = delta.insert e.1 (e.2.setActive false) := by
  have hstatus : (if e.2.isActive then e.2.setActive false else e.2) = e.2.setActive false := by
    by_cases hact : e.2.isActive = true
    · rw [if_pos hact]
    · rw [if_neg hact, ← Bool.eq_false_of_not_eq_true hact, ConnStatus.setActive_self]
  rw [closeInto, if_pos h, hstatus]

private theorem closeInto_of_false (delta : ConnMap) {e : Connection × ConnStatus}
    (h : ¬ p e.1 = true) : closeInto p delta e = delta := if_neg h

private theorem contains_closeInto (delta : ConnMap) {e : Connection × ConnStatus}
    {k : Connection} (h : p e.1 = true → (k == e.1) = false) :
    (closeInto p delta e).contains k = delta.contains k := by
  by_cases hp : p e.1 = true
  · rw [closeInto_of_true p delta hp, AssocMap.contains_insert_of_ne _ _ _ (h hp)]
  · rw [closeInto_of_false p delta hp]

/-- An entry that the delta holds already stays. -/
private theorem find?_foldl_closeInto (l : List (Connection × ConnStatus)) {delta : ConnMap}
    {k : Connection} {s : ConnStatus} (h : delta.find? k = some s) :
    (l.foldl (closeInto p) delta).find? k = some s := by
  induction l generalizing delta with
  | nil => exact h
  | cons e l ih =>
    refine ih ?_
    by_cases hp : p e.1 = true
    · rw [closeInto_of_true p delta hp]
      exact delta.find?_insert_of_some _ _ h
    · rwa [closeInto_of_false p delta hp]

private theorem find?_closeConnections_of_some {k : Connection} {s : ConnStatus}
    (h : delta.find? k = some s) : (closeConnections old delta p).2.find? k = some s :=
  find?_foldl_closeInto p old.entries h

private theorem contains_closeConnections_of_ne {k : Connection} (hk : delta.contains k = false)
    (hne : ∀ e ∈ old.entries, p e.1 = true → (k == e.1) = false) :
    (closeConnections old delta p).2.contains k = false := by
  have hfold : ∀ (l : List (Connection × ConnStatus)) (delta : ConnMap),
      delta.contains k = false → (∀ e ∈ l, p e.1 = true → (k == e.1) = false) →
        (l.foldl (closeInto p) delta).contains k = false := by
    intro l
    induction l with
    | nil => exact fun _ h _ => h
    | cons e l ih =>
      intro delta h hne
      refine ih _ ?_ fun x hx => hne x (List.mem_cons_of_mem _ hx)
      rw [contains_closeInto p delta (hne e List.mem_cons_self), h]
  exact hfold old.entries delta hk hne

/-- A closed key that the delta does not hold is reported inactive with its time. -/
private theorem find?_closeConnections_of_mem {e : Connection × ConnStatus} (he : e ∈ old.entries)
    (hp : p e.1 = true) (hk : delta.contains e.1 = false) :
    (closeConnections old delta p).2.find? e.1 = some (e.2.setActive false) := by
  have hfold : ∀ (l : List (Connection × ConnStatus)) (delta : ConnMap), DistinctKeys l → e ∈ l →
      delta.contains e.1 = false →
        (l.foldl (closeInto p) delta).find? e.1 = some (e.2.setActive false) := by
    intro l
    induction l with
    | nil => exact fun _ _ he => absurd he List.not_mem_nil
    | cons x l ih =>
      intro delta hl he hk
      obtain ⟨hx, hl⟩ := List.pairwise_cons.mp hl
      rcases List.mem_cons.mp he with rfl | he
      · refine find?_foldl_closeInto p l ?_
        rw [closeInto_of_true p delta hp]
        exact delta.find?_insert_self _ _ hk
      · -- an entry stored before `e` has another key, so `e` is still missing from the delta
        refine ih _ hl he ?_
        rw [contains_closeInto p delta fun _ => hx e he, hk]
  exact hfold old.entries delta old.distinct he hk

private theorem mem_closeConnections {e : Connection × ConnStatus}
    (h : e ∈ (closeConnections old delta p).2.entries) :
    e ∈ delta.entries ∨ (e.1 ∈ old.keys ∧ p e.1 = true) := by
  have hfold : ∀ (l : List (Connection × ConnStatus)) (delta : ConnMap),
      e ∈ (l.foldl (closeInto p) delta).entries →
        e ∈ delta.entries ∨ (e.1 ∈ l.map Prod.fst ∧ p e.1 = true) := by
    intro l
    induction l with
    | nil => exact fun _ h => Or.inl h
    | cons x l ih =>
      intro delta h
      rcases ih _ h with hd | ⟨hmem, hpe⟩
      · by_cases hpx : p x.1 = true
        · rw [closeInto_of_true p delta hpx, AssocMap.entries_insert] at hd
          split_ifs at hd with hc
          · exact Or.inl hd
          · rcases List.mem_append.mp hd with hd | hd
            · exact Or.inl hd
            · have hex : e.1 = x.1 := by rw [List.mem_singleton.mp hd]
              exact Or.inr ⟨by simp [hex], hex ▸ hpx⟩
        · rw [closeInto_of_false p delta hpx] at hd
          exact Or.inl hd
      · exact Or.inr ⟨List.mem_cons_of_mem _ hmem, hpe⟩
  exact hfold old.entries delta h

end Close

/-- What closing the keys that satisfy `p` does to a state and a delta. -/
structure Closes (old delta : ConnMap) (p : Connection → Bool) (r : ConnMap × ConnMap) : Prop where
  entries : r.1.entries = old.entries.filter fun e => !p e.1
  reported : ∀ e ∈ old.entries, p e.1 = true → delta.contains e.1 = false →
    r.2.find? e.1 = some (e.2.setActive false)
  kept : ∀ k s, delta.find? k = some s → r.2.find? k = some s
  absent : ∀ k, delta.contains k = false →
    (∀ e ∈ old.entries, p e.1 = true → (k == e.1) = false) → r.2.contains k = false
  mem : ∀ e ∈ r.2.entries, e ∈ delta.entries ∨ (e.1 ∈ old.keys ∧ p e.1 = true)

theorem closes_closeConnections (old delta : ConnMap) (p : Connection → Bool) :
    Closes old delta p (closeConnections old delta p) where
  entries := entries_closeConnections old delta p
  reported _ he hp hk := find?_closeConnections_of_mem old delta p he hp hk
  kept _ _ h := find?_closeConnections_of_some old delta p h
  absent _ hk hne := contains_closeConnections_of_ne old delta p hk hne
  mem _ h := mem_closeConnections old delta p h

theorem closes_none (old delta : ConnMap) : Closes old delta (fun _ => false) (old, delta) where
  entries := by simp
  reported _ _ hp := absurd hp (by simp)
  kept _ _ h := h
  absent _ hk _ := hk
  mem _ h := Or.inl h

theorem Closes.trans {old delta : ConnMap} {p q : Connection → Bool} {r r' : ConnMap × ConnMap}
    (h : Closes old delta p r) (h' : Closes r.1 r.2 q r')
    (hpq : ∀ k k', p k = true → q k' = true → (k' == k) = false) :
    Closes old delta (fun k => p k || q k) r' where
  entries := by
    rw [h'.entries, h.entries, List.filter_filter]
    refine List.filter_congr fun e _ => ?_
    cases p e.1 <;> cases q e.1 <;> rfl
  reported e he hp hk := by
    by_cases hpe : p e.1 = true
    · exact h'.kept _ _ (h.reported e he hpe hk)
    · have hqe : q e.1 = true := by simpa [hpe] using hp
      have he' : e ∈ r.1.entries := by
        rw [h.entries]
        exact List.mem_filter.mpr ⟨he, by simpa using hpe⟩
      exact h'.reported e he' hqe (h.absent _ hk fun x _ hpx => hpq x.1 e.1 hpx hqe)
  kept k s hk := h'.kept k s (h.kept k s hk)
  absent k hk hne := by
    refine h'.absent k (h.absent k hk fun e he hp => hne e he (by simp [hp])) ?_
    intro e he hq
    rw [h.entries] at he
    exact hne e (List.mem_of_mem_filter he) (by simp [hq])
  mem e he := by
    rcases h'.mem e he with he | ⟨he, hq⟩
    · rcases h.mem e he with he | ⟨he, hp⟩
      · exact Or.inl he
      · exact Or.inr ⟨he, by simp [hp]⟩
    · obtain ⟨x, hx, hxe⟩ := List.mem_map.mp he
      rw [h.entries] at hx
      exact Or.inr ⟨List.mem_map.mpr ⟨x, List.mem_of_mem_filter hx, hxe⟩, by simp [hq]⟩

variable (t : ConnectionTracker)

def closedOnChange (prev : ExternalIPsConfig) (conn : Connection) : Bool :=
  t.externalIpsConfig.enabledFor conn.isServer != prev.enabledFor conn.isServer &&
    t.shouldClose conn (t.externalIpsConfig.enabledFor conn.isServer)

private theorem closes_phase (old delta : ConnMap) (switched : Bool) (p : Connection → Bool) :
    Closes old delta (fun k => switched && p k)
      (if switched then closeConnections old delta p else (old, delta)) := by
  cases switched with
  | true => exact closes_closeConnections old delta p
  | false => exact closes_none old delta

theorem closes_closeConnectionsOnExternalIPsConfigChange (prev : ExternalIPsConfig)
    (old delta : ConnMap) :
    Closes old delta (t.closedOnChange prev)
      (t.closeConnectionsOnExternalIPsConfigChange prev old delta) := by
  have hphases := (closes_phase old delta _ _).trans (closes_phase _ _
      (t.externalIpsConfig.isEnabled .ingress != prev.isEnabled .ingress)
      (fun conn => conn.isServer && t.shouldClose conn (t.externalIpsConfig.isEnabled .ingress)))
    (p := fun conn => (t.externalIpsConfig.isEnabled .egress != prev.isEnabled .egress) &&
      (!conn.isServer && t.shouldClose conn (t.externalIpsConfig.isEnabled .egress))) ?_
  · have hclosed : t.closedOnChange prev = fun conn =>
        (t.externalIpsConfig.isEnabled .egress != prev.isEnabled .egress) &&
            (!conn.isServer && t.shouldClose conn (t.externalIpsConfig.isEnabled .egress)) ||
          (t.externalIpsConfig.isEnabled .ingress != prev.isEnabled .ingress) &&
            (conn.isServer && t.shouldClose conn (t.externalIpsConfig.isEnabled .ingress)) := by
      funext conn
      cases hs : conn.isServer <;> simp [closedOnChange, ExternalIPsConfig.enabledFor, hs]
    rw [hclosed]
    exact hphases
  · -- a client key and a server key differ in their flags
    intro k k' hk hk'
    by_contra hne
    simp only [Bool.not_eq_false, Connection.beq_iff, Connection.flags_eq_iff] at hne
    simp_all

/-- The sentinel address is told apart from a real one, and the base address of a known
network from the rest of the internet. -/
def CloseExact (enabling : Bool) (network : IPNet) : Prop :=
  if enabling then
    network.address.isCanonicalExternalIp = true →
      network ≠ t.normalizeAddressNoLock network.address true ∧
        network ∉ t.knownIpNetworks.getAll
  else
    (network.address.isCanonicalExternalIp = true →
      network ≠ .new network.address (8 * network.address.length) false ∨
        network ∈ t.knownIpNetworks.getAll) ∧
    (network.address.isCanonicalExternalIp = false → network ∈ t.knownIpNetworks.getAll →
      (t.normalizeAddressNoLock network.address false).address.isCanonicalExternalIp = false)

private theorem isCanonicalExternalIp_null : IPNet.null.address.isCanonicalExternalIp = false := by
  decide

variable {t}

private theorem sentinel_notMem {a : Address} :
    IPNet.new (canonicalExternalAddr a.family) 0 true ∉ t.knownIpNetworks.getAll := by
  intro h
  have hpos := t.knownIpNetworks.bits_pos_of_mem h
  simp [IPNet.bits_new] at hpos

private theorem external_notMem {a : Address} (h : t.Aggregated a) :
    IPNet.new a (8 * a.length) false ∉ t.knownIpNetworks.getAll := by
  intro hmem
  have hnull := t.knownIpNetworks.isNull_findAddress_of_mem a false hmem
  simp [h.2.2.2.2] at hnull

private theorem external_ne_null {a : Address} (h : t.Aggregated a) :
    IPNet.new a (8 * a.length) false ≠ .null := by
  intro he
  have hbits := congrArg IPNet.bits he
  have hzero : IPNet.null.bits = 0 := by decide
  rw [IPNet.bits_new _ _ _ le_rfl, hzero, Address.length] at hbits
  have hf := Address.family_ne_unknown h.1
  cases hfam : a.family <;> simp_all [Family.length]

/-- With external IPs the sentinel network is that of no address, or of the sentinel address. -/
private theorem sentinel_represented_iff {a : Address} (h : t.Aggregated a) :
    (∃ a', t.normalizeAddressNoLock a' true = .new (canonicalExternalAddr a.family) 0 true) ↔
      IPNet.new (canonicalExternalAddr a.family) 0 true =
        t.normalizeAddressNoLock (canonicalExternalAddr a.family) true := by
  have hcan := isCanonicalExternalIp_canonicalExternalAddr (Address.family_ne_unknown h.1)
  constructor
  · intro hx
    obtain ⟨a', ha'⟩ := hx
    by_cases hagg : t.Aggregated a'
    · rw [t.normalizeAddress_of_aggregated hagg] at ha'
      exact absurd (congrArg IPNet.isAddr ha') (by simp)
    · rcases (t.normalizeAddress_cases hagg true).2 with hn | ⟨bits, hn⟩ | ⟨hn, _⟩
      · have hz := congrArg (fun n : IPNet => n.address.isCanonicalExternalIp) (ha'.symm.trans hn)
        simp [hcan, isCanonicalExternalIp_null] at hz
      · have haddr : canonicalExternalAddr a.family = a' :=
          congrArg IPNet.address (ha'.symm.trans hn)
        rw [← haddr] at ha'
        exact ha'.symm
      · rw [ha'] at hn
        exact absurd hn sentinel_notMem
  · intro he
    exact ⟨_, he.symm⟩

/-- Without external IPs no address has the network of a single external address. -/
private theorem external_unrepresented {a : Address} (h : t.Aggregated a) :
    ¬ ∃ a', t.normalizeAddressNoLock a' false = .new a (8 * a.length) false := by
  intro hx
  obtain ⟨a', ha'⟩ := hx
  by_cases hagg : t.Aggregated a'
  · rw [t.normalizeAddress_of_aggregated hagg] at ha'
    exact absurd (congrArg IPNet.isAddr ha') (by simp)
  · rcases (t.normalizeAddress_cases hagg false).2 with hn | ⟨bits, hn⟩ | ⟨hn, _⟩
    · exact external_ne_null h (ha'.symm.trans hn)
    · have hflag := congrArg IPNet.isAddr (ha'.symm.trans hn)
      simp at hflag
    · rw [ha'] at hn
      exact external_notMem h hn

/-- Enabling: the keys at the sentinel address are closed. -/
private theorem closeExact_true_iff (network : IPNet) (a : Address)
    (hnet : t.normalizeAddressNoLock a false = network) :
    (network.address.isCanonicalExternalIp = true ↔
        ¬ ∃ a', t.normalizeAddressNoLock a' true = network) ↔ t.CloseExact true network := by
  simp only [CloseExact, if_true]
  by_cases hagg : t.Aggregated a
  · rw [t.normalizeAddress_of_aggregated hagg] at hnet
    simp only [Bool.false_eq_true, if_false] at hnet
    subst hnet
    have hcan := isCanonicalExternalIp_canonicalExternalAddr (Address.family_ne_unknown hagg.1)
    rw [sentinel_represented_iff hagg]
    simp only [IPNet.address_new, hcan, true_iff, true_imp_iff]
    exact (and_iff_left sentinel_notMem).symm
  · obtain ⟨hsame, hcases⟩ := t.normalizeAddress_cases hagg true
    rw [hnet] at hsame
    rw [hsame] at hcases
    have hrep : ∃ a', t.normalizeAddressNoLock a' true = network := ⟨a, hsame⟩
    simp only [hrep, not_true, iff_false]
    constructor
    · exact fun h hcan => absurd hcan h
    · intro h hcan
      obtain ⟨hne, hmem⟩ := h hcan
      rcases hcases with hn | ⟨bits, hn⟩ | ⟨hn, _⟩
      · rw [hn] at hcan
        simp [isCanonicalExternalIp_null] at hcan
      · have haddr : network.address = a := congrArg IPNet.address hn
        rw [haddr, hsame] at hne
        exact hne rfl
      · exact hmem hn

/-- Disabling: the keys away from the sentinel whose address normalises to it are closed. -/
private theorem closeExact_false_iff (network : IPNet) (a : Address)
    (hnet : t.normalizeAddressNoLock a true = network) :
    ((network.address.isCanonicalExternalIp = false ∧
        (t.normalizeAddressNoLock network.address false).address.isCanonicalExternalIp = true) ↔
        ¬ ∃ a', t.normalizeAddressNoLock a' false = network) ↔ t.CloseExact false network := by
  simp only [CloseExact, Bool.false_eq_true, if_false]
  by_cases hagg : t.Aggregated a
  · have hnorm := t.normalizeAddress_of_aggregated hagg false
    rw [t.normalizeAddress_of_aggregated hagg, if_pos rfl] at hnet
    simp only [Bool.false_eq_true, if_false] at hnorm
    subst hnet
    have hcan := isCanonicalExternalIp_canonicalExternalAddr (Address.family_ne_unknown hagg.1)
    simp only [IPNet.address_new, hnorm, hcan, external_unrepresented hagg, external_notMem hagg]
    cases a.isCanonicalExternalIp <;> simp
  · obtain ⟨hsame, hcases⟩ := t.normalizeAddress_cases hagg true
    rw [hnet] at hsame hcases
    have hrep : ∃ a', t.normalizeAddressNoLock a' false = network := ⟨a, hsame.symm⟩
    simp only [hrep, not_true, iff_false, not_and, Bool.not_eq_true]
    rcases hcases with rfl | ⟨bits, rfl⟩ | ⟨hn, _⟩
    · have hnull : t.normalizeAddressNoLock IPNet.null.address false = .null := if_pos (by decide)
      simp [hnull, isCanonicalExternalIp_null]
    · have hne : IPNet.new a bits true ≠ .new a (8 * a.length) false := fun he =>
        absurd (congrArg IPNet.isAddr he) (by simp)
      simp only [IPNet.address_new, ← hsame, ne_eq, hne, not_false_eq_true, true_or, imp_true_iff,
        true_and]
      exact ⟨fun h hc _ => h hc, fun _ hc => hc⟩
    · simp [hn]

variable (t)

theorem mem_keys_fetchConnState {clearInactive : Bool} {k : Connection}
    (h : k ∈ (t.fetchConnState true clearInactive).1.keys) :
    ∃ c, t.normalizeConnectionNoLock c = k := by
  have hinto (m : ConnMap) (key : Connection) (s : ConnStatus)
      (hk : k ∈ (fetchInto true m key s).keys) : k ∈ m.keys ∨ k = key := by
    unfold fetchInto at hk
    simp only [if_true] at hk
    cases hm : m.find? key with
    | none => exact AssocMap.mem_keys_insert (by simpa only [hm] using hk)
    | some stored =>
      simp only [hm, AssocMap.keys_set] at hk
      exact Or.inl hk
  have hfold : ∀ (filter : RawConnection → Bool) (l : List (RawConnection × ConnStatus))
      (m : ConnMap), (k ∈ m.keys → ∃ c, t.normalizeConnectionNoLock c = k) →
        k ∈ (l.foldl (fun m e => if filter e.1 then
          fetchInto true m (t.normalizeConnectionNoLock e.1.conn) e.2 else m) m).keys →
        ∃ c, t.normalizeConnectionNoLock c = k := by
    intro filter l
    induction l with
    | nil => exact fun _ hm h => hm h
    | cons e l ih =>
      intro m hm
      refine ih _ fun hk => ?_
      dsimp only at hk
      split_ifs at hk
      · rcases hinto _ _ _ hk with hk | hk
        · exact hm hk
        · exact ⟨e.1.conn, hk.symm⟩
      · exact hm hk
  exact hfold _ t.connState.entries ∅ (fun hk => absurd hk List.not_mem_nil) h

/-- What a configuration change should do to the old state and the delta: exactly the keys
without a representation leave, each is reported closed, and nothing else changes. -/
structure CloseSpec (old delta : ConnMap) (r : ConnMap × ConnMap) : Prop where
  removed_iff : ∀ k ∈ old.keys, k ∉ r.1.keys ↔ ¬ ∃ c, t.normalizeConnectionNoLock c = k
  reported : ∀ e ∈ old.entries, e.1 ∉ r.1.keys → delta.contains e.1 = false →
    ∃ s, r.2.find? e.1 = some s ∧ s.isActive = false ∧ s.lastActiveTime = e.2.lastActiveTime
  old_kept : ∀ e ∈ old.entries, e.1 ∈ r.1.keys → e ∈ r.1.entries
  none_added : ∀ e ∈ r.1.entries, e ∈ old.entries
  delta_kept : ∀ k s, delta.find? k = some s → r.2.find? k = some s
  delta_added : ∀ e ∈ r.2.entries, e ∈ delta.entries ∨ (e.1 ∈ old.keys ∧ e.1 ∉ r.1.keys)
  not_fetched : ∀ (before : ConnectionTracker) (clearInactive : Bool),
    (before.fetchConnState true clearInactive).2 = t →
      ∀ k ∈ old.keys, k ∉ r.1.keys → k ∉ (before.fetchConnState true clearInactive).1.keys

private theorem Closes.mem_keys_iff {old delta : ConnMap} {p : Connection → Bool}
    {r : ConnMap × ConnMap} (h : Closes old delta p r) {k : Connection} (hk : k ∈ old.keys) :
    k ∈ r.1.keys ↔ p k = false := by
  rw [AssocMap.keys, h.entries]
  constructor
  · intro hmem
    obtain ⟨e, he, rfl⟩ := List.mem_map.mp hmem
    simpa using (List.mem_filter.mp he).2
  · intro hp
    obtain ⟨e, he, rfl⟩ := List.mem_map.mp hk
    exact List.mem_map.mpr ⟨e, List.mem_filter.mpr ⟨he, by simp [hp]⟩, rfl⟩

/-- Closing never loses or alters a key, whatever it closes. -/
private theorem closeSpec_iff_removed (old delta : ConnMap) (p : Connection → Bool)
    (r : ConnMap × ConnMap) (h : Closes old delta p r) :
    t.CloseSpec old delta r ↔
      ∀ k ∈ old.keys, p k = true ↔ ¬ ∃ c, t.normalizeConnectionNoLock c = k := by
  have hrem (k : Connection) (hk : k ∈ old.keys) : k ∉ r.1.keys ↔ p k = true := by
    rw [h.mem_keys_iff hk, Bool.not_eq_false]
  constructor
  · intro hspec k hk
    rw [← hrem k hk]
    exact hspec.removed_iff k hk
  · intro hp
    have hkey (e : Connection × ConnStatus) (he : e ∈ old.entries) : e.1 ∈ old.keys :=
      List.mem_map_of_mem he
    refine ⟨fun k hk => (hrem k hk).trans (hp k hk), fun e he hr hd => ?_, fun e he hr => ?_,
      fun e he => ?_, h.kept, fun e he => ?_, fun before clearInactive hbefore k hk hr hmem => ?_⟩
    · have hpe := (hrem _ (hkey e he)).mp hr
      exact ⟨_, h.reported e he hpe hd, by simp, by simp⟩
    · rw [h.mem_keys_iff (hkey e he)] at hr
      rw [h.entries]
      exact List.mem_filter.mpr ⟨he, by simp [hr]⟩
    · rw [h.entries] at he
      exact List.mem_of_mem_filter he
    · rcases h.mem e he with hd | ⟨hk, hpe⟩
      · exact Or.inl hd
      · exact Or.inr ⟨hk, (hrem _ hk).mpr hpe⟩
    · obtain ⟨c, hc⟩ := before.mem_keys_fetchConnState hmem
      refine (hp k hk).mp ((hrem k hk).mp hr) ⟨c, ?_⟩
      rw [← hc, ← hbefore]
      rfl

/-- The keys closed by a change are exactly those that lose their representation if and only
if every key of a switched direction is told apart correctly. -/
theorem close_spec_iff (prev : ExternalIPsConfig) (old delta : ConnMap)
    (hold : ∀ k ∈ old.keys, ∃ c, k = (t.setExternalIPsConfig prev).normalizeConnectionNoLock c) :
    t.CloseSpec old delta (t.closeConnectionsOnExternalIPsConfigChange prev old delta) ↔
      ∀ k ∈ old.keys,
        t.externalIpsConfig.enabledFor k.isServer ≠ prev.enabledFor k.isServer →
          t.CloseExact (t.externalIpsConfig.enabledFor k.isServer) k.remote.network := by
  rw [closeSpec_iff_removed _ _ _ _ _
    (t.closes_closeConnectionsOnExternalIPsConfigChange prev old delta)]
  refine forall₂_congr fun k hk => ?_
  obtain ⟨c, rfl⟩ := hold k hk
  set key := (t.setExternalIPsConfig prev).normalizeConnectionNoLock c with hkey
  have hrep := (t.setExternalIPsConfig prev).exists_normalize_eq_iff t c
  have hnet : t.normalizeAddressNoLock c.remote.address (prev.enabledFor key.isServer) =
      key.remote.network := by
    rw [hkey, network_normalize, isServer_normalize]
    rfl
  rw [← hkey] at hrep
  rw [hrep]
  by_cases hsw : t.externalIpsConfig.enabledFor key.isServer = prev.enabledFor key.isServer
  · -- an unswitched direction closes nothing, and its keys keep their representation
    have hex : ∃ a, t.normalizeAddressNoLock a (t.externalIpsConfig.enabledFor key.isServer) =
        key.remote.network := ⟨c.remote.address, hsw ▸ hnet⟩
    simp [closedOnChange, hsw, hsw ▸ hex]
  · have hneg : prev.enabledFor key.isServer = !t.externalIpsConfig.enabledFor key.isServer := by
      revert hsw
      cases t.externalIpsConfig.enabledFor key.isServer <;>
        cases prev.enabledFor key.isServer <;> simp
    have hclosed : t.closedOnChange prev key =
        t.shouldClose key (t.externalIpsConfig.enabledFor key.isServer) := by
      simp [closedOnChange, hsw]
    rw [hclosed]
    simp only [ne_eq, hsw, not_false_eq_true, true_imp_iff]
    rw [hneg] at hnet
    cases hen : t.externalIpsConfig.enabledFor key.isServer with
    | true =>
      rw [hen] at hnet
      exact closeExact_true_iff _ _ hnet
    | false =>
      rw [hen] at hnet
      rw [← closeExact_false_iff _ _ hnet]
      simp [shouldClose, shouldNormalizeConnection, Endpoint.address]

/-- The state of one active connection, as external IPs in both directions report it. -/
def externalState (conn : Connection) : ConnMap :=
  (∅ : ConnMap).insert ((empty.setExternalIPsConfig ⟨.both⟩).normalizeConnectionNoLock conn)
    (.ofTime 5 true)

def webRequest : Connection :=
  .new "c1" (.ofAddress (.ofBytes 10 0 0 1) 45000) (.ofAddress (.ofBytes 8 8 8 8) 443) .tcp false

theorem close_spec_webRequest :
    empty.CloseSpec (externalState webRequest) ∅
        (empty.closeConnectionsOnExternalIPsConfigChange ⟨.both⟩ (externalState webRequest) ∅) ↔
      ∀ k ∈ (externalState webRequest).keys,
        empty.externalIpsConfig.enabledFor k.isServer ≠
            ExternalIPsConfig.enabledFor ⟨.both⟩ k.isServer →
          empty.CloseExact (empty.externalIpsConfig.enabledFor k.isServer) k.remote.network :=
  close_spec_iff empty ⟨.both⟩ (externalState webRequest) ∅ fun _ hk =>
    ⟨webRequest, List.mem_singleton.mp hk⟩

/-- A DHCP discovery, sent to the address that also stands for the rest of the internet. -/
def broadcastRequest : Connection :=
  .new "c1" (.ofAddress (.any .ipv4) 68) (.ofAddress (.ofBytes 255 255 255 255) 67) .udp false

/-- With external IPs disabled the broadcast key stays open although nothing normalises to
it any more. -/
theorem close_spec_fails_broadcastRequest :
    ¬ empty.CloseSpec (externalState broadcastRequest) ∅
      (empty.closeConnectionsOnExternalIPsConfigChange ⟨.both⟩
        (externalState broadcastRequest) ∅) := by
  intro hspec
  set key := (empty.setExternalIPsConfig ⟨.both⟩).normalizeConnectionNoLock broadcastRequest
  have hstays : key ∈ (empty.closeConnectionsOnExternalIPsConfigChange ⟨.both⟩
      (externalState broadcastRequest) ∅).1.keys := by
    have hany : ((empty.closeConnectionsOnExternalIPsConfigChange ⟨.both⟩
        (externalState broadcastRequest) ∅).1.keys.any fun k => decide (k = key)) = true := by
      decide +kernel
    simpa using hany
  have hrep : ∃ c, empty.normalizeConnectionNoLock c = key := by
    have hmem : key ∈ (externalState broadcastRequest).keys := List.mem_singleton.mpr rfl
    by_contra hno
    exact (hspec.removed_iff key hmem).mpr hno hstays
  obtain ⟨a, ha⟩ := ((empty.setExternalIPsConfig ⟨.both⟩).exists_normalize_eq_iff empty _).mp hrep
  have hoff : empty.externalIpsConfig.enabledFor key.isServer = false := by decide +kernel
  have hflag : key.remote.network.isAddr = false ∧ key.remote.network ≠ .null := by decide +kernel
  rw [hoff] at ha
  by_cases hagg : empty.Aggregated a
  · rw [normalizeAddress_of_aggregated _ hagg] at ha
    exact absurd (congrArg IPNet.isAddr ha) (by simp [key, hflag.1])
  · rcases (normalizeAddress_cases _ hagg false).2 with hn | ⟨bits, hn⟩ | ⟨hn, _⟩
    · exact hflag.2 (ha.symm.trans hn)
    · have haddr := congrArg IPNet.isAddr (ha.symm.trans hn)
      rw [hflag.1] at haddr
      simp at haddr
    · exact absurd hn (by simp [empty, NRadixTree.getAll, NRadixTree.empty, BitTrie.toList])

end ConnectionTracker

end AcsNext.Collector
