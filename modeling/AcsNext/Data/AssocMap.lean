import Mathlib.Tactic

/-! Association maps whose key equality need only be an equivalence relation.
The entry list is the iteration order of the container, so a statement about
every map is a statement about every iteration order. -/
namespace AcsNext.Data

universe u v w

/-- No entry's key equals the key of an entry stored before it. -/
def DistinctKeys {K : Type u} {V : Type v} [BEq K] (l : List (K × V)) : Prop :=
  l.Pairwise fun a b => (b.1 == a.1) = false

structure AssocMap (K : Type u) (V : Type v) [BEq K] where
  entries : List (K × V)
  distinct : DistinctKeys entries

namespace AssocMap

variable {K : Type u} {V : Type v} {W : Type w} [BEq K]

def empty : AssocMap K V := ⟨[], List.Pairwise.nil⟩

instance : EmptyCollection (AssocMap K V) := ⟨empty⟩

def findPair? (m : AssocMap K V) (k : K) : Option (K × V) :=
  m.entries.find? fun e => k == e.1

def find? (m : AssocMap K V) (k : K) : Option V :=
  (m.findPair? k).map Prod.snd

def contains (m : AssocMap K V) (k : K) : Bool := (m.find? k).isSome

def keys (m : AssocMap K V) : List K := m.entries.map Prod.fst

def size (m : AssocMap K V) : ℕ := m.entries.length

/-- Insertion without overwriting: an equal key keeps its entry. Where a hash map iterates over
the new entry is left open; here it comes last. -/
def insert (m : AssocMap K V) (k : K) (v : V) : AssocMap K V :=
  if h : m.contains k = true then m
  else ⟨m.entries ++ [(k, v)], by
    simp only [contains, find?, findPair?, Option.isSome_map, List.find?_isSome, not_exists,
      not_and, Bool.not_eq_true] at h
    refine List.pairwise_append.mpr ⟨m.distinct, List.pairwise_singleton _ _, ?_⟩
    intro a ha b hb
    rw [List.mem_singleton.mp hb]
    exact h a ha⟩

/-- One pass over the entries that keeps, rewrites or erases each in place. -/
def filterMap (m : AssocMap K V) (f : K → V → Option W) : AssocMap K W :=
  ⟨m.entries.filterMap fun e => (f e.1 e.2).map (Prod.mk e.1), by
    refine List.pairwise_filterMap.mpr (m.distinct.imp ?_)
    intro a b hab c hc d hd
    obtain ⟨_, _, rfl⟩ := Option.map_eq_some_iff.mp hc
    obtain ⟨_, _, rfl⟩ := Option.map_eq_some_iff.mp hd
    exact hab⟩

def set (m : AssocMap K V) (k : K) (v : V) : AssocMap K V :=
  m.filterMap fun k' v' => some (if k == k' then v else v')

def erase (m : AssocMap K V) (k : K) : AssocMap K V :=
  m.filterMap fun k' v' => if k == k' then none else some v'

def filter (m : AssocMap K V) (p : K → V → Bool) : AssocMap K V :=
  m.filterMap fun k v => if p k v then some v else none

def assign (m : AssocMap K V) (k : K) (v : V) : AssocMap K V :=
  if m.contains k then m.set k v else m.insert k v

@[simp] theorem find?_empty (k : K) : (∅ : AssocMap K V).find? k = none := rfl

theorem contains_eq (m : AssocMap K V) (k : K) : m.contains k = (m.find? k).isSome := rfl

theorem entries_filter (m : AssocMap K V) (p : K → V → Bool) :
    (m.filter p).entries = m.entries.filter fun e => p e.1 e.2 := by
  change m.entries.filterMap _ = _
  rw [← List.filterMap_eq_filter]
  refine List.filterMap_congr fun e _ => ?_
  by_cases h : p e.1 e.2 = true <;> simp [Option.guard, h]

theorem size_filter (m : AssocMap K V) (p : K → V → Bool) :
    m.size = (m.filter p).size + m.entries.countP fun e => !p e.1 e.2 := by
  unfold size
  rw [entries_filter, ← List.countP_eq_length_filter]
  simpa using List.length_eq_countP_add_countP (fun e : K × V => p e.1 e.2) (l := m.entries)

theorem entries_insert (m : AssocMap K V) (k : K) (v : V) :
    (m.insert k v).entries = if m.contains k then m.entries else m.entries ++ [(k, v)] := by
  unfold insert
  by_cases h : m.contains k = true <;> simp [h]

theorem mem_keys_insert {m : AssocMap K V} {k q : K} {v : V} (h : q ∈ (m.insert k v).keys) :
    q ∈ m.keys ∨ q = k := by
  rw [keys, entries_insert] at h
  split_ifs at h with hk
  · exact Or.inl h
  · simpa [keys] using h

theorem keys_set (m : AssocMap K V) (k : K) (v : V) : (m.set k v).keys = m.keys := by
  change (m.entries.filterMap _).map Prod.fst = m.entries.map Prod.fst
  simp

theorem find?_insert_of_some (m : AssocMap K V) (k : K) (v : V) {q : K} {w : V}
    (h : m.find? q = some w) : (m.insert k v).find? q = some w := by
  obtain ⟨e, he, rfl⟩ := Option.map_eq_some_iff.mp h
  simp only [find?, findPair?] at he ⊢
  rw [entries_insert]
  split_ifs <;> simp [he]

theorem contains_insert_of_ne (m : AssocMap K V) (k : K) (v : V) {q : K} (hq : (q == k) = false) :
    (m.insert k v).contains q = m.contains q := by
  change ((m.insert k v).findPair? q |>.map Prod.snd).isSome = _
  rw [findPair?, entries_insert]
  by_cases hk : m.contains k = true
  · rw [if_pos hk]
    rfl
  · rw [if_neg hk, List.find?_append]
    simp [hq, contains_eq, find?, findPair?]

theorem find?_insert_self [ReflBEq K] (m : AssocMap K V) (k : K) (v : V)
    (h : m.contains k = false) : (m.insert k v).find? k = some v := by
  have hnone : (m.entries.find? fun e => k == e.1) = none := by
    simpa only [contains, find?, findPair?, Option.isSome_map, Option.isSome_eq_false_iff,
      Option.isNone_iff_eq_none] using h
  simp only [find?, findPair?, entries_insert, h]
  simp [hnone]

/-- Among the keys of `S`, equality is an equivalence relation. -/
structure EquivOn (S : Set K) : Prop where
  refl : ∀ a ∈ S, (a == a) = true
  symm : ∀ a ∈ S, ∀ b ∈ S, (a == b) = true → (b == a) = true
  trans : ∀ a ∈ S, ∀ b ∈ S, ∀ c ∈ S, (a == b) = true → (b == c) = true → (a == c) = true

section EquivOn

variable {S : Set K} (hS : EquivOn S) {m : AssocMap K V} (hm : ∀ k ∈ m.keys, k ∈ S)

include hS hm

theorem find?_congr_on {a b : K} (ha : a ∈ S) (hb : b ∈ S) (h : (a == b) = true) :
    m.find? a = m.find? b := by
  simp only [find?, findPair?]
  congr 1
  refine List.find?_congr fun e he => ?_
  have hin : e.1 ∈ S := hm e.1 (List.mem_map_of_mem he)
  rw [Bool.eq_iff_iff]
  exact ⟨hS.trans b hb a ha _ hin (hS.symm a ha b hb h), hS.trans a ha b hb _ hin h⟩

theorem find?_insert_on {k q : K} (hk : k ∈ S) (hq : q ∈ S) (v : V) :
    (m.insert k v).find? q = if q == k then some ((m.find? q).getD v) else m.find? q := by
  by_cases hqk : (q == k) = true
  · rw [if_pos hqk]
    have hcongr := find?_congr_on hS hm hq hk hqk
    cases hfind : m.find? q with
    | some w => exact m.find?_insert_of_some k v hfind
    | none =>
      have hnone : m.contains k = false := by rw [contains_eq, ← hcongr, hfind]; rfl
      have hentries : m.entries.find? (fun e => q == e.1) = none := by
        simpa [find?, findPair?] using hfind
      simp [find?, findPair?, entries_insert, hnone, hentries, hqk]
  · rw [if_neg hqk]
    simp only [find?, findPair?, entries_insert]
    split_ifs with hc
    · rfl
    · simp [List.find?_append, hqk]

theorem find?_set_on {k q : K} (hk : k ∈ S) (hq : q ∈ S) (v : V) :
    (m.set k v).find? q = if q == k then (m.find? q).map fun _ => v else m.find? q := by
  have hentries : (m.set k v).entries =
      m.entries.map fun e => (e.1, if k == e.1 then v else e.2) := by
    change m.entries.filterMap _ = _
    simp
  simp only [find?, findPair?, hentries, List.find?_map, Function.comp_def, Option.map_map]
  cases hfind : m.entries.find? fun e => q == e.1 with
  | none => simp
  | some e =>
    have hqe : (q == e.1) = true := by simpa using List.find?_some hfind
    have hin : e.1 ∈ S := hm e.1 (List.mem_map_of_mem (List.mem_of_find?_eq_some hfind))
    -- the first entry that answers `q` is rewritten exactly when `q` equals `k`
    have hiff : (k == e.1) = true ↔ (q == k) = true := by
      constructor
      · exact fun hke => hS.trans q hq _ hin k hk hqe (hS.symm k hk _ hin hke)
      · exact fun hqk => hS.trans k hk q hq _ hin (hS.symm q hq k hk hqk) hqe
    by_cases hqk : (q == k) = true
    · simp [hqk, hiff.mpr hqk]
    · simp [hqk, mt hiff.mp hqk]

end EquivOn

section Equivalence

variable [EquivBEq K]

theorem find?_congr (m : AssocMap K V) {a b : K} (h : (a == b) = true) :
    m.find? a = m.find? b := by
  have hp : (fun e : K × V => a == e.1) = fun e => b == e.1 := by
    funext e
    exact BEq.congr_left h
  simp only [find?, findPair?, hp]

theorem contains_congr (m : AssocMap K V) {a b : K} (h : (a == b) = true) :
    m.contains a = m.contains b := by
  rw [contains_eq, contains_eq, m.find?_congr h]

/-- Once an entry answers `q`, no entry stored after it does. -/
theorem find?_tail_eq_none {q : K} {e : K × V} {l : List (K × V)}
    (he : ∀ x ∈ l, (x.1 == e.1) = false) (hq : (q == e.1) = true) :
    (l.find? fun e => q == e.1) = none := by
  refine List.find?_eq_none.mpr fun x hx hqx => ?_
  have hxe : (x.1 == e.1) = true := BEq.trans (BEq.symm hqx) hq
  rw [he x hx] at hxe
  exact Bool.noConfusion hxe

private theorem find?_filterMap_list (f : K → V → Option W)
    (hf : ∀ a b v, (a == b) = true → f a v = f b v) (q : K) (l : List (K × V))
    (hl : DistinctKeys l) :
    ((l.filterMap fun e => (f e.1 e.2).map (Prod.mk e.1)).find? fun e => q == e.1).map Prod.snd =
      ((l.find? fun e => q == e.1).map Prod.snd).bind (f q) := by
  induction l with
  | nil => rfl
  | cons e l ih =>
    obtain ⟨he, hl⟩ := List.pairwise_cons.mp hl
    have ih := ih hl
    by_cases hq : (q == e.1) = true
    · -- no later entry can answer `q`, so erasing `e` erases the key
      rw [find?_tail_eq_none he hq] at ih
      cases hfe : f e.1 e.2 with
      | none => simpa [hfe, hq, hf q e.1 e.2 hq] using ih
      | some w => simp [hfe, hq, hf q e.1 e.2 hq]
    · cases hfe : f e.1 e.2 with
      | none => simpa [hfe, hq] using ih
      | some w => simpa [hfe, hq] using ih

theorem find?_filterMap (m : AssocMap K V) (f : K → V → Option W)
    (hf : ∀ a b v, (a == b) = true → f a v = f b v) (q : K) :
    (m.filterMap f).find? q = (m.find? q).bind (f q) :=
  find?_filterMap_list f hf q m.entries m.distinct

theorem find?_filter (m : AssocMap K V) (p : K → V → Bool)
    (hp : ∀ a b v, (a == b) = true → p a v = p b v) (q : K) :
    (m.filter p).find? q = (m.find? q).filter (p q) := by
  rw [filter, find?_filterMap m _ (fun a b v h => by simp only [hp a b v h])]
  cases m.find? q <;> simp [Option.filter]

theorem find?_set (m : AssocMap K V) (k : K) (v : V) (q : K) :
    (m.set k v).find? q = if k == q then (m.find? q).map fun _ => v else m.find? q := by
  rw [set, find?_filterMap m _ (fun a b v' h => by simp only [BEq.congr_right h])]
  by_cases hq : (k == q) = true <;> cases m.find? q <;> simp [hq]

theorem find?_erase (m : AssocMap K V) (k q : K) :
    (m.erase k).find? q = if k == q then none else m.find? q := by
  rw [erase, find?_filterMap m _ (fun a b v' h => by simp only [BEq.congr_right h])]
  by_cases hq : (k == q) = true <;> cases m.find? q <;> simp [hq]

private theorem perm_erase_list (k : K) (l : List (K × V)) (hl : DistinctKeys l) {v : V}
    (h : (l.find? fun e => k == e.1).map Prod.snd = some v) :
    (l.map Prod.snd).Perm (v :: (l.filter fun e => !(k == e.1)).map Prod.snd) := by
  induction l with
  | nil => cases h
  | cons e l ih =>
    obtain ⟨he, hl⟩ := List.pairwise_cons.mp hl
    by_cases hk : (k == e.1) = true
    · have hv : e.2 = v := by simpa [hk] using h
      have hrest : (l.filter fun e => !(k == e.1)) = l := by
        have hnone := List.find?_eq_none.mp (find?_tail_eq_none he hk)
        exact List.filter_eq_self.mpr fun x hx => by simpa using hnone x hx
      simp [hk, hrest, hv]
    · have ih := ih hl (by simpa [hk] using h)
      simp only [hk, List.map_cons, List.filter_cons, Bool.not_false, if_true]
      exact (ih.cons e.2).trans (.swap _ _ _)

theorem perm_erase (m : AssocMap K V) {k : K} {v : V} (h : m.find? k = some v) :
    (m.entries.map Prod.snd).Perm (v :: (m.erase k).entries.map Prod.snd) := by
  have herase : m.erase k = m.filter fun k' _ => !(k == k') := by
    unfold erase filter
    congr 1
    funext k' v'
    cases hk : k == k' <;> simp [hk]
  rw [herase, entries_filter]
  exact perm_erase_list k m.entries m.distinct h

theorem find?_insert (m : AssocMap K V) (k : K) (v : V) (q : K) :
    (m.insert k v).find? q = if k == q then some ((m.find? q).getD v) else m.find? q := by
  unfold insert
  by_cases hk : m.contains k = true
  · rw [dif_pos hk]
    by_cases hq : (k == q) = true
    · rw [contains_eq, m.find?_congr hq] at hk
      obtain ⟨x, hx⟩ := Option.isSome_iff_exists.mp hk
      simp [hq, hx]
    · simp [hq]
  · rw [dif_neg hk]
    by_cases hq : (k == q) = true
    · rw [contains_eq, m.find?_congr hq] at hk
      have hnone : m.find? q = none := by simpa using hk
      have hlist : (m.entries.find? fun e => q == e.1) = none := by
        simpa [find?, findPair?] using hnone
      simp [hq, find?, findPair?, List.find?_append, hlist, BEq.symm hq]
    · have hq' : (q == k) = false := by
        rw [BEq.comm]
        simpa using hq
      simp [find?, findPair?, List.find?_append, hq, hq']

theorem find?_assign (m : AssocMap K V) (k : K) (v : V) (q : K) :
    (m.assign k v).find? q = if k == q then some v else m.find? q := by
  unfold assign
  by_cases hk : m.contains k = true
  · rw [if_pos hk, find?_set]
    by_cases hq : (k == q) = true
    · rw [contains_eq, m.find?_congr hq] at hk
      obtain ⟨x, hx⟩ := Option.isSome_iff_exists.mp hk
      simp [hq, hx]
    · simp [hq]
  · rw [if_neg hk, find?_insert]
    by_cases hq : (k == q) = true
    · rw [contains_eq, m.find?_congr hq] at hk
      have hnone : m.find? q = none := by simpa using hk
      simp [hq, hnone]
    · simp [hq]

theorem find?_of_mem (m : AssocMap K V) {e : K × V} (he : e ∈ m.entries) :
    m.find? e.1 = some e.2 := by
  obtain ⟨l, hl⟩ := m
  simp only [find?, findPair?] at he ⊢
  induction l with
  | nil => cases he
  | cons x l ih =>
    obtain ⟨hx, hl⟩ := List.pairwise_cons.mp hl
    rcases List.mem_cons.mp he with rfl | he
    · simp
    · simpa [hx e he] using ih hl he

theorem find?_eq_some_iff (m : AssocMap K V) (q : K) (v : V) :
    m.find? q = some v ↔ ∃ e ∈ m.entries, (e.1 == q) = true ∧ e.2 = v := by
  constructor
  · intro h
    obtain ⟨e, he, rfl⟩ := Option.map_eq_some_iff.mp h
    have hq : (q == e.1) = true := by simpa using List.find?_some he
    exact ⟨e, List.mem_of_find?_eq_some he, BEq.symm hq, rfl⟩
  · intro hx
    obtain ⟨e, he, hq, rfl⟩ := hx
    rw [← m.find?_congr hq]
    exact m.find?_of_mem he

theorem size_eq_zero_iff (m : AssocMap K V) : m.size = 0 ↔ ∀ k, m.contains k = false := by
  unfold size
  constructor
  · intro h k
    simp [contains, find?, findPair?, List.length_eq_zero_iff.mp h]
  · intro h
    cases hentries : m.entries with
    | nil => rfl
    | cons e l =>
      have hfind := m.find?_of_mem (show e ∈ m.entries by simp [hentries])
      have hno := h e.1
      rw [contains_eq, hfind] at hno
      cases hno

theorem contains_insert (m : AssocMap K V) (k : K) (v : V) (q : K) :
    (m.insert k v).contains q = (k == q || m.contains q) := by
  rw [contains_eq, contains_eq, find?_insert]
  cases k == q <;> simp

private theorem find?_foldl_list (step : AssocMap K W → K × V → AssocMap K W)
    (f : K → V → Option W → Option W)
    (hf : ∀ a b v o, (a == b) = true → f a v o = f b v o)
    (hstep : ∀ m e q, (step m e).find? q = if e.1 == q then f e.1 e.2 (m.find? q) else m.find? q)
    (q : K) (l : List (K × V)) (hl : DistinctKeys l) (m : AssocMap K W) :
    (l.foldl step m).find? q = match (l.find? fun e => q == e.1).map Prod.snd with
      | none => m.find? q
      | some v => f q v (m.find? q) := by
  induction l generalizing m with
  | nil => rfl
  | cons e l ih =>
    obtain ⟨he, hl⟩ := List.pairwise_cons.mp hl
    rw [List.foldl_cons, ih hl, hstep]
    by_cases hq : (q == e.1) = true
    · simp [find?_tail_eq_none he hq, hq, BEq.symm hq, hf q e.1 e.2 _ hq]
    · have hq' : (e.1 == q) = false := by
        rw [BEq.comm]
        simpa using hq
      simp [hq, hq']

/-- A loop over the entries of `src` whose body touches only the key at hand acts
pointwise, whatever the iteration order. -/
theorem find?_foldl (step : AssocMap K W → K × V → AssocMap K W)
    (f : K → V → Option W → Option W)
    (hf : ∀ a b v o, (a == b) = true → f a v o = f b v o)
    (hstep : ∀ m e q, (step m e).find? q = if e.1 == q then f e.1 e.2 (m.find? q) else m.find? q)
    (src : AssocMap K V) (m : AssocMap K W) (q : K) :
    (src.entries.foldl step m).find? q = match src.find? q with
      | none => m.find? q
      | some v => f q v (m.find? q) :=
  find?_foldl_list step f hf hstep q src.entries src.distinct m

end Equivalence

end AssocMap

end AcsNext.Data
