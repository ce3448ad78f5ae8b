import AcsNext.Collector.NRadix

/-! Mixing address families in one radix tree: when the entries of the other family leave
the answers of a family alone. -/
namespace AcsNext.Collector
open AcsNext.Data

namespace NRadixTree

/-- Among the networks of the list that contain `q`, the longest one that comes first is of
family `f`, provided some network of family `f` contains `q` at all. -/
def FindIsolated (networks : List IPNet) (f : Family) (q : IPNet) : Prop :=
  (∃ n ∈ networks, n.family = f ∧ n.Covers q) →
    ∀ m ∈ networks, m.Covers q → (∀ m' ∈ networks, m'.Covers q → m'.bits ≤ m.bits) →
      ∃ first, networks.find? (fun x => decide (x.SamePrefix m)) = some first ∧ first.family = f

/-- Where the list has the prefix of `n` at all, it has it in family `f`. -/
def InsertIsolated (networks : List IPNet) (f : Family) (n : IPNet) : Prop :=
  (∃ m ∈ networks, m.SamePrefix n) → ∃ m ∈ networks, m.family = f ∧ m.SamePrefix n

/-- The trie lookup of a list of proper networks is longest-prefix match, ties going to the
first listed. -/
theorem find_ofList_eq_some_iff (networks : List IPNet) (hpos : ∀ n ∈ networks, 0 < n.bits)
    (q n : IPNet) :
    (ofList networks).root.find q.path none = some n ↔
      networks.find? (fun x => decide (x.SamePrefix n)) = some n ∧ n.Covers q ∧
        ∀ m ∈ networks, m.Covers q → m.bits ≤ n.bits := by
  have hget (p : List Bool) : (ofList networks).root.get? p =
      networks.find? fun x => decide (x.path = p) := by
    rw [get?_ofList]
    refine List.find?_congr fun x hx => ?_
    simp [hpos x hx]
  have hpred (m : IPNet) : (fun x : IPNet => decide (x.SamePrefix m)) =
      fun x => decide (x.path = m.path) := by
    funext x
    simp only [IPNet.samePrefix_iff]
  rw [BitTrie.find_eq_some_iff, hpred]
  constructor
  · intro h
    obtain ⟨p, hp, hn, hmax⟩ := h
    obtain ⟨rfl, _⟩ := (ofList networks).stored p n hn
    refine ⟨(hget n.path).symm.trans hn, (n.covers_iff q).mpr hp, fun m hm hmq => ?_⟩
    by_contra hlt
    have hnone := hmax m.path ((m.covers_iff q).mp hmq) (by simpa using hlt)
    rw [hget, List.find?_eq_none] at hnone
    exact hnone m hm (by simp)
  · intro h
    obtain ⟨hn, hnq, hmax⟩ := h
    refine ⟨n.path, (n.covers_iff q).mp hnq, (hget n.path).trans hn, fun p hp hlt => ?_⟩
    rw [hget, List.find?_eq_none]
    intro m hm hmp
    have hmp : m.path = p := by simpa using hmp
    have hle := hmax m hm ((m.covers_iff q).mpr (hmp ▸ hp))
    rw [← hmp, m.length_path, n.length_path] at hlt
    omega

theorem find_ofList_eq_none_iff (networks : List IPNet) (hpos : ∀ n ∈ networks, 0 < n.bits)
    (q : IPNet) :
    (ofList networks).root.find q.path none = none ↔ ∀ n ∈ networks, ¬ n.Covers q := by
  rw [BitTrie.find_eq_none_iff]
  constructor
  · intro h n hn hnq
    have hnone := h n.path ((n.covers_iff q).mp hnq)
    rw [get?_ofList, List.find?_eq_none] at hnone
    exact hnone n hn (by simp [hpos n hn])
  · intro h p hp
    rw [get?_ofList, List.find?_eq_none]
    intro n hn hnp
    simp only [Bool.and_eq_true, decide_eq_true_eq] at hnp
    have hcov : n.Covers q := (n.covers_iff q).mpr (hnp.2 ▸ hp)
    exact h n hn hcov

/-- Two longest networks containing `q` have one prefix. -/
private theorem samePrefix_of_maximal {networks : List IPNet} {q m n : IPNet}
    (hm : m ∈ networks) (hmq : m.Covers q) (hn : n ∈ networks) (hnq : n.Covers q)
    (hmmax : ∀ x ∈ networks, x.Covers q → x.bits ≤ m.bits)
    (hnmax : ∀ x ∈ networks, x.Covers q → x.bits ≤ n.bits) : n.SamePrefix m := by
  have hb : n.bits = m.bits := le_antisymm (hmmax n hn hnq) (hnmax m hm hmq)
  refine ⟨hb, fun i hi => ?_⟩
  have hn_bit := hnq.2 i hi
  have hm_bit := hmq.2 i (hb ▸ hi)
  exact hn_bit.trans hm_bit.symm

private theorem find?_and_eq_some {α : Type*} {l : List α} {p r : α → Bool} {a : α}
    (h : l.find? r = some a) (hp : p a = true) :
    (l.find? fun x => decide (p x = true ∧ r x = true)) = some a := by
  obtain ⟨hr, before, after, rfl, hbefore⟩ := List.find?_eq_some_iff_append.mp h
  refine List.find?_eq_some_iff_append.mpr ⟨by simp [hp, hr], before, after, rfl, ?_⟩
  intro x hx
  have hrx : r x = false := by simpa using hbefore x hx
  simp [hrx]

section Find

variable {networks : List IPNet} (hpos : ∀ n ∈ networks, 0 < n.bits) {q : IPNet}

include hpos

private theorem exists_find_eq_some {n : IPNet} (hn : n ∈ networks) (hnq : n.Covers q) :
    ∃ m, (ofList networks).root.find q.path none = some m := by
  refine Option.ne_none_iff_exists'.mp fun hnone => ?_
  exact (find_ofList_eq_none_iff networks hpos q).mp hnone n hn hnq

/-- With a network of family `f` around `q`, isolation is the family of what the mixed tree
finds. -/
private theorem findIsolated_iff_family {f : Family} {m : IPNet}
    (hex : ∃ n ∈ networks, n.family = f ∧ n.Covers q)
    (hm : (ofList networks).root.find q.path none = some m) :
    FindIsolated networks f q ↔ m.family = f := by
  obtain ⟨hfirst, hmq, hmax⟩ := (find_ofList_eq_some_iff networks hpos q m).mp hm
  have hmem := List.mem_of_find?_eq_some hfirst
  constructor
  · intro h
    obtain ⟨first, hfirst', hff⟩ := h hex m hmem hmq hmax
    rw [hfirst] at hfirst'
    rw [Option.some.inj hfirst']
    exact hff
  · intro hmf _ x hx hxq hxmax
    have hmx := samePrefix_of_maximal hx hxq hmem hmq hxmax hmax
    refine ⟨m, ?_, hmf⟩
    rw [← hfirst]
    refine List.find?_congr fun y _ => ?_
    simp only [IPNet.samePrefix_iff, (m.samePrefix_iff x).mp hmx]

/-- What the mixed tree finds in family `f` is also the answer of the family's own tree. -/
private theorem find_filter_of_family {f : Family} {m : IPNet}
    (hm : (ofList networks).root.find q.path none = some m) (hmf : m.family = f) :
    (ofList (networks.filter fun n => decide (n.family = f))).root.find q.path none = some m := by
  obtain ⟨hfirst, hmq, hmax⟩ := (find_ofList_eq_some_iff networks hpos q m).mp hm
  refine (find_ofList_eq_some_iff _ ?_ q m).mpr ⟨?_, hmq, fun x hx hxq => ?_⟩
  · exact fun n hn => hpos n (List.mem_of_mem_filter hn)
  · rw [List.find?_filter]
    exact find?_and_eq_some hfirst (decide_eq_true hmf)
  · exact hmax x (List.mem_of_mem_filter hx) hxq

end Find

private theorem find_isolated_iff (networks : List IPNet) (hpos : ∀ n ∈ networks, 0 < n.bits)
    (q : IPNet) :
    (ofList networks).find q =
        (ofList (networks.filter fun n => decide (n.family = q.family))).find q ↔
      FindIsolated networks q.family q := by
  set ownNets := networks.filter fun n => decide (n.family = q.family) with hown
  have hmem (n : IPNet) : n ∈ ownNets ↔ n ∈ networks ∧ n.family = q.family := by
    simp [hown]
  have hposOwn : ∀ n ∈ ownNets, 0 < n.bits := fun n hn => hpos n ((hmem n).mp hn).1
  by_cases hq : q.bits = 0
  · rw [find_of_zero _ q hq, find_of_zero _ q hq]
    refine ⟨fun _ hcov => ?_, fun _ => rfl⟩
    obtain ⟨n, hn, _, hnq⟩ := hcov
    have hbits := hpos n hn
    have hle := hnq.1
    omega
  rw [find_of_pos _ q (by omega), find_of_pos _ q (by omega)]
  by_cases hex : ∃ n ∈ networks, n.family = q.family ∧ n.Covers q
  · obtain ⟨n₀, hn₀, hf₀, hq₀⟩ := hex
    obtain ⟨m, hm⟩ := exists_find_eq_some hpos hn₀ hq₀
    obtain ⟨n, hn⟩ := exists_find_eq_some hposOwn ((hmem n₀).mpr ⟨hn₀, hf₀⟩) hq₀
    have hnfirst := ((find_ofList_eq_some_iff ownNets hposOwn q n).mp hn).1
    have hnmem := (hmem n).mp (List.mem_of_find?_eq_some hnfirst)
    rw [findIsolated_iff_family hpos ⟨n₀, hn₀, hf₀, hq₀⟩ hm, hm, hn]
    simp only [hnmem.2, if_true]
    by_cases hmf : m.family = q.family
    · have hfound := find_filter_of_family hpos hm hmf
      rw [← hown, hn] at hfound
      simp [hmf, Option.some.inj hfound]
    · -- the mixed tree answers null, the family's own tree a network
      have hne : n ≠ IPNet.null := by
        intro hnull
        have hbits := hpos n hnmem.1
        rw [hnull] at hbits
        simp [IPNet.null, IPNet.new] at hbits
      have hmf' : ¬ q.family = m.family := fun h => hmf h.symm
      simp only [hmf, hmf', if_false, iff_false]
      exact fun h => hne h.symm
  · have hnone : (ofList ownNets).root.find q.path none = none := by
      refine (find_ofList_eq_none_iff ownNets hposOwn q).mpr fun n hn hnq => hex ?_
      exact ⟨n, ((hmem n).mp hn).1, ((hmem n).mp hn).2, hnq⟩
    refine ⟨fun _ h => absurd h hex, fun _ => ?_⟩
    rw [hnone]
    cases hm : (ofList networks).root.find q.path none with
    | none => rfl
    | some m =>
      obtain ⟨hmfirst, hmq, _⟩ := (find_ofList_eq_some_iff networks hpos q m).mp hm
      have hmf : ¬ q.family = m.family := fun h =>
        hex ⟨m, List.mem_of_find?_eq_some hmfirst, h.symm, hmq⟩
      simp [hmf]

private theorem insert_isolated_iff (networks : List IPNet) (hpos : ∀ n ∈ networks, 0 < n.bits)
    (n : IPNet) :
    (((ofList networks).insert n).isSome =
        ((ofList (networks.filter fun m => decide (m.family = n.family))).insert n).isSome) ↔
      (0 < n.bits → InsertIsolated networks n.family n) := by
  have hnone (l : List IPNet) (hl : ∀ m ∈ l, 0 < m.bits) :
      ((ofList l).root.get? n.path).isNone = true ↔ ∀ m ∈ l, ¬ m.SamePrefix n := by
    rw [get?_ofList, Option.isNone_iff_eq_none, List.find?_eq_none]
    refine forall₂_congr fun m hm => ?_
    simp [hl m hm, IPNet.samePrefix_iff]
  have hmixed := hnone networks hpos
  have hown := hnone (networks.filter fun m => decide (m.family = n.family))
    fun m hm => hpos m (List.mem_of_mem_filter hm)
  rw [insert_isSome, insert_isSome]
  by_cases hb : 0 < n.bits
  · simp only [hb, decide_true, Bool.true_and, forall_const, Bool.eq_iff_iff, hmixed, hown]
    simp only [List.mem_filter, decide_eq_true_eq, InsertIsolated]
    constructor
    · rintro h ⟨m, hm, hmn⟩
      by_contra hno
      exact h.mpr (fun x hx hxn => hno ⟨x, hx.1, hx.2, hxn⟩) m hm hmn
    · refine fun h => ⟨fun hall m hm => hall m hm.1, fun hall m hm hmn => ?_⟩
      obtain ⟨x, hx, hxf, hxn⟩ := h ⟨m, hm, hmn⟩
      exact hall x ⟨hx, hxf⟩ hxn
  · simp [hb]

/-- The mixed tree answers the family of `q` as that family's own tree does exactly when no
network of the other family is the longest match, or holds the path, where one of its own
family should. -/
theorem family_isolation_iff (networks : List IPNet)
    (hpos : ∀ n ∈ networks, 1 ≤ n.bits ∧ n.bits ≤ 8 * n.address.length) (q : IPNet) :
    ((ofList networks).find q =
        (ofList (networks.filter fun n => decide (n.family = q.family))).find q ↔
      FindIsolated networks q.family q) ∧
    (((ofList networks).insert q).isSome =
        ((ofList (networks.filter fun n => decide (n.family = q.family))).insert q).isSome ↔
      (0 < q.bits → InsertIsolated networks q.family q)) :=
  ⟨find_isolated_iff networks (fun n hn => (hpos n hn).1) q,
    insert_isolated_iff networks (fun n hn => (hpos n hn).1) q⟩

/-- The network 8.0.0.0/8 and, under the same leading bits, 800::/16. -/
def overlappingNetworks : List IPNet :=
  [.new (.ofBytes 8 0 0 0) 8 false, .new (.ofIPv6 (htonll 0x0800000000000000#64) 0) 16 false]

theorem family_isolation_overlapping :
    (ofList overlappingNetworks).find (.ofAddress (.ofBytes 8 8 8 8)) =
      (ofList (overlappingNetworks.filter fun n =>
        decide (n.family = (IPNet.ofAddress (.ofBytes 8 8 8 8)).family))).find
        (.ofAddress (.ofBytes 8 8 8 8)) ↔
      FindIsolated overlappingNetworks .ipv4 (.ofAddress (.ofBytes 8 8 8 8)) :=
  (family_isolation_iff overlappingNetworks (by decide) (.ofAddress (.ofBytes 8 8 8 8))).1

/-- 8.0.0.1 belongs to 8.0.0.0/8, but the deeper IPv6 network hides it; and 8.0.0.0/16 is
refused because the IPv6 network sits at its path. -/
theorem family_isolation_fails :
    ((ofList overlappingNetworks).findAddress (.ofBytes 8 0 0 1) = .null ∧
      (ofList (overlappingNetworks.filter fun n => decide (n.family = .ipv4))).findAddress
        (.ofBytes 8 0 0 1) = .new (.ofBytes 8 0 0 0) 8 false) ∧
    ((ofList overlappingNetworks).insert (.new (.ofBytes 8 0 0 0) 16 false)).isSome = false ∧
      ((ofList (overlappingNetworks.filter fun n => decide (n.family = .ipv4))).insert
        (.new (.ofBytes 8 0 0 0) 16 false)).isSome = true := by
  decide +kernel

end NRadixTree

end AcsNext.Collector
