import AcsNext.Collector.NRadixObjects
import AcsNext.Collector.ConnTracker

/-! The subset query between two trees of networks: what the recursion answers when both
families share the paths, and when that is the question asked. -/
namespace AcsNext.Collector
open AcsNext.Data

namespace NRadixTree

/-- The two networks are of the family asked for, or of one family if none is asked for. -/
def OfFamily (family : Family) (a b : IPNet) : Prop :=
  if family = .unknown then a.family = b.family else a.family = family ∧ b.family = family

/-- A network of the first tree contains one of the second. -/
def Nested (family : Family) (t1 t2 : NRadixTree) : Prop :=
  ∃ a ∈ t1.getAll, ∃ b ∈ t2.getAll, OfFamily family a b ∧ a.Covers b

/-- The same for lists of networks, whether a tree accepts them or not. -/
def NestedLists (family : Family) (l1 l2 : List IPNet) : Prop :=
  ∃ a ∈ l1, ∃ b ∈ l2, OfFamily family a b ∧ a.Covers b

/-- `n` is the longest network of the tree around `q`, of either family. -/
def LongestAround (tree : NRadixTree) (q n : IPNet) : Prop :=
  n ∈ tree.getAll ∧ n.Covers q ∧ ∀ m ∈ tree.getAll, m.Covers q → m.bits ≤ n.bits

/-- Around some network of the second tree, the longest network of the first tree is of the
family: none of the other family hides it. -/
def Unhidden (family : Family) (t1 t2 : NRadixTree) : Prop :=
  ∃ b ∈ t2.getAll, ∃ a, t1.LongestAround b a ∧ OfFamily family a b

/-- Some network of the first tree contains any network of the second, and the longest
network of the second tree around it is of the family. -/
def Enclosed (family : Family) (t1 t2 : NRadixTree) : Prop :=
  ∃ a ∈ t1.getAll, (∃ c ∈ t2.getAll, a.Covers c) ∧ ∃ b, t2.LongestAround a b ∧ OfFamily family a b

instance (family : Family) (a b : IPNet) : Decidable (OfFamily family a b) :=
  inferInstanceAs (Decidable (if family = .unknown then a.family = b.family
    else a.family = family ∧ b.family = family))

instance (family : Family) (t1 t2 : NRadixTree) : Decidable (Nested family t1 t2) :=
  inferInstanceAs
    (Decidable (∃ a ∈ t1.getAll, ∃ b ∈ t2.getAll, OfFamily family a b ∧ a.Covers b))

instance (family : Family) (l1 l2 : List IPNet) : Decidable (NestedLists family l1 l2) :=
  inferInstanceAs (Decidable (∃ a ∈ l1, ∃ b ∈ l2, OfFamily family a b ∧ a.Covers b))

private theorem bothOfFamily_iff (family : Family) (a b : Option IPNet) :
    bothOfFamily family a b = true ↔ ∃ x y, a = some x ∧ b = some y ∧ OfFamily family x y := by
  cases a with
  | none => simp [bothOfFamily]
  | some x =>
    cases b with
    | none => simp [bothOfFamily]
    | some y =>
      by_cases hf : family = .unknown <;> simp [bothOfFamily, OfFamily, hf]

private theorem exists_hasNode_node {v : Option IPNet} {l r : BitTrie IPNet}
    {P : List Bool → Prop} :
    (∃ p, (BitTrie.node v l r).HasNode p ∧ P p) ↔
      P [] ∨ (∃ p, l.HasNode p ∧ P (false :: p)) ∨ ∃ p, r.HasNode p ∧ P (true :: p) := by
  constructor
  · intro he
    obtain ⟨_ | ⟨_ | _, p⟩, hnode, hp⟩ := he
    · exact Or.inl hp
    · exact Or.inr (Or.inl ⟨p, hnode, hp⟩)
    · exact Or.inr (Or.inr ⟨p, hnode, hp⟩)
  · intro he
    rcases he with hp | ⟨p, hnode, hp⟩ | ⟨p, hnode, hp⟩
    · exact ⟨[], trivial, hp⟩
    · exact ⟨false :: p, hnode, hp⟩
    · exact ⟨true :: p, hnode, hp⟩

/-- The recursion looks at every node of the second trie and compares the last values met on
the way to it. -/
private theorem isAnyIPNetSubsetUtil_iff (family : Family) (n1 n2 : BitTrie IPNet)
    (containing contained : Option IPNet) :
    isAnyIPNetSubsetUtil family n1 n2 containing contained = true ↔
      bothOfFamily family containing contained = true ∨
        ∃ r, n2.HasNode r ∧
          bothOfFamily family (n1.find r containing) (n2.find r contained) = true := by
  induction n2 generalizing n1 containing contained with
  | nil =>
    unfold isAnyIPNetSubsetUtil
    simp [BitTrie.HasNode]
  | node v2 l2 r2 ihl ihr =>
    unfold isAnyIPNetSubsetUtil
    rw [Bool.or_eq_true, exists_hasNode_node]
    refine or_congr Iff.rfl ?_
    cases n1 with
    | nil =>
      simp only [Bool.or_eq_true, ihl, ihr, BitTrie.find]
      exact or_or_distrib_left.symm
    | node v1 l1 r1 =>
      simp only [Bool.or_eq_true, ihl, ihr, BitTrie.find]
      exact or_or_distrib_left.symm

private theorem find_root_eq_some_iff (tree : NRadixTree) (r : List Bool) (n : IPNet) :
    tree.root.find r none = some n ↔
      n ∈ tree.getAll ∧ n.path <+: r ∧ ∀ m ∈ tree.getAll, m.path <+: r → m.bits ≤ n.bits := by
  rw [BitTrie.find_eq_some_iff]
  constructor
  · intro he
    obtain ⟨q, hq, hget, hmax⟩ := he
    obtain ⟨rfl, _⟩ := tree.stored q n hget
    refine ⟨(BitTrie.mem_toList _ _).mpr ⟨n.path, hget⟩, hq, fun m hm hmr => ?_⟩
    by_contra hlt
    have hnone := hmax m.path hmr (by simpa using hlt)
    rw [tree.get?_path hm] at hnone
    cases hnone
  · intro he
    obtain ⟨hn, hnr, hmax⟩ := he
    refine ⟨n.path, hnr, tree.get?_path hn, fun q hq hlt => ?_⟩
    by_contra hne
    obtain ⟨m, hm⟩ := Option.ne_none_iff_exists'.mp hne
    obtain ⟨rfl, _⟩ := tree.stored q m hm
    have hle := hmax m ((BitTrie.mem_toList _ _).mpr ⟨m.path, hm⟩) hq
    rw [IPNet.length_path, IPNet.length_path] at hlt
    omega

private theorem longestAround_iff (tree : NRadixTree) (q n : IPNet) :
    tree.LongestAround q n ↔ tree.root.find q.path none = some n := by
  rw [find_root_eq_some_iff]
  simp only [LongestAround, IPNet.covers_iff]

private theorem hasNode_ofList (l : List IPNet) (r : List Bool) :
    (ofList l).root.HasNode r ↔ r = [] ∨ ∃ n ∈ (ofList l).getAll, r <+: n.path := by
  induction l using List.reverseRecOn generalizing r with
  | nil =>
    change (BitTrie.node none .nil .nil).HasNode r ↔ r = [] ∨ ∃ n ∈ ([] : List IPNet), r <+: n.path
    rcases r with _ | ⟨_ | _, r⟩ <;> simp [BitTrie.HasNode]
  | append_singleton l n ih =>
    rw [ofList_append_singleton]
    cases hins : (ofList l).insert n with
    | none => exact ih r
    | some tree =>
      have hmap := (ofList l).map_root_insert n
      rw [hins] at hmap
      split_ifs at hmap with h0
      · have hroot : (ofList l).root.insert n.path n = some tree.root := hmap.symm
        have hmem (m : IPNet) : m ∈ tree.getAll ↔ m = n ∨ m ∈ (ofList l).getAll := by
          rw [(getAll_insert hins).mem_iff, List.mem_cons]
        rw [Option.getD_some, BitTrie.hasNode_insert hroot, ih]
        simp only [hmem, exists_eq_or_imp]
        rw [or_assoc]
        exact or_congr Iff.rfl or_comm
      · cases hmap

/-- The query answers true exactly in these two situations. -/
theorem isAnyIPNetSubset_iff (family : Family) (t1 : NRadixTree) (l2 : List IPNet) :
    t1.isAnyIPNetSubset family (ofList l2) = true ↔
      Unhidden family t1 (ofList l2) ∨ Enclosed family t1 (ofList l2) := by
  set t2 := ofList l2 with ht2
  have hnode := hasNode_ofList l2
  rw [← ht2] at hnode
  unfold isAnyIPNetSubset
  rw [isAnyIPNetSubsetUtil_iff]
  simp only [bothOfFamily_iff, reduceCtorEq, false_and, exists_false, false_or]
  constructor
  · intro he
    obtain ⟨r, hr, a, b, ha, hb, hfam⟩ := he
    obtain ⟨ha1, har, hamax⟩ := (t1.find_root_eq_some_iff r a).mp ha
    obtain ⟨hb2, hbr, hbmax⟩ := (t2.find_root_eq_some_iff r b).mp hb
    by_cases hle : a.bits ≤ b.bits
    · have hab : a.path <+: b.path := List.prefix_of_prefix_length_le har hbr (by simpa using hle)
      refine Or.inl ⟨b, hb2, a, ⟨ha1, (a.covers_iff b).mpr hab, fun m hm hmb => ?_⟩, hfam⟩
      exact hamax m hm (((m.covers_iff b).mp hmb).trans hbr)
    · have hba : b.path <+: a.path := List.prefix_of_prefix_length_le hbr har (by simp; omega)
      refine Or.inr ⟨a, ha1, ?_, b, ⟨hb2, (b.covers_iff a).mpr hba, fun m hm hma => ?_⟩, hfam⟩
      · rcases (hnode r).mp hr with rfl | ⟨c, hc, hrc⟩
        · have hlen := har.length_le
          rw [IPNet.length_path, List.length_nil] at hlen
          omega
        · exact ⟨c, hc, (a.covers_iff c).mpr (har.trans hrc)⟩
      · exact hbmax m hm (((m.covers_iff a).mp hma).trans har)
  · have hself (tree : NRadixTree) {n : IPNet} (hn : n ∈ tree.getAll) :
        tree.root.find n.path none = some n := by
      refine (tree.find_root_eq_some_iff n.path n).mpr ⟨hn, List.prefix_rfl, fun m _ hm => ?_⟩
      simpa using hm.length_le
    intro he
    rcases he with ⟨b, hb, a, ha, hfam⟩ | ⟨a, ha, ⟨c, hc, hac⟩, b, hb, hfam⟩
    · refine ⟨b.path, (hnode _).mpr (Or.inr ⟨b, hb, List.prefix_rfl⟩), a, b, ?_, hself t2 hb, hfam⟩
      exact (t1.longestAround_iff b a).mp ha
    · refine ⟨a.path, (hnode _).mpr (Or.inr ⟨c, hc, (a.covers_iff c).mp hac⟩), a, b, hself t1 ha,
        ?_, hfam⟩
      exact (t2.longestAround_iff a b).mp hb

private theorem nested_of_unhidden {family : Family} {t1 t2 : NRadixTree}
    (h : Unhidden family t1 t2) : Nested family t1 t2 := by
  obtain ⟨b, hb, a, ⟨ha, hab, _⟩, hfam⟩ := h
  exact ⟨a, ha, b, hb, hfam, hab⟩

/-- Where one network contains another, the recursion meets such a pair; and where it meets
only a network inside of a longer one, some pair is nested nonetheless. -/
def SubsetExact (family : Family) (t1 t2 : NRadixTree) : Prop :=
  (Nested family t1 t2 → Unhidden family t1 t2 ∨ Enclosed family t1 t2) ∧
    (Enclosed family t1 t2 → Nested family t1 t2)

/-- The same for both directions of the comparison with the private networks. -/
def PrivateExact (family : Family) (known : NRadixTree) : Prop :=
  (Nested family known privateNetworksTree ∨ Nested family privateNetworksTree known →
    (Unhidden family known privateNetworksTree ∨ Enclosed family known privateNetworksTree) ∨
      Unhidden family privateNetworksTree known ∨ Enclosed family privateNetworksTree known) ∧
  (Enclosed family known privateNetworksTree ∨ Enclosed family privateNetworksTree known →
    Nested family known privateNetworksTree ∨ Nested family privateNetworksTree known)

/-- Trees of one family are compared as they should be. -/
theorem subsetExact_of_one_family (family f : Family) (t1 t2 : NRadixTree)
    (h1 : ∀ n ∈ t1.getAll, n.family = f) (h2 : ∀ n ∈ t2.getAll, n.family = f) :
    SubsetExact family t1 t2 := by
  have hfam {a b a' b' : IPNet} (ha : a.family = f) (hb : b.family = f) (ha' : a'.family = f)
      (hb' : b'.family = f) (hab : OfFamily family a b) : OfFamily family a' b' := by
    unfold OfFamily at hab ⊢
    rwa [ha', hb', ← ha, ← hb] at *
  constructor
  · intro hnested
    obtain ⟨a, ha, b, hb, hab, hcov⟩ := hnested
    have hsome : t1.root.find b.path none ≠ none := fun hnone => by
      have hget := (BitTrie.find_eq_none_iff _ _).mp hnone a.path ((a.covers_iff b).mp hcov)
      rw [t1.get?_path ha] at hget
      cases hget
    obtain ⟨a', ha'⟩ := Option.ne_none_iff_exists'.mp hsome
    have hlongest := (t1.longestAround_iff b a').mpr ha'
    refine Or.inl ⟨b, hb, a', hlongest, ?_⟩
    exact hfam (h1 a ha) (h2 b hb) (h1 a' hlongest.1) (h2 b hb) hab
  · intro henclosed
    obtain ⟨a, ha, ⟨c, hc, hac⟩, b, ⟨hb, _, _⟩, hab⟩ := henclosed
    exact ⟨a, ha, c, hc, hfam (h1 a ha) (h2 b hb) (h1 a ha) (h2 c hc) hab, hac⟩

private theorem knownPrivateNetworksExists_eq (t : ConnectionTracker)
    (known : AssocMap Family (List IPNet)) (family : Family)
    (hknown : (known.find? family).isSome) :
    (t.updateKnownIPNetworks known).knownPrivateNetworksExists.find? family =
      some (containsPrivateNetwork family (t.updateKnownIPNetworks known).knownIpNetworks) := by
  obtain ⟨networks, hnetworks⟩ := Option.isSome_iff_exists.mp hknown
  unfold ConnectionTracker.updateKnownIPNetworks
  dsimp only
  rw [AssocMap.find?_filterMap _ _ fun f g _ hfg => by rw [eq_of_beq hfg], hnetworks,
    Option.bind_some]

private theorem answer_iff {unhidden enclosed nested : Prop} (h : unhidden → nested) :
    (unhidden ∨ enclosed ↔ nested) ↔
      (nested → unhidden ∨ enclosed) ∧ (enclosed → nested) := by
  constructor
  · intro hiff
    exact ⟨hiff.mpr, fun he => hiff.mp (Or.inr he)⟩
  · intro hexact
    exact ⟨fun hor => hor.elim h hexact.2, hexact.1⟩

private theorem either_exact_iff (family : Family) (l1 l2 : List IPNet) :
    (((ofList l1).isAnyIPNetSubset family (ofList l2) ||
        (ofList l2).isAnyIPNetSubset family (ofList l1)) = true ↔
      Nested family (ofList l1) (ofList l2) ∨ Nested family (ofList l2) (ofList l1)) ↔
    (Nested family (ofList l1) (ofList l2) ∨ Nested family (ofList l2) (ofList l1) →
      (Unhidden family (ofList l1) (ofList l2) ∨ Enclosed family (ofList l1) (ofList l2)) ∨
        Unhidden family (ofList l2) (ofList l1) ∨ Enclosed family (ofList l2) (ofList l1)) ∧
    (Enclosed family (ofList l1) (ofList l2) ∨ Enclosed family (ofList l2) (ofList l1) →
      Nested family (ofList l1) (ofList l2) ∨ Nested family (ofList l2) (ofList l1)) := by
  rw [Bool.or_eq_true, isAnyIPNetSubset_iff, isAnyIPNetSubset_iff]
  rw [or_or_or_comm]
  exact answer_iff (Or.imp nested_of_unhidden nested_of_unhidden)

private theorem nestedLists_of_nested {family : Family} {l1 l2 : List IPNet}
    (h : Nested family (ofList l1) (ofList l2)) : NestedLists family l1 l2 := by
  obtain ⟨a, ha, b, hb, hab⟩ := h
  rw [mem_getAll_ofList] at ha hb
  exact ⟨a, List.mem_of_find?_eq_some ha, b, List.mem_of_find?_eq_some hb, hab⟩

/-- Networks that the trees accept are compared as they were passed. -/
private theorem nested_of_nestedLists {family : Family} {l1 l2 : List IPNet} (h1 : Storable l1)
    (h2 : Storable l2) (h : NestedLists family l1 l2) :
    Nested family (ofList l1) (ofList l2) := by
  obtain ⟨a, ha, b, hb, hfamily, hcovers⟩ := h
  obtain ⟨a', ha', hafamily, haprefix⟩ := ((hasExactly_ofList_iff fun _ => Iff.rfl).mpr h1).1 a ha
  obtain ⟨b', hb', hbfamily, hbprefix⟩ := ((hasExactly_ofList_iff fun _ => Iff.rfl).mpr h2).1 b hb
  refine ⟨a', ha', b', hb', ?_, ?_⟩
  · unfold OfFamily at hfamily ⊢
    rwa [← hafamily, ← hbfamily]
  · rw [IPNet.covers_iff, ← (a.samePrefix_iff a').mp haprefix, ← (b.samePrefix_iff b').mp hbprefix,
      ← IPNet.covers_iff]
    exact hcovers

/-- The subset query answers the question it stands for, and the flag for known private
networks says whether there are any, exactly when no network of the other family hides the
containing network, or takes the part of the contained one, on the shared paths. The question is
about the networks that the tree of the known ones has accepted: one that it refuses is not
seen, so that the networks as they were passed may be nested where the accepted ones are not. -/
theorem subset_query_exact_iff (l1 l2 : List IPNet) (family : Family) (t : ConnectionTracker)
    (known : AssocMap Family (List IPNet)) (hknown : (known.find? family).isSome) :
    (((ofList l1).isAnyIPNetSubset family (ofList l2) = true ↔
        Nested family (ofList l1) (ofList l2)) ↔ SubsetExact family (ofList l1) (ofList l2)) ∧
    (((t.updateKnownIPNetworks known).knownPrivateNetworksExists.find? family = some true ↔
        Nested family (t.updateKnownIPNetworks known).knownIpNetworks privateNetworksTree ∨
        Nested family privateNetworksTree (t.updateKnownIPNetworks known).knownIpNetworks) ↔
      PrivateExact family (t.updateKnownIPNetworks known).knownIpNetworks) ∧
    (Nested family (t.updateKnownIPNetworks known).knownIpNetworks privateNetworksTree ∨
        Nested family privateNetworksTree (t.updateKnownIPNetworks known).knownIpNetworks →
      NestedLists family (known.entries.flatMap Prod.snd) allPrivateNetworks ∨
        NestedLists family allPrivateNetworks (known.entries.flatMap Prod.snd)) ∧
    (Storable (known.entries.flatMap Prod.snd) →
      NestedLists family (known.entries.flatMap Prod.snd) allPrivateNetworks ∨
        NestedLists family allPrivateNetworks (known.entries.flatMap Prod.snd) →
      Nested family (t.updateKnownIPNetworks known).knownIpNetworks privateNetworksTree ∨
        Nested family privateNetworksTree (t.updateKnownIPNetworks known).knownIpNetworks) := by
  refine ⟨?_, ?_, ?_, ?_⟩
  · rw [isAnyIPNetSubset_iff]
    unfold SubsetExact
    exact answer_iff nested_of_unhidden
  · rw [knownPrivateNetworksExists_eq t known family hknown, Option.some.injEq]
    exact either_exact_iff family (known.entries.flatMap Prod.snd) allPrivateNetworks
  · exact Or.imp nestedLists_of_nested nestedLists_of_nested
  · intro hknown
    have hprivate : Storable allPrivateNetworks := by decide +kernel
    exact Or.imp (nested_of_nestedLists hknown hprivate) (nested_of_nestedLists hprivate hknown)

-- 0.0.0.0/0 contains every private network, and the tree refuses it
example : NestedLists .ipv4 [.new (.ofBytes 0 0 0 0) 0 false] allPrivateNetworks ∧
    ¬ Nested .ipv4 (ofList [.new (.ofBytes 0 0 0 0) 0 false]) privateNetworksTree := by
  decide +kernel

/-- 10.0.0.0/8 and, on the way from it to 10.0.1.0/24, the IPv6 network a00::/16. -/
def hidingNetworks : List IPNet :=
  [.new (.ofBytes 10 0 0 0) 8 false, .new (.ofIPv6 (htonll 0x0a00000000000000#64) 0) 16 false]

/-- 10.0.0.0/8 and, far below it on the same path, the IPv6 network a00::/24. -/
def enclosingNetworks : List IPNet :=
  [.new (.ofBytes 10 0 0 0) 8 false, .new (.ofIPv6 (htonll 0x0a00000000000000#64) 0) 24 false]

theorem subset_query_exact_hiding :
    ((ofList hidingNetworks).isAnyIPNetSubset .ipv4 (ofList [.new (.ofBytes 10 0 1 0) 24 false]) =
        true ↔
      Nested .ipv4 (ofList hidingNetworks) (ofList [.new (.ofBytes 10 0 1 0) 24 false])) ↔
    SubsetExact .ipv4 (ofList hidingNetworks) (ofList [.new (.ofBytes 10 0 1 0) 24 false]) :=
  (subset_query_exact_iff hidingNetworks [.new (.ofBytes 10 0 1 0) 24 false] .ipv4
    ConnectionTracker.empty
    ((∅ : AssocMap Family (List IPNet)).insert .ipv4 [.new (.ofBytes 10 0 0 0) 8 false])
    (by decide)).1

/-- 10.0.1.0/24 is inside of 10.0.0.0/8, but the IPv6 network between them hides that; and
10.0.0.0/16 contains no IPv4 network of the tree with 10.0.0.0/8, but the IPv6 network below
it makes the recursion go on until it has seen both. -/
theorem subset_query_fails :
    ((ofList hidingNetworks).isAnyIPNetSubset .ipv4 (ofList [.new (.ofBytes 10 0 1 0) 24 false]) =
        false ∧
      Nested .ipv4 (ofList hidingNetworks) (ofList [.new (.ofBytes 10 0 1 0) 24 false])) ∧
    ((ofList [.new (.ofBytes 10 0 0 0) 16 false]).isAnyIPNetSubset .ipv4
        (ofList enclosingNetworks) = true ∧
      ¬ Nested .ipv4 (ofList [.new (.ofBytes 10 0 0 0) 16 false]) (ofList enclosingNetworks)) := by
  decide +kernel

end NRadixTree

end AcsNext.Collector
