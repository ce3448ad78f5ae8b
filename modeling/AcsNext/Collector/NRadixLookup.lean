import AcsNext.Collector.NRadixObjects

/-! Longest-prefix match on a tree of networks in memory, and its agreement with the
containment test of a single network. -/
namespace AcsNext.Collector
open AcsNext.Data

namespace TreeObject

variable {h : TrieHeap IPNet} {o : TreeObject} {S : Finset ℕ}

/-- The networks accepted out of a list are the first ones of each prefix. -/
private theorem mem_accepted_iff (hown : Owns h o S) {networks : List IPNet}
    (hpos : ∀ n ∈ networks, 1 ≤ n.bits)
    (hlist : NRadixTree.ofList o.accepted = NRadixTree.ofList networks) (n : IPNet) :
    n ∈ o.accepted ↔ networks.find? (fun m => decide (m.SamePrefix n)) = some n := by
  have hget : (NRadixTree.ofList networks).root.get? n.path =
      networks.find? fun m => decide (m.SamePrefix n) := by
    rw [NRadixTree.get?_ofList]
    refine List.find?_congr fun m hm => ?_
    have hm := hpos m hm
    simp [Nat.pos_of_ne_zero (by omega : m.bits ≠ 0), IPNet.samePrefix_iff]
  rw [← (NRadixTree.getAll_ofList_perm hown.admitted).mem_iff, hlist, ← hget, NRadixTree.getAll,
    BitTrie.mem_toList]
  constructor
  · intro he
    obtain ⟨p, hp⟩ := he
    obtain ⟨rfl, _⟩ := (NRadixTree.ofList networks).stored p n hp
    exact hp
  · exact fun hp => ⟨n.path, hp⟩

/-- What a search in a tree of one family returns, in terms of the accepted networks. -/
structure IsLongestMatch (o : TreeObject) (q ret : IPNet) : Prop where
  null_iff : ret = .null ↔ ∀ n ∈ o.accepted, ¬ n.Covers q
  longest : ret ≠ .null → ret ∈ o.accepted ∧ ret.Covers q ∧
    ∀ n ∈ o.accepted, n.Covers q → n ≠ ret → n.bits < ret.bits

theorem ne_null_of_pos {n : IPNet} (hn : 0 < n.bits) : n ≠ .null := by
  intro hnull
  rw [hnull] at hn
  simp [IPNet.null, IPNet.new] at hn

theorem samePrefix_of_covers {m n q : IPNet} (hm : m.Covers q) (hn : n.Covers q)
    (hb : m.bits = n.bits) : m.SamePrefix n :=
  ⟨hb, fun i hi => (hm.2 i hi).trans (hn.2 i (hb ▸ hi)).symm⟩

private theorem find?_samePrefix_congr (l : List IPNet) {m n : IPNet} (hmn : m.SamePrefix n) :
    l.find? (fun x => decide (x.SamePrefix m)) = l.find? fun x => decide (x.SamePrefix n) := by
  simp only [IPNet.samePrefix_iff, (m.samePrefix_iff n).mp hmn]

private theorem isLongestMatch_find (hown : Owns h o S) {f : Family}
    (hf : ∀ n ∈ o.accepted, n.family = f) (q : IPNet) (hqf : q.family = f) (hq : 1 ≤ q.bits) :
    o.IsLongestMatch q ((NRadixTree.ofList o.accepted).find q) := by
  have hpos := hown.admitted.pos
  rw [NRadixTree.find_of_pos _ q (by omega)]
  cases hr : (NRadixTree.ofList o.accepted).root.find q.path none with
  | none =>
    have hnone := (NRadixTree.find_ofList_eq_none_iff _ hpos q).mp hr
    exact ⟨⟨fun _ => hnone, fun _ => rfl⟩, fun hne => absurd rfl hne⟩
  | some n =>
    obtain ⟨hfirst, hcov, hmax⟩ := (NRadixTree.find_ofList_eq_some_iff _ hpos q n).mp hr
    have hmem := List.mem_of_find?_eq_some hfirst
    have hfam : q.family = n.family := by rw [hqf, hf n hmem]
    simp only [hfam, if_true]
    refine ⟨⟨fun hnull => ?_, fun hnone => absurd hcov (hnone n hmem)⟩, fun _ => ⟨hmem, hcov, ?_⟩⟩
    · exact absurd hnull (ne_null_of_pos (hpos n hmem))
    · intro m hm hmq hne
      refine lt_of_le_of_ne (hmax m hm hmq) fun hb => hne ?_
      have hsame := hown.admitted.find?_eq hm
      rw [find?_samePrefix_congr _ (samePrefix_of_covers hmq hcov hb), hfirst] at hsame
      exact (Option.some.inj hsame).symm

/-- Another order of the insertions can only change which network of a prefix is returned. -/
private theorem find_perm {networks networks' : List IPNet} (hperm : networks'.Perm networks)
    (hpos : ∀ n ∈ networks, 0 < n.bits) {f : Family} (hf : ∀ n ∈ networks, n.family = f)
    (q : IPNet) (hqf : q.family = f) (hq : 1 ≤ q.bits) {ret ret' : IPNet}
    (hret : (NRadixTree.ofList networks).find q = ret)
    (hret' : (NRadixTree.ofList networks').find q = ret') :
    ret'.SamePrefix ret ∧
      (networks'.find? (fun m => decide (m.SamePrefix ret)) =
        networks.find? (fun m => decide (m.SamePrefix ret)) → ret' = ret) := by
  have hpos' : ∀ n ∈ networks', 0 < n.bits := fun n hn => hpos n (hperm.mem_iff.mp hn)
  rw [NRadixTree.find_of_pos _ q (by omega)] at hret hret'
  cases hr : (NRadixTree.ofList networks).root.find q.path none with
  | none =>
    have hnone := (NRadixTree.find_ofList_eq_none_iff _ hpos q).mp hr
    have hr' := (NRadixTree.find_ofList_eq_none_iff _ hpos' q).mpr
      fun n hn => hnone n (hperm.mem_iff.mp hn)
    rw [hr] at hret
    rw [hr'] at hret'
    rw [← hret, ← hret']
    exact ⟨⟨rfl, fun _ _ => rfl⟩, fun _ => rfl⟩
  | some n =>
    obtain ⟨hfirst, hcov, hmax⟩ := (NRadixTree.find_ofList_eq_some_iff _ hpos q n).mp hr
    have hmem := List.mem_of_find?_eq_some hfirst
    cases hr' : (NRadixTree.ofList networks').root.find q.path none with
    | none =>
      have hnone := (NRadixTree.find_ofList_eq_none_iff _ hpos' q).mp hr'
      exact absurd hcov (hnone n (hperm.mem_iff.mpr hmem))
    | some n' =>
      obtain ⟨hfirst', hcov', hmax'⟩ := (NRadixTree.find_ofList_eq_some_iff _ hpos' q n').mp hr'
      have hmem' := hperm.mem_iff.mp (List.mem_of_find?_eq_some hfirst')
      have hfam : q.family = n.family := by rw [hqf, hf n hmem]
      have hfam' : q.family = n'.family := by rw [hqf, hf n' hmem']
      simp only [hr, hfam, if_true] at hret
      simp only [hr', hfam', if_true] at hret'
      subst hret hret'
      have hb : n'.bits = n.bits :=
        le_antisymm (hmax n' hmem' hcov') (hmax' n (hperm.mem_iff.mpr hmem) hcov)
      have hsame := samePrefix_of_covers hcov' hcov hb
      refine ⟨hsame, fun hfind => ?_⟩
      rw [← find?_samePrefix_congr _ hsame, hfirst', hfirst] at hfind
      exact Option.some.inj hfind

private theorem exists_find (h : TrieHeap IPNet) (networks : List IPNet)
    (hpos : ∀ n ∈ networks, 1 ≤ n.bits) (q : IPNet) :
    ∃ h' o S, construct h networks = some (h', o) ∧ Owns h' o S ∧
      NRadixHeap.find h' o.root q = some ((NRadixTree.ofList networks).find q) ∧
      NRadixTree.ofList o.accepted = NRadixTree.ofList networks ∧
      ∀ n, n ∈ o.accepted ↔ networks.find? (fun m => decide (m.SamePrefix n)) = some n := by
  obtain ⟨h', o, S, hrun, hown, _, hlist⟩ := construct_owns h networks
  have hfind := NRadixHeap.find_holds hown.holds q
  rw [hlist] at hfind
  exact ⟨h', o, S, hrun, hown, hfind, hlist, mem_accepted_iff hown hpos hlist⟩

/-- Longest-prefix match. A tree built from networks of one family accepts the first network
of each prefix, and `Find` returns the longest accepted network around the query, or null if
there is none. Built in another order, the tree returns a network with the same prefix, and
the same one if that was inserted before the others of its prefix. -/
theorem find_longest_prefix (h : TrieHeap IPNet) (f : Family) (networks : List IPNet)
    (hf : ∀ n ∈ networks, n.family = f) (hpos : ∀ n ∈ networks, 1 ≤ n.bits) (q : IPNet)
    (hqf : q.family = f) (hq : 1 ≤ q.bits) :
    ∃ h' o ret, construct h networks = some (h', o) ∧ NRadixHeap.find h' o.root q = some ret ∧
      (∀ n, n ∈ o.accepted ↔ networks.find? (fun m => decide (m.SamePrefix n)) = some n) ∧
      (ret = .null ↔ ∀ n ∈ o.accepted, ¬ n.Covers q) ∧
      (ret ≠ .null → ret ∈ o.accepted ∧ ret.Covers q ∧
        ∀ n ∈ o.accepted, n.Covers q → n ≠ ret → n.bits < ret.bits) ∧
      ∀ networks' : List IPNet, networks'.Perm networks →
        ∃ h'' o' ret', construct h networks' = some (h'', o') ∧
          NRadixHeap.find h'' o'.root q = some ret' ∧ ret'.SamePrefix ret ∧
          (networks'.find? (fun m => decide (m.SamePrefix ret)) =
            networks.find? (fun m => decide (m.SamePrefix ret)) → ret' = ret) := by
  obtain ⟨h', o, S, hrun, hown, hfind, hlist, hacc⟩ := exists_find h networks hpos q
  have hfacc : ∀ n ∈ o.accepted, n.family = f := fun n hn =>
    hf n (List.mem_of_find?_eq_some ((hacc n).mp hn))
  have hlongest := isLongestMatch_find hown hfacc q hqf hq
  rw [hlist] at hlongest
  refine ⟨h', o, _, hrun, hfind, hacc, hlongest.null_iff, hlongest.longest, fun networks' hperm => ?_⟩
  obtain ⟨h'', o', S', hrun', _, hfind', _, _⟩ :=
    exists_find h networks' (fun n hn => hpos n (hperm.mem_iff.mp hn)) q
  obtain ⟨hsame, heq⟩ := find_perm hperm (fun n hn => hpos n hn) hf q hqf hq rfl rfl
  exact ⟨h'', o', _, hrun', hfind', hsame, heq⟩

theorem find_longest_prefix_nested :
    ∃ h' o ret, construct .init [.new (.ofBytes 10 0 0 0) 8 false, .new (.ofBytes 10 1 0 0) 16 false] =
        some (h', o) ∧
      NRadixHeap.find h' o.root (.ofAddress (.ofBytes 10 1 2 3)) = some ret ∧
      (ret = .null ↔ ∀ n ∈ o.accepted, ¬ n.Covers (.ofAddress (.ofBytes 10 1 2 3))) := by
  obtain ⟨h', o, ret, hrun, hfind, _, hnull, _⟩ := find_longest_prefix .init .ipv4
    [.new (.ofBytes 10 0 0 0) 8 false, .new (.ofBytes 10 1 0 0) 16 false] (by decide) (by decide)
    (.ofAddress (.ofBytes 10 1 2 3)) rfl (by decide)
  exact ⟨h', o, ret, hrun, hfind, hnull⟩

end TreeObject

theorem ntohll_ntohll (x : BitVec 64) : ntohll (ntohll x) = x := by
  apply BitVec.eq_of_getLsbD_eq
  intro i hi
  unfold ntohll
  rw [getLsbD_htonll _ i hi, getLsbD_htonll _ _ (by omega)]
  congr 1
  omega

theorem and_lastMask_eq_iff (x y : BitVec 64) (k : ℕ) (hk : k ≤ 64) :
    (x &&& lastMask k) = (y &&& lastMask k) ↔ ∀ i < k, x.getMsbD i = y.getMsbD i := by
  constructor
  · intro heq i hi
    have hbit := congrArg (fun z => z.getMsbD i) heq
    simpa [BitVec.getMsbD_and, getMsbD_lastMask k i (by omega), hi] using hbit
  · intro hbits
    apply BitVec.eq_of_getMsbD_eq
    intro i hi
    rw [BitVec.getMsbD_and, BitVec.getMsbD_and, getMsbD_lastMask k i hi]
    by_cases hik : i < k
    · rw [hbits i hik]
    · simp [hik]

private theorem word_eq_iff (x y : BitVec 64) :
    x = y ↔ ∀ i < 64, (ntohll x).getMsbD i = (ntohll y).getMsbD i := by
  constructor
  · intro heq i _
    rw [heq]
  · intro hbits
    have hswap : ntohll x = ntohll y := BitVec.eq_of_getMsbD_eq fun i hi => hbits i hi
    rw [← ntohll_ntohll x, hswap, ntohll_ntohll]

/-- The first `64 + k` bits are the first word and `k` bits of the second. -/
private theorem forall_bit_iff (a x : Address) (k : ℕ) :
    (∀ i < 64 + k, a.bit i = x.bit i) ↔ a.data.w0 = x.data.w0 ∧
      ∀ i < k, (ntohll a.data.w1).getMsbD i = (ntohll x.data.w1).getMsbD i := by
  rw [word_eq_iff]
  constructor
  · intro hbits
    refine ⟨fun i hi => ?_, fun i hi => ?_⟩
    · simpa [Address.bit, hi] using hbits i (by omega)
    · simpa [Address.bit] using hbits (64 + i) (by omega)
  · intro hbits i hi
    obtain ⟨hfirst, hsecond⟩ := hbits
    unfold Address.bit
    split_ifs with h64
    · exact hfirst i h64
    · exact hsecond (i - 64) (by omega)

/-- `Contains` compares exactly the bits of the prefix. -/
theorem IPNet.contains_iff (n : IPNet) (x : Address) (hf : x.family = n.family) :
    n.contains x = true ↔ ∀ i < n.bits, x.bit i = n.address.bit i := by
  have hb := n.bits_le_128
  unfold IPNet.contains
  rw [if_neg (by simpa using hf), n.mask_eq]
  unfold maskOf
  by_cases h128 : 128 ≤ n.bits
  · have hbits : n.bits = 64 + 64 := by omega
    rw [if_pos h128, if_pos h128, hbits, forall_bit_iff, ← word_eq_iff]
    simp only [Bool.and_eq_true, beq_iff_eq]
  · by_cases h64 : 64 ≤ n.bits
    · have hbits : n.bits = 64 + (n.bits - 64) := by omega
      rw [if_neg h128, if_neg h128, if_pos h64, if_pos h64]
      conv_rhs => rw [hbits, forall_bit_iff]
      by_cases h0 : n.bits - 64 = 0
      · simp [h0]
      · have hpos : 0 < n.bits - 64 := by omega
        rw [if_pos hpos, ← and_lastMask_eq_iff _ _ _ (by omega)]
        simp only [h0, beq_false_of_ne, ne_eq, not_false_iff, Bool.false_or, Bool.and_eq_true,
          beq_iff_eq]
    · rw [if_neg h128, if_neg h128, if_neg h64, if_neg h64]
      have hbit (i : ℕ) (hi : i < n.bits) : x.bit i = n.address.bit i ↔
          (ntohll x.data.w0).getMsbD i = (ntohll n.address.data.w0).getMsbD i := by
        have hi64 : i < 64 := by omega
        simp [Address.bit, hi64]
      rw [forall₂_congr hbit]
      by_cases h0 : n.bits = 0
      · simp [h0]
      · have hpos : 0 < n.bits := by omega
        rw [if_pos hpos, ← and_lastMask_eq_iff _ _ _ (by omega)]
        simp only [h0, beq_false_of_ne, ne_eq, not_false_iff, Bool.false_or, beq_iff_eq]

theorem covers_ofAddress_iff (n : IPNet) (x : Address) (hf : x.family = n.family) :
    n.Covers (.ofAddress x) ↔ n.contains x = true := by
  have hle : n.bits ≤ (IPNet.ofAddress x).bits := by
    rw [IPNet.bits_ofAddress, Address.length, hf]
    exact n.bits_le
  rw [n.contains_iff x hf]
  constructor
  · exact fun hcov i hi => (hcov.2 i hi).symm
  · exact fun hbits => ⟨hle, fun i hi => (hbits i hi).symm⟩

/-- The tree of one network finds it exactly around the addresses that it contains. -/
private theorem find_singleton (n : IPNet) (hn : 0 < n.bits) (x : Address)
    (hf : x.family = n.family) :
    (NRadixTree.ofList [n]).findAddress x = n ↔ n.contains x = true := by
  have hpos : ∀ m ∈ [n], 0 < m.bits := by simpa using hn
  have hx : 0 < (IPNet.ofAddress x).bits := by
    have hle := n.bits_le
    rw [IPNet.bits_ofAddress, Address.length, hf]
    exact lt_of_lt_of_le hn hle
  rw [← covers_ofAddress_iff n x hf, NRadixTree.findAddress, NRadixTree.find_of_pos _ _ hx]
  cases hr : (NRadixTree.ofList [n]).root.find (IPNet.ofAddress x).path none with
  | none =>
    have hnone := (NRadixTree.find_ofList_eq_none_iff _ hpos _).mp hr n (List.mem_singleton_self n)
    exact ⟨fun hnull => absurd hnull.symm (TreeObject.ne_null_of_pos hn), fun h => absurd h hnone⟩
  | some m =>
    obtain ⟨hfirst, hcov, _⟩ := (NRadixTree.find_ofList_eq_some_iff _ hpos _ m).mp hr
    obtain rfl : m = n := List.mem_singleton.mp (List.mem_of_find?_eq_some hfirst)
    have hfam : (IPNet.ofAddress x).family = m.family := hf
    simp only [hfam, if_true, true_iff]
    exact hcov

private theorem new_eq_null {a : Address} (ha : a.length = 0) {b : ℕ} :
    IPNet.new a b false = .null := by
  have hunknown : a.family = .unknown := by
    unfold Address.length Family.length at ha
    split at ha <;> simp_all
  have hnull : a = .null := by
    rw [Address.eq_iff]
    refine ⟨hunknown, ?_⟩
    have hpad := a.padded
    rw [hunknown] at hpad
    exact hpad
  subst hnull
  rw [IPNet.eq_iff]
  refine ⟨rfl, ?_, rfl⟩
  simp only [IPNet.null, IPNet.new, ha, Nat.mul_zero]
  split_ifs <;> omega

/-- `IPNet(a, b)` contains an address of its family exactly when the two agree on the first
`b` bits, clamped to the address length, and exactly when the tree that holds just this
network finds it; it contains no address of the other family. -/
theorem contains_agrees_with_find (h : TrieHeap IPNet) (a : Address) (b : ℕ) (hb : 1 ≤ b)
    (x : Address) :
    ∃ h' o ret, TreeObject.construct h [.new a b false] = some (h', o) ∧
      NRadixHeap.findAddress h' o.root x = some ret ∧
      (x.family = a.family →
        ((IPNet.new a b false).contains x = true ↔
          ∀ i < min b (8 * a.length), a.bit i = x.bit i) ∧
        ((IPNet.new a b false).contains x = true ↔ ret = .new a b false)) ∧
      (x.family ≠ a.family → (IPNet.new a b false).contains x = false) := by
  obtain ⟨h', o, S, hrun, hown, _, hlist⟩ := TreeObject.construct_owns h [.new a b false]
  have hfind := NRadixHeap.find_holds hown.holds (.ofAddress x)
  rw [hlist] at hfind
  have hbits : (IPNet.new a b false).bits = min b (8 * a.length) := by
    simp only [IPNet.new]
    split_ifs <;> omega
  refine ⟨h', o, _, hrun, hfind, fun hf => ⟨?_, ?_⟩, fun hf => ?_⟩
  · rw [(IPNet.new a b false).contains_iff x hf, hbits]
    exact forall₂_congr fun i _ => eq_comm
  · by_cases hlen : a.length = 0
    · -- only the null address has no bits, and its network is the null network
      have hnull : IPNet.new a b false = .null := new_eq_null hlen
      have hzero : (IPNet.ofAddress x).bits = 0 := by
        rw [IPNet.bits_ofAddress, Address.length, hf, ← Address.length, hlen]
      rw [NRadixTree.find_of_zero _ _ hzero, hnull, (IPNet.null).contains_iff x ?_]
      · simp [IPNet.null, IPNet.new]
      · rw [← hnull]
        exact hf
    · rw [← find_singleton (IPNet.new a b false) (by omega) x hf]
      rfl
  · have hfam : x.family ≠ (IPNet.new a b false).family := hf
    simp [IPNet.contains, hfam]

/-- At the word boundary: fd00::/65 and an address that differs from it in bit 64 only. -/
theorem contains_agrees_with_find_word_boundary :
    ∃ h' o ret,
      TreeObject.construct .init [.new (.ofIPv6 (htonll 0xfd00000000000000#64) 0) 65 false] =
        some (h', o) ∧
      NRadixHeap.findAddress h' o.root
        (.ofIPv6 (htonll 0xfd00000000000000#64) (htonll 0x8000000000000000#64)) = some ret ∧
      ret ≠ .new (.ofIPv6 (htonll 0xfd00000000000000#64) 0) 65 false := by
  obtain ⟨h', o, ret, hrun, hfind, hfam, _⟩ := contains_agrees_with_find .init
    (.ofIPv6 (htonll 0xfd00000000000000#64) 0) 65 (by decide)
    (.ofIPv6 (htonll 0xfd00000000000000#64) (htonll 0x8000000000000000#64))
  refine ⟨h', o, ret, hrun, hfind, fun hret => ?_⟩
  have hcontains := (hfam rfl).2.mpr hret
  revert hcontains
  decide

end AcsNext.Collector
