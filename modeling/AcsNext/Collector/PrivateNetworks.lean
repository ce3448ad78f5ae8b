import AcsNext.Collector.NRadixLookup
import AcsNext.Collector.ProcfsScraper

/-! Private and loopback addresses: an address and its mapped form, and the test of the networks
of a family against the search in the tree of all of them. -/
namespace AcsNext.Collector
open AcsNext.Data

theorem family_toV6 {a : Address} (hf : a.family = .ipv4) : a.toV6.family = .ipv6 := by
  simp [Address.toV6, hf, Address.ofIPv6]

/-- A mapped address has 80 zeros, 16 ones and then the bits of the address. -/
theorem bit_toV6 {a : Address} (hf : a.family = .ipv4) {i : ℕ} (hi : i < 128) :
    a.toV6.bit i = if i < 96 then decide (80 ≤ i) else a.bit (i - 96) := by
  have hlow : a.toV6 =
      .ofIPv6 0 (htonll (0x0000ffff00000000#64 ||| (ntohll a.data.w0 >>> 32))) := by
    simp [Address.toV6, hf]
  rw [hlow]
  unfold Address.bit
  by_cases h64 : i < 64
  · have hzero : (ntohll (0 : BitVec 64)).getMsbD i = false := by
      have hswap : ntohll (0 : BitVec 64) = 0 := by decide
      rw [hswap]
      exact BitVec.getMsbD_zero
    have h80 : ¬ 80 ≤ i := by omega
    simp only [Address.ofIPv6, h64, if_true, hzero, h80, decide_false]
    rw [if_pos (by omega)]
  · have hswap : ntohll (htonll (0x0000ffff00000000#64 ||| (ntohll a.data.w0 >>> 32))) =
        0x0000ffff00000000#64 ||| (ntohll a.data.w0 >>> 32) := ntohll_ntohll _
    have hones : ∀ j < 64, (0x0000ffff00000000#64).getMsbD j = decide (16 ≤ j ∧ j < 32) := by
      decide
    have hj := hones (i - 64) (by omega)
    simp only [Address.ofIPv6, h64, if_false, hswap, BitVec.getMsbD_or, BitVec.getMsbD_ushiftRight,
      hj]
    by_cases h96 : i < 96
    · have hleft : i - 64 < 32 := by omega
      have hbound : 16 ≤ i - 64 ↔ 80 ≤ i := by omega
      simp [h96, hleft, hbound]
    · have hright : ¬ i - 64 < 32 := by omega
      have hlow64 : i - 96 < 64 := by omega
      have hindex : i - 64 - 32 = i - 96 := by omega
      have hin : i - 64 < 64 := by omega
      simp [h96, hright, hlow64, hindex, hin]

/-- A network and its mapped form contain an address and its mapped form alike. -/
theorem contains_toV6 {net : IPNet} (hnet : net.family = .ipv4) {a : Address}
    (hf : a.family = .ipv4) :
    (IPNet.new net.address.toV6 (net.bits + 96) false).contains a.toV6 = net.contains a := by
  have hbits : net.bits ≤ 32 := by
    have hle := net.bits_le
    rw [Address.length, show net.address.family = .ipv4 from hnet] at hle
    exact hle
  have hv6 := family_toV6 hnet
  have hsame : a.toV6.family = (IPNet.new net.address.toV6 (net.bits + 96) false).family :=
    (family_toV6 hf).trans hv6.symm
  have hmapped : (IPNet.new net.address.toV6 (net.bits + 96) false).bits = net.bits + 96 := by
    refine IPNet.bits_new _ _ _ ?_
    rw [Address.length, hv6]
    change net.bits + 96 ≤ 128
    omega
  rw [Bool.eq_iff_iff, IPNet.contains_iff _ _ hsame, IPNet.contains_iff net a (hf.trans hnet.symm), hmapped, IPNet.address_new]
  constructor
  · intro h i hi
    have hbit := h (i + 96) (by omega)
    rw [bit_toV6 hf (by omega), bit_toV6 hnet (by omega), if_neg (by omega), if_neg (by omega),
      Nat.add_sub_cancel] at hbit
    exact hbit
  · intro h i hi
    rw [bit_toV6 hf (by omega), bit_toV6 hnet (by omega)]
    split_ifs with h96
    · rfl
    · exact h (i - 96) (by omega)

theorem family_of_mem_privateIPv4Networks :
    ∀ net ∈ privateIPv4Networks, net.family = .ipv4 := by decide

/-- No mapped address is in the ULA network. -/
theorem ula_not_contains_toV6 {a : Address} (hf : a.family = .ipv4) :
    (IPNet.new (.ofIPv6 (htonll 0xfd00000000000000#64) 0) 8 false).contains a.toV6 = false := by
  rw [Bool.eq_false_iff, ne_eq, IPNet.contains_iff _ _ (family_toV6 hf)]
  intro h
  have hbit := h 0 (by decide)
  rw [bit_toV6 hf (by decide), if_pos (by decide)] at hbit
  exact absurd hbit (by decide)

theorem isPublic_toV6 {a : Address} (hf : a.family = .ipv4) : a.toV6.isPublic = a.isPublic := by
  unfold Address.isPublic
  rw [family_toV6 hf, hf]
  change (privateIPv6Networks.all _) = privateIPv4Networks.all _
  rw [privateIPv6Networks, List.all_cons, ula_not_contains_toV6 hf, Bool.not_false, Bool.true_and,
    List.all_map, Bool.eq_iff_iff, List.all_eq_true, List.all_eq_true]
  refine forall₂_congr fun net hnet => ?_
  rw [Function.comp_apply, contains_toV6 (family_of_mem_privateIPv4Networks net hnet) hf]

/-- Masks can be compared in either byte order. -/
theorem and_htonll_eq_iff (x m c : BitVec 64) :
    x &&& htonll m = htonll c ↔ ntohll x &&& m = c := by
  have hand : ∀ y z : BitVec 64, ntohll (y &&& z) = ntohll y &&& ntohll z := by
    intro y z
    apply BitVec.eq_of_getLsbD_eq
    intro i hi
    unfold ntohll
    rw [BitVec.getLsbD_and, getLsbD_htonll _ i hi, getLsbD_htonll _ i hi, getLsbD_htonll _ i hi,
      BitVec.getLsbD_and]
  constructor
  · intro h
    have hswap := congrArg ntohll h
    rw [hand, show ntohll (htonll m) = m from ntohll_ntohll m,
      show ntohll (htonll c) = c from ntohll_ntohll c] at hswap
    exact hswap
  · intro h
    rw [← h]
    change _ = ntohll _
    rw [hand, ntohll_ntohll]
    rfl

/-- The second word of a mapped address. -/
theorem getMsbD_toV6 {a : Address} (hf : a.family = .ipv4) {i : ℕ} (hi : i < 64) :
    (ntohll a.toV6.data.w1).getMsbD i =
      if i < 32 then decide (16 ≤ i) else (ntohll a.data.w0).getMsbD (i - 32) := by
  have hbit := bit_toV6 hf (show 64 + i < 128 by omega)
  have hlow : a.toV6.bit (64 + i) = (ntohll a.toV6.data.w1).getMsbD i := by
    simp [Address.bit]
  rw [← hlow, hbit]
  by_cases h32 : i < 32
  · have h16 : 80 ≤ 64 + i ↔ 16 ≤ i := by omega
    rw [if_pos (by omega), if_pos h32, decide_eq_decide.mpr h16]
  · have hindex : 64 + i - 96 = i - 32 := by omega
    have h64 : i - 32 < 64 := by omega
    rw [if_neg (by omega), if_neg h32, hindex, Address.bit, if_pos h64]

theorem isLocal_ipv4_iff {a : Address} (hf : a.family = .ipv4) :
    a.isLocal = true ↔
      ∀ i < 8, (ntohll a.data.w0).getMsbD i = (0x7f00000000000000#64).getMsbD i := by
  have hmask : (0xff00000000000000#64) = lastMask 8 := by decide
  have hvalue : (0x7f00000000000000#64) = 0x7f00000000000000#64 &&& lastMask 8 := by decide
  simp only [Address.isLocal, hf, beq_iff_eq, and_htonll_eq_iff]
  rw [hmask]
  nth_rewrite 1 [hvalue]
  exact and_lastMask_eq_iff _ _ _ (by decide)

/-- An address of the other family is local if it is `::1` or a mapped local address. -/
theorem isLocal_ipv6_iff {a : Address} (hf : a.family = .ipv6) :
    a.isLocal = true ↔ a.data.w0 = 0 ∧ (ntohll a.data.w1 = 1#64 ∨
      ∀ i < 40, (ntohll a.data.w1).getMsbD i = (0x0000ffff7f000000#64).getMsbD i) := by
  have hmask : (0xffffffffff000000#64) = lastMask 40 := by decide
  have hvalue : (0x0000ffff7f000000#64) = 0x0000ffff7f000000#64 &&& lastMask 40 := by decide
  have hone : a.data.w1 = htonll 1#64 ↔ ntohll a.data.w1 = 1#64 := by
    constructor
    · intro h
      rw [h]
      exact ntohll_ntohll _
    · intro h
      rw [← h]
      exact (ntohll_ntohll _).symm
  simp only [Address.isLocal, hf, Bool.and_eq_true, Bool.or_eq_true, beq_iff_eq,
    and_htonll_eq_iff, hone]
  rw [hmask]
  nth_rewrite 1 [hvalue]
  rw [and_lastMask_eq_iff _ _ _ (by decide)]

theorem isLocal_toV6 {a : Address} (hf : a.family = .ipv4) : a.toV6.isLocal = a.isLocal := by
  have hhigh : a.toV6.data.w0 = 0 := by simp [Address.toV6, hf, Address.ofIPv6]
  have hmapped : ∀ i < 40, i < 32 → (0x0000ffff7f000000#64).getMsbD i = decide (16 ≤ i) := by
    decide
  have hloop : ∀ i < 8, (0x0000ffff7f000000#64).getMsbD (i + 32) =
      (0x7f00000000000000#64).getMsbD i := by decide
  rw [Bool.eq_iff_iff, isLocal_ipv6_iff (family_toV6 hf), isLocal_ipv4_iff hf]
  constructor
  · rintro ⟨_, hone | hlocal⟩
    · -- the mark of a mapped address is not in `::1`
      have hmark := getMsbD_toV6 hf (show 16 < 64 by decide)
      rw [hone] at hmark
      exact absurd hmark (by simp)
    · intro i hi
      have hbit := hlocal (i + 32) (by omega)
      rw [getMsbD_toV6 hf (by omega), if_neg (by omega), Nat.add_sub_cancel, hloop i hi] at hbit
      exact hbit
  · intro hlocal
    refine ⟨hhigh, .inr fun i hi => ?_⟩
    rw [getMsbD_toV6 hf (by omega)]
    split_ifs with h32
    · exact (hmapped i hi h32).symm
    · have hbit := hloop (i - 32) (by omega)
      rw [Nat.sub_add_cancel (by omega)] at hbit
      rw [hbit]
      exact hlocal (i - 32) (by omega)

theorem families_differ : ∀ m ∈ allPrivateNetworks, ∀ n ∈ allPrivateNetworks,
    m.family ≠ n.family → ∃ i < 8, m.address.bit i ≠ n.address.bit i := by
  decide +kernel

theorem eight_le_bits : ∀ n ∈ allPrivateNetworks, 8 ≤ n.bits := by decide

theorem mem_privateNetworks_iff (family : Family) (n : IPNet) :
    n ∈ privateNetworks family ↔ n ∈ allPrivateNetworks ∧ n.family = family := by
  have hv4 := family_of_mem_privateIPv4Networks n
  have hv6 : n ∈ privateIPv6Networks → n.family = .ipv6 := by
    have hall : ∀ n ∈ privateIPv6Networks, n.family = .ipv6 := by decide
    exact hall n
  rw [allPrivateNetworks, List.mem_append]
  cases family with
  | unknown =>
    refine ⟨fun h => by simp [privateNetworks] at h, ?_⟩
    rintro ⟨h | h, hfamily⟩
    · exact absurd ((hv4 h).symm.trans hfamily) (by decide)
    · exact absurd ((hv6 h).symm.trans hfamily) (by decide)
  | ipv4 =>
    refine ⟨fun h => ⟨.inl h, hv4 h⟩, ?_⟩
    rintro ⟨h | h, hfamily⟩
    · exact h
    · exact absurd ((hv6 h).symm.trans hfamily) (by decide)
  | ipv6 =>
    refine ⟨fun h => ⟨.inr h, hv6 h⟩, ?_⟩
    rintro ⟨h | h, hfamily⟩
    · exact absurd ((hv4 h).symm.trans hfamily) (by decide)
    · exact h

/-- No network of one family hides one of the other from an address. -/
theorem family_eq_of_covers {m n q : IPNet} (hm : m ∈ allPrivateNetworks)
    (hn : n ∈ allPrivateNetworks) (hmq : m.Covers q) (hnq : n.Covers q) : m.family = n.family := by
  by_contra hne
  obtain ⟨i, hi, hbit⟩ := families_differ m hm n hn hne
  have hm8 := eight_le_bits m hm
  have hn8 := eight_le_bits n hn
  exact hbit ((hmq.2 i (by omega)).trans (hnq.2 i (by omega)).symm)

theorem isPublic_eq_false_iff (x : Address) : x.isPublic = false ↔
    ∃ n ∈ allPrivateNetworks, n.family = x.family ∧ n.Covers (.ofAddress x) := by
  unfold Address.isPublic
  rw [List.all_eq_false]
  constructor
  · rintro ⟨n, hn, hcontains⟩
    obtain ⟨hall, hfamily⟩ := (mem_privateNetworks_iff x.family n).mp hn
    refine ⟨n, hall, hfamily, (covers_ofAddress_iff n x hfamily.symm).mpr ?_⟩
    simpa using hcontains
  · rintro ⟨n, hall, hfamily, hcovers⟩
    refine ⟨n, (mem_privateNetworks_iff x.family n).mpr ⟨hall, hfamily⟩, ?_⟩
    simpa using (covers_ofAddress_iff n x hfamily.symm).mp hcovers

theorem isNull_of_pos {n : IPNet} (hn : 0 < n.bits) : n.isNull = false := by
  simp [IPNet.isNull, hn.ne']

theorem isNull_findAddress_eq_false_iff (x : Address) :
    ((NRadixTree.ofList allPrivateNetworks).findAddress x).isNull = false ↔
      ∃ n ∈ allPrivateNetworks, n.family = x.family ∧ n.Covers (.ofAddress x) := by
  have hpos : ∀ n ∈ allPrivateNetworks, 0 < n.bits := fun n hn => by
    have h8 := eight_le_bits n hn
    omega
  have hnull : IPNet.null.isNull = true := by decide
  rw [NRadixTree.findAddress]
  by_cases hx : (IPNet.ofAddress x).bits = 0
  · rw [NRadixTree.find_of_zero _ _ hx, hnull]
    refine ⟨fun h => absurd h (by decide), ?_⟩
    rintro ⟨n, hn, _, hcovers⟩
    have hle := hcovers.1
    have hbits := hpos n hn
    omega
  rw [NRadixTree.find_of_pos _ _ (by omega)]
  cases hr : (NRadixTree.ofList allPrivateNetworks).root.find (IPNet.ofAddress x).path none with
  | none =>
    have hnone := (NRadixTree.find_ofList_eq_none_iff _ hpos _).mp hr
    refine ⟨fun h => absurd (hnull.symm.trans h) (by decide), ?_⟩
    rintro ⟨n, hn, _, hcovers⟩
    exact absurd hcovers (hnone n hn)
  | some m =>
    obtain ⟨hfirst, hcovers, _⟩ := (NRadixTree.find_ofList_eq_some_iff _ hpos _ m).mp hr
    have hm := List.mem_of_find?_eq_some hfirst
    have hown : (IPNet.ofAddress x).family = m.family ↔ m.family = x.family := eq_comm
    dsimp only
    rw [if_congr hown rfl rfl]
    constructor
    · intro h
      split_ifs at h with hfamily
      · exact ⟨m, hm, hfamily, hcovers⟩
      · exact absurd (hnull.symm.trans h) (by decide)
    · rintro ⟨n, hn, hfamily, hncovers⟩
      rw [if_pos ((family_eq_of_covers hm hn hcovers hncovers).trans hfamily)]
      exact isNull_of_pos (hpos m hm)

/-- An IPv4 address and its mapped form are public alike and local alike, and an address is private
exactly if the search in `private_networks_tree`, built in any memory, finds a network. -/
theorem mapped_and_tree_agree (h : TrieHeap IPNet) :
    (∀ a : Address, a.family = .ipv4 →
      a.isPublic = a.toV6.isPublic ∧ a.isLocal = a.toV6.isLocal) ∧
    ∃ h' o, TreeObject.construct h allPrivateNetworks = some (h', o) ∧
      ∀ x : Address, ∃ ret, NRadixHeap.findAddress h' o.root x = some ret ∧
        (x.isPublic = false ↔ ret.isNull = false) := by
  obtain ⟨h', o, S, hrun, hown, _, hlist⟩ := TreeObject.construct_owns h allPrivateNetworks
  refine ⟨fun a hf => ⟨(isPublic_toV6 hf).symm, (isLocal_toV6 hf).symm⟩, h', o, hrun, fun x => ?_⟩
  have hfind := NRadixHeap.find_holds hown.holds (.ofAddress x)
  rw [hlist] at hfind
  refine ⟨_, hfind, ?_⟩
  rw [isPublic_eq_false_iff]
  exact (isNull_findAddress_eq_false_iff x).symm

/-- 10.1.2.3 is private, in both forms. -/
theorem mapped_and_tree_agree_ten :
    (Address.ofBytes 10 1 2 3).isPublic = (Address.ofBytes 10 1 2 3).toV6.isPublic :=
  ((mapped_and_tree_agree .init).1 (.ofBytes 10 1 2 3) rfl).1

end AcsNext.Collector
