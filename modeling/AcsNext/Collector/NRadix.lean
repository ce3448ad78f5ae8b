import AcsNext.Data.BitTrie
import AcsNext.Collector.IPNet

/-! The radix tree of networks. Both families share one tree and one set of bit paths. -/
namespace AcsNext.Collector
open AcsNext.Data

def Words.get (w : Words) (k : ℕ) : BitVec 64 := if k = 0 then w.w0 else w.w1

/-- The walking state of `Insert` and `Find`: the bit under the cursor, the common offset of
`addr_p` and `net_mask_p`, and the number of words walked. -/
structure Cursor where
  bit : BitVec 64
  word : ℕ
  i : ℕ

def Cursor.start : Cursor := ⟨0x8000000000000000#64, 0, 0⟩

/-- Moves to the next bit; `none` once 128 bits have been walked. -/
def Cursor.next (bits : ℕ) (c : Cursor) : Option Cursor :=
  let bit := c.bit >>> 1
  if bit = 0 then
    if 2 ≤ c.i + 1 then none
    else some ⟨0x8000000000000000#64, if 64 ≤ bits then c.word + 1 else c.word, c.i + 1⟩
  else some { c with bit := bit }

/-- The turns taken while `bit & *net_mask_p` holds: `true` is right, `false` is left. -/
def IPNet.walk (network : IPNet) : ℕ → Cursor → List Bool
  | 0, _ => []
  | fuel + 1, c =>
    if (c.bit &&& network.netMaskArray.get c.word) = 0 then []
    else ((ntohll (network.address.data.get c.word) &&& c.bit) != 0) ::
      match c.next network.bits with
      | none => []
      | some c => network.walk fuel c

/-- The bit path that `Insert` and `Find` follow from the root. -/
def IPNet.path (network : IPNet) : List Bool := network.walk 128 .start

private theorem shiftRight_top (j : ℕ) (hj : j < 64) :
    (0x8000000000000000#64 >>> j) = BitVec.twoPow 64 (63 - j) := by
  interval_cases j <;> decide

private theorem and_top_ne_zero (x : BitVec 64) (j : ℕ) (hj : j < 64) :
    ((x &&& (0x8000000000000000#64 >>> j)) != 0) = x.getMsbD j := by
  rw [shiftRight_top j hj, BitVec.and_twoPow, BitVec.getMsbD_eq_getLsbD]
  have h1 : 64 - 1 - j = 63 - j := by omega
  have h2 : BitVec.twoPow 64 (63 - j) ≠ 0 := by
    intro h
    have := congrArg (fun z => z.getLsbD (63 - j)) h
    simp [BitVec.getLsbD_twoPow] at this
    omega
  cases h : x.getLsbD (63 - j) <;> simp_all

private theorem getMsbD_ones (j : ℕ) (hj : j < 64) : (0xffffffffffffffff#64).getMsbD j = true := by
  have hones : 0xffffffffffffffff#64 = BitVec.allOnes 64 := by decide
  rw [hones, BitVec.getMsbD_allOnes]
  exact decide_eq_true hj

theorem getMsbD_lastMask (n j : ℕ) (hj : j < 64) :
    (lastMask n).getMsbD j = decide (j < n) := by
  rw [lastMask, BitVec.getMsbD_not, BitVec.getMsbD_ushiftRight]
  by_cases h : j < n
  · simp [h, hj]
  · rw [getMsbD_ones (j - n) (by omega)]
    simp [h, hj]

def Cursor.after (bits k : ℕ) : Cursor :=
  ⟨0x8000000000000000#64 >>> (k % 64), if 64 ≤ bits then k / 64 else 0, k / 64⟩

theorem Cursor.next_after (bits k : ℕ) (hk : k < 128) :
    (Cursor.after bits k).next bits =
      if k + 1 = 128 then none else some (Cursor.after bits (k + 1)) := by
  have hshift : (0x8000000000000000#64 >>> (k % 64)) >>> 1 =
      0x8000000000000000#64 >>> (k % 64 + 1) := by
    rw [BitVec.shiftRight_add]
  by_cases hw : k % 64 = 63
  · have hk' : k = 63 ∨ k = 127 := by omega
    rcases hk' with rfl | rfl <;> simp [next, after]
  · have hne : ¬ (0x8000000000000000#64 >>> (k % 64 + 1)) = 0 := by
      rw [shiftRight_top _ (by omega)]
      intro h
      have := congrArg (fun z => z.getLsbD (63 - (k % 64 + 1))) h
      simp [BitVec.getLsbD_twoPow] at this
      omega
    have hk' : ¬ k + 1 = 128 := by omega
    have h1 : (k + 1) % 64 = k % 64 + 1 := by omega
    have h2 : (k + 1) / 64 = k / 64 := by omega
    simp only [next, after, hshift, hne, if_false, hk', h1, h2]

theorem IPNet.netMask_after (n : IPNet) (k : ℕ) (hk : k < 128) (hkb : k ≤ n.bits) :
    ((Cursor.after n.bits k).bit &&& n.netMaskArray.get (Cursor.after n.bits k).word) = 0 ↔
      ¬ k < n.bits := by
  have hbit := and_top_ne_zero (n.netMaskArray.get (Cursor.after n.bits k).word) (k % 64)
    (Nat.mod_lt _ (by omega))
  have hget : (n.netMaskArray.get (Cursor.after n.bits k).word).getMsbD (k % 64) =
      decide (k < n.bits) := by
    have hb := n.bits_le_128
    unfold IPNet.netMaskArray
    by_cases h64 : n.bits < 64
    · have hw : ¬ 64 ≤ n.bits := by omega
      have hkm : k % 64 = k := by omega
      simp only [Cursor.after, hw, h64, if_true, if_false, Words.get, hkm]
      exact getMsbD_lastMask n.bits k (by omega)
    · have hw : 64 ≤ n.bits := by omega
      simp only [Cursor.after, hw, h64, if_true, if_false, Words.get]
      by_cases hk0 : k / 64 = 0
      · have hlt : k < n.bits := by omega
        split_ifs <;> simp [getMsbD_ones (k % 64) (by omega), hlt]
      · by_cases hfull : n.bits = 128
        · simp [hk0, hfull, getMsbD_ones (k % 64) (by omega), hk]
        · simp only [hk0, hfull, if_false]
          rw [getMsbD_lastMask _ _ (by omega)]
          have he : k % 64 < n.bits % 64 ↔ k < n.bits := by omega
          simp only [he]
  rw [hget] at hbit
  rw [BitVec.and_comm]
  change (n.netMaskArray.get (Cursor.after n.bits k).word &&&
    (0x8000000000000000#64 >>> (k % 64))) = 0 ↔ _
  by_cases h : k < n.bits <;> simp_all

theorem IPNet.turn_after (n : IPNet) (k : ℕ) (hk : k < 128) (hlt : k < n.bits) :
    ((ntohll (n.address.data.get (Cursor.after n.bits k).word) &&&
      (Cursor.after n.bits k).bit) != 0) = n.address.bit k := by
  rw [Cursor.after, and_top_ne_zero _ _ (Nat.mod_lt _ (by omega))]
  unfold Address.bit Words.get
  by_cases h64 : k < 64
  · have h0 : k / 64 = 0 := by omega
    have hm : k % 64 = k := by omega
    simp [h64, h0, hm]
  · have h1 : ¬ k / 64 = 0 := by omega
    have hm : k % 64 = k - 64 := by omega
    have hbits : 64 ≤ n.bits := by omega
    simp [h64, h1, hm, hbits]

private theorem walk_after (n : IPNet) (fuel k : ℕ) (hfuel : fuel + k = 128) (hk : k ≤ n.bits) :
    n.walk fuel (Cursor.after n.bits k) =
      (List.range' k (n.bits - k)).map n.address.bit := by
  have hb := n.bits_le_128
  induction fuel generalizing k with
  | zero =>
    have : n.bits - k = 0 := by omega
    simp [IPNet.walk, this]
  | succ fuel ih =>
    by_cases hlt : k < n.bits
    · have hturn := n.turn_after k (by omega) hlt
      have hstop := mt (n.netMask_after k (by omega) hk).mp (by simpa using hlt)
      have hlen : n.bits - k = n.bits - (k + 1) + 1 := by omega
      rw [IPNet.walk, if_neg hstop, hturn, Cursor.next_after n.bits k (by omega), hlen,
        List.range'_succ, List.map_cons]
      congr 1
      by_cases hend : k + 1 = 128
      · have hz : n.bits - 128 = 0 := by omega
        simp [hend, hz]
      · simpa [hend] using ih (k + 1) (by omega) (by omega)
    · have : n.bits - k = 0 := by omega
      rw [IPNet.walk, if_pos ((n.netMask_after k (by omega) hk).mpr hlt), this]
      rfl

theorem IPNet.path_eq (n : IPNet) : n.path = (List.range n.bits).map n.address.bit := by
  have h := walk_after n 128 0 (by omega) (by omega)
  rw [List.range_eq_range']
  have hs : Cursor.after n.bits 0 = Cursor.start := by simp [Cursor.after, Cursor.start]
  simpa [IPNet.path, hs] using h

@[simp] theorem IPNet.length_path (n : IPNet) : n.path.length = n.bits := by
  simp [path_eq]

def IPNet.Covers (n q : IPNet) : Prop :=
  n.bits ≤ q.bits ∧ ∀ i < n.bits, n.address.bit i = q.address.bit i

def IPNet.SamePrefix (n m : IPNet) : Prop :=
  n.bits = m.bits ∧ ∀ i < n.bits, n.address.bit i = m.address.bit i

def IPNet.SameNetwork (n m : IPNet) : Prop := n.family = m.family ∧ n.SamePrefix m

instance (n q : IPNet) : Decidable (n.Covers q) := inferInstanceAs (Decidable (_ ∧ _))

instance (n m : IPNet) : Decidable (n.SamePrefix m) := inferInstanceAs (Decidable (_ ∧ _))

theorem IPNet.covers_iff (n q : IPNet) : n.Covers q ↔ n.path <+: q.path := by
  rw [List.prefix_iff_eq_take, length_path, path_eq, path_eq, ← List.map_take, List.take_range]
  unfold Covers
  constructor
  · intro he
    obtain ⟨hle, hbit⟩ := he
    rw [min_eq_left hle]
    exact List.map_congr_left fun i hi => hbit i (List.mem_range.mp hi)
  · intro h
    have hlen := congrArg List.length h
    simp only [List.length_map, List.length_range] at hlen
    have hle : n.bits ≤ q.bits := by omega
    rw [min_eq_left hle] at h
    exact ⟨hle, fun i hi => List.map_inj_left.mp h i (List.mem_range.mpr hi)⟩

theorem IPNet.samePrefix_iff (n m : IPNet) : n.SamePrefix m ↔ n.path = m.path := by
  unfold SamePrefix
  constructor
  · intro he
    obtain ⟨hb, hbit⟩ := he
    rw [path_eq, path_eq, ← hb]
    exact List.map_congr_left fun i hi => hbit i (List.mem_range.mp hi)
  · intro h
    have hb : n.bits = m.bits := by rw [← length_path, ← length_path, h]
    rw [path_eq, path_eq, ← hb] at h
    exact ⟨hb, fun i hi => List.map_inj_left.mp h i (List.mem_range.mpr hi)⟩

/-- Every stored network sits at its own path and has at least one bit. -/
structure NRadixTree where
  root : BitTrie IPNet
  stored : ∀ path n, root.get? path = some n → n.path = path ∧ 0 < n.bits

namespace NRadixTree

def empty : NRadixTree :=
  ⟨.node none .nil .nil, fun path n h => by
    rcases path with _ | ⟨_ | _, _⟩ <;> simp [BitTrie.get?] at h⟩

private theorem stored_insert (tree : NRadixTree) (n : IPNet) (hb : 0 < n.bits)
    (root : BitTrie IPNet) (h : tree.root.insert n.path n = some root) (path : List Bool) (m : IPNet)
    (hget : root.get? path = some m) : m.path = path ∧ 0 < m.bits := by
  rw [BitTrie.get?_insert h] at hget
  split_ifs at hget with hp
  · rw [← Option.some.inj hget]
    exact ⟨hp.symm, hb⟩
  · exact tree.stored path m hget

/-- `none` where the source returns `false` and leaves the tree as it is. -/
def insert (tree : NRadixTree) (network : IPNet) : Option NRadixTree :=
  if network.isNull then none
  else if hb : network.bits < 1 ∨ 128 < network.bits then none
  else (tree.root.insert network.path network).pmap
    (fun root h => ⟨root, tree.stored_insert network (by omega) root h⟩) fun _ h => h

/-- Failed insertions are logged and skipped. -/
def ofList (networks : List IPNet) : NRadixTree :=
  networks.foldl (fun tree network => (tree.insert network).getD tree) empty

def find (tree : NRadixTree) (network : IPNet) : IPNet :=
  if network.isNull then .null
  else if network.bits = 0 then .null
  else
    let ret := (tree.root.find network.path none).getD .null
    if network.family = ret.family then ret else .null

def findAddress (tree : NRadixTree) (addr : Address) : IPNet := tree.find (.ofAddress addr)

def getAll (tree : NRadixTree) : List IPNet := tree.root.toList

def isEmpty (tree : NRadixTree) : Bool :=
  match tree.root with
  | .node none .nil .nil => true
  | _ => false

/-- The answer is found once both networks belong to the requested, or to one, family. -/
def bothOfFamily (family : Family) : Option IPNet → Option IPNet → Bool
  | some containing, some contained =>
    if family = .unknown then containing.family == contained.family
    else containing.family == family && contained.family == family
  | _, _ => false

/-- Whether some network below `n2` is contained in one below `n1`; the nearest containing
and contained networks met on the way down are carried along. -/
def isAnyIPNetSubsetUtil (family : Family) (n1 n2 : BitTrie IPNet)
    (containing contained : Option IPNet) : Bool :=
  bothOfFamily family containing contained ||
    match n2 with
    | .nil => false
    | .node v2 l2 r2 =>
      match n1 with
      | .node v1 l1 r1 =>
        isAnyIPNetSubsetUtil family l1 l2 (v1.or containing) (v2.or contained) ||
          isAnyIPNetSubsetUtil family r1 r2 (v1.or containing) (v2.or contained)
      | .nil =>
        isAnyIPNetSubsetUtil family .nil l2 containing (v2.or contained) ||
          isAnyIPNetSubsetUtil family .nil r2 containing (v2.or contained)

def isAnyIPNetSubset (tree : NRadixTree) (family : Family) (other : NRadixTree) : Bool :=
  isAnyIPNetSubsetUtil family tree.root other.root none none

theorem map_root_insert (tree : NRadixTree) (n : IPNet) :
    (tree.insert n).map root = if 0 < n.bits then tree.root.insert n.path n else none := by
  have hb := n.bits_le_128
  unfold insert
  by_cases h0 : 0 < n.bits
  · have hnull : n.isNull = false := by simp [IPNet.isNull, h0.ne']
    have hrange : ¬ (n.bits < 1 ∨ 128 < n.bits) := by omega
    rw [if_neg (by simp [hnull]), dif_neg hrange, if_pos h0, Option.map_pmap]
    simp
  · have hrange : n.bits < 1 ∨ 128 < n.bits := by omega
    rw [dif_pos hrange, if_neg h0]
    simp

theorem insert_isSome (tree : NRadixTree) (n : IPNet) :
    (tree.insert n).isSome = (decide (0 < n.bits) && (tree.root.get? n.path).isNone) := by
  have hmap := congrArg Option.isSome (tree.map_root_insert n)
  rw [Option.isSome_map] at hmap
  rw [hmap]
  by_cases h0 : 0 < n.bits <;> simp [h0, BitTrie.insert_isSome]

private theorem root_insert_getD (tree : NRadixTree) (n : IPNet) :
    ((tree.insert n).getD tree).root =
      if 0 < n.bits then (tree.root.insert n.path n).getD tree.root else tree.root := by
  have hmap := tree.map_root_insert n
  by_cases h0 : 0 < n.bits
  · rw [if_pos h0] at hmap ⊢
    rw [← hmap]
    cases tree.insert n <;> rfl
  · rw [if_neg h0, Option.map_eq_none_iff] at hmap
    rw [if_neg h0, hmap]
    rfl

theorem root_ofList (networks : List IPNet) :
    (ofList networks).root =
      BitTrie.insertAll IPNet.path empty.root (networks.filter fun n => decide (0 < n.bits)) := by
  have hfold : ∀ (l : List IPNet) (tree : NRadixTree),
      (l.foldl (fun tree n => (tree.insert n).getD tree) tree).root =
        BitTrie.insertAll IPNet.path tree.root (l.filter fun n => decide (0 < n.bits)) := by
    intro l
    induction l with
    | nil => exact fun _ => rfl
    | cons n l ih =>
      intro tree
      rw [List.foldl_cons, ih, root_insert_getD]
      by_cases h0 : 0 < n.bits <;> simp [h0, BitTrie.insertAll]
  exact hfold networks empty

theorem get?_ofList (networks : List IPNet) (path : List Bool) :
    (ofList networks).root.get? path =
      networks.find? fun n => decide (0 < n.bits) && decide (n.path = path) := by
  have hempty : empty.root.get? path = none := by
    rcases path with _ | ⟨_ | _, _⟩ <;> simp [empty, BitTrie.get?]
  rw [root_ofList, BitTrie.get?_insertAll, hempty, Option.none_or, List.find?_filter]
  simp only [Bool.decide_and, Bool.decide_eq_true]

theorem find_of_pos (tree : NRadixTree) (q : IPNet) (hq : 0 < q.bits) :
    tree.find q = match tree.root.find q.path none with
      | some n => if q.family = n.family then n else .null
      | none => .null := by
  have hnull : q.isNull = false := by simp [IPNet.isNull, hq.ne']
  rw [find, if_neg (by simp [hnull]), if_neg hq.ne']
  cases tree.root.find q.path none <;> simp

theorem find_of_zero (tree : NRadixTree) (q : IPNet) (hq : q.bits = 0) : tree.find q = .null := by
  simp [find, hq]

theorem find_cases (tree : NRadixTree) (q : IPNet) :
    tree.find q = .null ∨
      (tree.find q ∈ tree.getAll ∧ (tree.find q).family = q.family ∧ 0 < (tree.find q).bits) := by
  by_cases hq : q.bits = 0
  · exact Or.inl (tree.find_of_zero q hq)
  rw [tree.find_of_pos q (by omega)]
  cases hr : tree.root.find q.path none with
  | none => exact Or.inl rfl
  | some n =>
    by_cases hf : q.family = n.family
    · obtain ⟨p, _, hget, _⟩ := (BitTrie.find_eq_some_iff _ _ _).mp hr
      simp only [hf, if_true]
      exact Or.inr ⟨(BitTrie.mem_toList _ _).mpr ⟨p, hget⟩, trivial, (tree.stored p n hget).2⟩
    · simp [hf]

theorem get?_path (tree : NRadixTree) {n : IPNet} (hn : n ∈ tree.getAll) :
    tree.root.get? n.path = some n := by
  obtain ⟨p, hp⟩ := (BitTrie.mem_toList _ _).mp hn
  rwa [(tree.stored p n hp).1]

theorem bits_pos_of_mem (tree : NRadixTree) {n : IPNet} (hn : n ∈ tree.getAll) : 0 < n.bits :=
  (tree.stored n.path n (tree.get?_path hn)).2

theorem find_of_mem_path (tree : NRadixTree) (q n : IPNet) (hn : n ∈ tree.getAll)
    (hp : n.path = q.path) (hf : q.family = n.family) : tree.find q = n := by
  have hget := tree.get?_path hn
  have hb := tree.bits_pos_of_mem hn
  have hq : 0 < q.bits := by rwa [← q.length_path, ← hp, n.length_path]
  have hr : tree.root.find q.path none = some n := by
    refine (BitTrie.find_eq_some_iff _ _ _).mpr ⟨n.path, hp ▸ List.prefix_rfl, hget, ?_⟩
    intro p' hp' hlt
    have hle := hp'.length_le
    rw [hp] at hlt
    omega
  rw [tree.find_of_pos q hq, hr]
  simp [hf]

theorem mem_getAll_ofList (networks : List IPNet) (n : IPNet) :
    n ∈ (ofList networks).getAll ↔
      (networks.find? fun m => decide (0 < m.bits) && decide (m.path = n.path)) = some n := by
  rw [getAll, BitTrie.mem_toList, ← get?_ofList]
  constructor
  · intro h
    obtain ⟨path, hget⟩ := h
    rwa [((ofList networks).stored path n hget).1]
  · intro h
    exact ⟨n.path, h⟩

/-- The tree has the networks of the list and no others. -/
def HasExactly (tree : NRadixTree) (networks : List IPNet) : Prop :=
  (∀ n ∈ networks, ∃ m ∈ tree.getAll, n.SameNetwork m) ∧ ∀ m ∈ tree.getAll, m ∈ networks

/-- No network is without bits, and none has the prefix of one of the other family. -/
def Storable (networks : List IPNet) : Prop :=
  (∀ n ∈ networks, 0 < n.bits) ∧
    ∀ n ∈ networks, ∀ m ∈ networks, n.SamePrefix m → n.family = m.family

instance (networks : List IPNet) : Decidable (Storable networks) :=
  inferInstanceAs (Decidable (_ ∧ _))

theorem storable_of_hasExactly {tree : NRadixTree} {networks : List IPNet}
    (h : tree.HasExactly networks) : Storable networks := by
  obtain ⟨hall, -⟩ := h
  constructor
  · intro n hn
    obtain ⟨m, hm, -, hsame⟩ := hall n hn
    rw [hsame.1]
    exact tree.bits_pos_of_mem hm
  · intro n hn m hm hnm
    obtain ⟨x, hx, hxfamily, hxprefix⟩ := hall n hn
    obtain ⟨y, hy, hyfamily, hyprefix⟩ := hall m hm
    have hpath : x.path = y.path := by
      rw [← (n.samePrefix_iff x).mp hxprefix, ← (m.samePrefix_iff y).mp hyprefix]
      exact (n.samePrefix_iff m).mp hnm
    have hxy : x = y := by
      have hget := tree.get?_path hx
      rw [hpath, tree.get?_path hy] at hget
      exact (Option.some.inj hget).symm
    rw [hxfamily, hyfamily, hxy]

theorem hasExactly_of_storable {networks inserted : List IPNet} (hstorable : Storable networks)
    (h : ∀ n, n ∈ inserted ↔ n ∈ networks) : (ofList inserted).HasExactly networks := by
  obtain ⟨hbits, hfamily⟩ := hstorable
  constructor
  · intro n hn
    obtain ⟨m, hm⟩ := Option.isSome_iff_exists.mp (List.find?_isSome
      (p := fun m : IPNet => decide (0 < m.bits) && decide (m.path = n.path)).mpr
        ⟨n, (h n).mpr hn, by simp [hbits n hn]⟩)
    have hpath : m.path = n.path := by
      have hfound := List.find?_some hm
      simp only [Bool.and_eq_true, decide_eq_true_eq] at hfound
      exact hfound.2
    have hnm : n.SamePrefix m := (n.samePrefix_iff m).mpr hpath.symm
    have hmem : m ∈ networks := (h m).mp (List.mem_of_find?_eq_some hm)
    refine ⟨m, (mem_getAll_ofList inserted m).mpr ?_, hfamily n hn m hmem hnm, hnm⟩
    rwa [hpath]
  · intro m hm
    exact (h m).mp (List.mem_of_find?_eq_some ((mem_getAll_ofList inserted m).mp hm))

/-- Whatever the order of insertion, the tree ends up with the networks exactly if they can be
stored side by side. -/
theorem hasExactly_ofList_iff {networks inserted : List IPNet}
    (h : ∀ n, n ∈ inserted ↔ n ∈ networks) :
    (ofList inserted).HasExactly networks ↔ Storable networks :=
  ⟨storable_of_hasExactly, fun hstorable => hasExactly_of_storable hstorable h⟩

end NRadixTree

end AcsNext.Collector
