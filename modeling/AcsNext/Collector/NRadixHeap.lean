import AcsNext.Data.TrieHeap
import AcsNext.Collector.NRadix

/-! The radix tree as linked nodes in memory: the loops of `Insert` and `Find` step by step,
and that they compute what the tree of networks does. -/
namespace AcsNext.Collector
open AcsNext.Data

/-- `ntohll(*addr_p) & bit`: right if set, left otherwise. -/
def IPNet.turn (network : IPNet) (c : Cursor) : Bool :=
  (ntohll (network.address.data.get c.word) &&& c.bit) != 0

namespace NRadixHeap

/-- The first loop of `Insert`, over the nodes that exist: the final `node`, `next` and
cursor. `none` is a read through a dangling pointer, or a loop that goes on. -/
def insertWalk (h : TrieHeap IPNet) (network : IPNet) :
    ℕ → Cursor → ℕ → Option ℕ → Option (ℕ × Option ℕ × Cursor)
  | 0, _, _, _ => none
  | fuel + 1, c, node, next =>
    if (c.bit &&& network.netMaskArray.get c.word) = 0 then some (node, next, c)
    else do
      let cell ← h.cells node
      match cell.child (network.turn c) with
      | none => some (node, none, c)
      | some next =>
        match c.next network.bits with
        | none => some (next, some next, c)
        | some c => insertWalk h network fuel c next (some next)

/-- The second loop of `Insert`, which adds the missing nodes. -/
def insertCreate (network : IPNet) :
    ℕ → TrieHeap IPNet → Cursor → ℕ → Option (TrieHeap IPNet × ℕ)
  | 0, _, _, _ => none
  | fuel + 1, h, c, node =>
    if (c.bit &&& network.netMaskArray.get c.word) = 0 then some (h, node)
    else do
      let (h, next) := h.alloc .empty
      let cell ← h.cells node
      let h ← h.write node (cell.setChild (network.turn c) (some next))
      match c.next network.bits with
      | none => some (h, next)
      | some c => insertCreate network fuel h c next

/-- What `Insert` does with the node that the first loop stopped at. -/
def insertValue (h : TrieHeap IPNet) (network : IPNet) :
    ℕ × Option ℕ × Cursor → Option (TrieHeap IPNet × Bool)
  | (node, some _, _) => do
    let cell ← h.cells node
    if cell.value.isSome then some (h, false)
    else (h.setValue node network).map fun h => (h, true)
  | (node, none, c) => do
    let (h, node) ← insertCreate network 128 h c node
    (h.setValue node network).map fun h => (h, true)

protected def insert (h : TrieHeap IPNet) (root : ℕ) (network : IPNet) :
    Option (TrieHeap IPNet × Bool) :=
  if network.isNull then some (h, false)
  else if network.bits < 1 ∨ 128 < network.bits then some (h, false)
  else do
    let stop ← insertWalk h network 128 .start root (some root)
    insertValue h network stop

def findWalk (h : TrieHeap IPNet) (network : IPNet) :
    ℕ → Cursor → Option ℕ → IPNet → Option IPNet
  | 0, _, _, _ => none
  | _ + 1, _, none, ret => some ret
  | fuel + 1, c, some node, ret => do
    let cell ← h.cells node
    let ret := cell.value.getD ret
    let node := cell.child (network.turn c)
    if (network.netMaskArray.get c.word &&& c.bit) = 0 then some ret
    else
      match c.next network.bits with
      | none =>
        -- all 128 bits are walked: the last node is looked at on its own
        match node with
        | none => some ret
        | some node => do
          let cell ← h.cells node
          some (cell.value.getD ret)
      | some c => findWalk h network fuel c node ret

def find (h : TrieHeap IPNet) (root : ℕ) (network : IPNet) : Option IPNet :=
  if network.isNull then some .null
  else if network.bits = 0 then some .null
  else do
    let ret ← findWalk h network 128 .start (some root) .null
    some (if network.family = ret.family then ret else .null)

def findAddress (h : TrieHeap IPNet) (root : ℕ) (addr : Address) : Option IPNet :=
  find h root (.ofAddress addr)

/-- `NRadixTree::GetAll`; no tree has more nodes than the memory has cells. -/
def getAll (h : TrieHeap IPNet) (root : ℕ) : Option (List IPNet) :=
  h.collect (h.next + 1) (some root) []

def isEmpty (h : TrieHeap IPNet) (root : ℕ) : Option Bool := do
  let c ← h.cells root
  some (c.left.isNone && c.right.isNone && c.value.isNone)

def isAnyIPNetSubsetUtil (family : Family) (h : TrieHeap IPNet) :
    ℕ → Option ℕ → Option ℕ → Option IPNet → Option IPNet → Option Bool
  | 0, _, _, _, _ => none
  | fuel + 1, n1, n2, containing, contained =>
    if NRadixTree.bothOfFamily family containing contained then some true
    else
      match n2 with
      | none => some false
      | some n2 => do
        let c2 ← h.cells n2
        let contained := c2.value.or contained
        match n1 with
        | some n1 => do
          let c1 ← h.cells n1
          let containing := c1.value.or containing
          if ← isAnyIPNetSubsetUtil family h fuel c1.left c2.left containing contained
          then some true
          else isAnyIPNetSubsetUtil family h fuel c1.right c2.right containing contained
        | none =>
          if ← isAnyIPNetSubsetUtil family h fuel none c2.left containing contained
          then some true
          else isAnyIPNetSubsetUtil family h fuel none c2.right containing contained

def isAnyIPNetSubset (family : Family) (h : TrieHeap IPNet) (root other : ℕ) : Option Bool :=
  isAnyIPNetSubsetUtil family h (h.next + 1) (some root) (some other) none none

/-- `NRadixTree(const NRadixTree&)`: the root of the copy. -/
def copy (h : TrieHeap IPNet) (other : ℕ) : Option (TrieHeap IPNet × ℕ) :=
  h.copy (h.next + 1) other

/-- `operator=` between two trees: the old nodes are deleted first. -/
def assign (h : TrieHeap IPNet) (root other : ℕ) : Option (TrieHeap IPNet × ℕ) := do
  let h ← h.delete (h.next + 1) (some root)
  copy h other

private def pathFrom (n : IPNet) (k : ℕ) : List Bool :=
  (List.range' k (n.bits - k)).map n.address.bit

private theorem pathFrom_zero (n : IPNet) : pathFrom n 0 = n.path := by
  rw [IPNet.path_eq, List.range_eq_range', pathFrom, Nat.sub_zero]

private theorem pathFrom_lt (n : IPNet) (k : ℕ) (hk : k < n.bits) :
    pathFrom n k = n.address.bit k :: pathFrom n (k + 1) := by
  have hlen : n.bits - k = n.bits - (k + 1) + 1 := by omega
  rw [pathFrom, hlen, List.range'_succ, List.map_cons]
  rfl

private theorem pathFrom_ge (n : IPNet) (k : ℕ) (hk : n.bits ≤ k) : pathFrom n k = [] := by
  have hlen : n.bits - k = 0 := by omega
  rw [pathFrom, hlen]
  rfl

private theorem start_eq_after (n : IPNet) : Cursor.start = Cursor.after n.bits 0 := by
  simp [Cursor.start, Cursor.after]

private theorem turn_eq (n : IPNet) (k : ℕ) (hk : k < n.bits) :
    n.turn (Cursor.after n.bits k) = n.address.bit k := by
  have hb := n.bits_le_128
  exact n.turn_after k (by omega) hk

private theorem insertCreate_eq (n : IPNet) (fuel k : ℕ) (hk : k < 128) (hkb : k ≤ n.bits)
    (hfuel : 128 ≤ fuel + k) (h : TrieHeap IPNet) (node : ℕ) :
    insertCreate n fuel h (Cursor.after n.bits k) node = h.extend (pathFrom n k) node := by
  have hb := n.bits_le_128
  induction fuel generalizing k h node with
  | zero => omega
  | succ fuel ih =>
    rw [insertCreate]
    by_cases hlt : k < n.bits
    · have hmask := mt (n.netMask_after k hk hkb).mp (not_not.mpr hlt)
      rw [if_neg hmask, pathFrom_lt n k hlt, TrieHeap.extend, turn_eq n k hlt,
        Cursor.next_after n.bits k hk]
      by_cases hend : k + 1 = 128
      · rw [if_pos hend, pathFrom_ge n (k + 1) (by omega)]
        rfl
      · rw [if_neg hend]
        simp only [ih (k + 1) (by omega) (by omega) (by omega)]
    · rw [if_pos ((n.netMask_after k hk hkb).mpr hlt), pathFrom_ge n k (by omega)]
      rfl

private theorem insertWalk_eq (n : IPNet) (fuel k : ℕ) (hk : k < 128) (hkb : k ≤ n.bits)
    (hfuel : 128 ≤ fuel + k) (h : TrieHeap IPNet) (node : ℕ) :
    (insertWalk h n fuel (Cursor.after n.bits k) node (some node)).bind (insertValue h n) =
      (h.descend (pathFrom n k) node).bind (h.place n) := by
  have hb := n.bits_le_128
  induction fuel generalizing k node with
  | zero => omega
  | succ fuel ih =>
    rw [insertWalk]
    by_cases hlt : k < n.bits
    · have hmask := mt (n.netMask_after k hk hkb).mp (not_not.mpr hlt)
      rw [if_neg hmask, pathFrom_lt n k hlt, TrieHeap.descend, turn_eq n k hlt,
        Cursor.next_after n.bits k hk]
      cases hcell : h.cells node with
      | none => rfl
      | some cell =>
        simp only [Option.bind_eq_bind, Option.bind_some]
        cases hchild : cell.child (n.address.bit k) with
        | none =>
          simp only [Option.bind_some, insertValue, TrieHeap.place]
          rw [insertCreate_eq n 128 k hk hkb (by omega), pathFrom_lt n k hlt]
        | some next =>
          by_cases hend : k + 1 = 128
          · rw [if_pos hend, pathFrom_ge n (k + 1) (by omega)]
            rfl
          · rw [if_neg hend]
            exact ih (k + 1) (by omega) (by omega) (by omega) next
    · rw [if_pos ((n.netMask_after k hk hkb).mpr hlt), pathFrom_ge n k (by omega)]
      rfl

private theorem findWalk_eq (n : IPNet) (fuel k : ℕ) (hk : k < 128) (hkb : k ≤ n.bits)
    (hfuel : 128 ≤ fuel + k) (h : TrieHeap IPNet) (node : Option ℕ) (ret : Option IPNet) :
    findWalk h n fuel (Cursor.after n.bits k) node (ret.getD .null) =
      (h.find (pathFrom n k) node ret).map fun ret => ret.getD .null := by
  have hb := n.bits_le_128
  induction fuel generalizing k node ret with
  | zero => omega
  | succ fuel ih =>
    cases node with
    | none => cases pathFrom n k <;> rfl
    | some node =>
      have hor (v : Option IPNet) : v.getD (ret.getD .null) = (v.or ret).getD .null := by
        cases v <;> rfl
      rw [findWalk, BitVec.and_comm]
      by_cases hlt : k < n.bits
      · have hmask := mt (n.netMask_after k hk hkb).mp (not_not.mpr hlt)
        rw [pathFrom_lt n k hlt, TrieHeap.find]
        cases hcell : h.cells node with
        | none => rfl
        | some cell =>
          simp only [Option.bind_eq_bind, Option.bind_some, hor]
          rw [if_neg hmask, turn_eq n k hlt, Cursor.next_after n.bits k hk]
          by_cases hend : k + 1 = 128
          · rw [if_pos hend, pathFrom_ge n (k + 1) (by omega)]
            cases hchild : cell.child (n.address.bit k) with
            | none => rfl
            | some child =>
              simp only [TrieHeap.find]
              cases hlast : h.cells child with
              | none => rfl
              | some last => cases hv : last.value <;> simp [hv]
          · rw [if_neg hend]
            exact ih (k + 1) (by omega) (by omega) (by omega) _ _
      · rw [pathFrom_ge n k (by omega), TrieHeap.find]
        cases hcell : h.cells node with
        | none => rfl
        | some cell =>
          simp only [Option.bind_eq_bind, Option.bind_some, hor]
          rw [if_pos ((n.netMask_after k hk hkb).mpr hlt)]
          rfl

private theorem insert_eq (h : TrieHeap IPNet) (root : ℕ) (n : IPNet) :
    NRadixHeap.insert h root n =
      if 0 < n.bits then h.insert root n.path n else some (h, false) := by
  have hb := n.bits_le_128
  unfold NRadixHeap.insert TrieHeap.insert
  by_cases h0 : 0 < n.bits
  · have hnull : n.isNull = false := by simp [IPNet.isNull, h0.ne']
    have hrange : ¬ (n.bits < 1 ∨ 128 < n.bits) := by omega
    rw [if_neg (by simp [hnull]), if_neg hrange, if_pos h0, ← pathFrom_zero, start_eq_after n]
    exact insertWalk_eq n 128 0 (by omega) (by omega) (by omega) h root
  · have hrange : n.bits < 1 ∨ 128 < n.bits := by omega
    rw [if_pos hrange, if_neg h0, ite_self]

/-- The nodes below `root` are exactly the cells of `S` and form the tree. -/
def Holds (h : TrieHeap IPNet) (root : ℕ) (tree : NRadixTree) (S : Finset ℕ) : Prop :=
  h.Rep tree.root (some root) S

section Holds

variable {h : TrieHeap IPNet} {root : ℕ} {tree : NRadixTree} {S : Finset ℕ}

theorem insert_holds_none (hholds : Holds h root tree S) {n : IPNet}
    (hins : tree.insert n = none) : NRadixHeap.insert h root n = some (h, false) := by
  rw [insert_eq]
  split_ifs with h0
  · refine TrieHeap.insert_rep_none n.path n hholds ?_
    have hmap := tree.map_root_insert n
    rw [hins, if_pos h0] at hmap
    exact hmap.symm
  · rfl

theorem insert_holds_some (hholds : Holds h root tree S) {n : IPNet} {tree' : NRadixTree}
    (hins : tree.insert n = some tree') :
    ∃ h' S', NRadixHeap.insert h root n = some (h', true) ∧ Holds h' root tree' S' ∧
      h.Touches h' S S' := by
  have hmap := tree.map_root_insert n
  rw [hins] at hmap
  rw [insert_eq]
  split_ifs at hmap ⊢ with h0
  · exact TrieHeap.insert_rep_some n.path n hholds hmap.symm
  · cases hmap

theorem find_holds (hholds : Holds h root tree S) (q : IPNet) :
    find h root q = some (tree.find q) := by
  have hb := q.bits_le_128
  unfold find NRadixTree.find
  split_ifs with hnull h0
  · rfl
  · rfl
  · have hwalk := findWalk_eq q 128 0 (by omega) (by omega) (by omega) h (some root) none
    rw [← start_eq_after, pathFrom_zero, TrieHeap.find_rep hholds] at hwalk
    change findWalk h q 128 .start (some root) .null = _ at hwalk
    rw [hwalk]
    rfl

theorem getAll_holds (hholds : Holds h root tree S) : getAll h root = some tree.getAll := by
  have hsize := TrieHeap.Rep.size_le hholds
  rw [getAll, TrieHeap.collect_rep hholds _ (by omega)]
  rfl

theorem isEmpty_holds (hholds : Holds h root tree S) : isEmpty h root = some tree.isEmpty := by
  obtain ⟨t, hstored⟩ := tree
  unfold Holds at hholds
  dsimp only at hholds
  unfold isEmpty NRadixTree.isEmpty
  cases hholds with
  | @node _ c l r Sl Sr hread hl hr _ _ _ =>
    rw [hread]
    obtain ⟨v, lp, rp⟩ := c
    cases hl <;> cases hr <;> cases v <;> rfl

theorem copy_holds (hholds : Holds h root tree S) :
    ∃ h' root' S', copy h root = some (h', root') ∧ Holds h' root' tree S' ∧
      h.Touches h' ∅ S' := by
  have hsize := TrieHeap.Rep.size_le hholds
  exact TrieHeap.copy_rep _ (by omega) hholds

/-- The assigned tree gets fresh nodes; only its old ones are lost. -/
theorem assign_holds (hholds : Holds h root tree S) {other : ℕ} {tree' : NRadixTree}
    {T : Finset ℕ} (hother : Holds h other tree' T) (hdisj : Disjoint S T) :
    ∃ h' root' S', assign h root other = some (h', root') ∧ Holds h' root' tree' S' ∧
      h.Touches h' S S' := by
  have hsize := TrieHeap.Rep.size_le hholds
  obtain ⟨h1, hdelete, hnext, hcells⟩ := TrieHeap.delete_rep hholds (h.next + 1) (by omega)
  have hother1 : Holds h1 other tree' T := hother.frame fun q hq => by
    rw [hcells, if_neg (Finset.disjoint_right.mp hdisj hq)]
  obtain ⟨h2, root', S', hcopy, hholds', htouch⟩ := copy_holds hother1
  refine ⟨h2, root', S', ?_, hholds', ?_, fun q hq hqS => ?_, fun q hq => ?_⟩
  · rw [assign, hdelete]
    exact hcopy
  · have hle := htouch.next_le
    omega
  · rw [htouch.cells_eq q (by omega) (Finset.notMem_empty q), hcells, if_neg hqS]
  · rcases htouch.footprint q hq with hq | hge
    · cases Finset.notMem_empty q hq
    · exact Or.inr (by omega)

end Holds

private theorem isAnyIPNetSubsetUtil_rep (family : Family) (h : TrieHeap IPNet) (fuel : ℕ)
    {t1 t2 : BitTrie IPNet} {p1 p2 : Option ℕ} {S1 S2 : Finset ℕ} (h1 : h.Rep t1 p1 S1)
    (h2 : h.Rep t2 p2 S2) (hfuel : t2.size < fuel) (containing contained : Option IPNet) :
    isAnyIPNetSubsetUtil family h fuel p1 p2 containing contained =
      some (NRadixTree.isAnyIPNetSubsetUtil family t1 t2 containing contained) := by
  induction fuel generalizing t1 t2 p1 p2 S1 S2 containing contained with
  | zero => omega
  | succ fuel ih =>
    unfold isAnyIPNetSubsetUtil NRadixTree.isAnyIPNetSubsetUtil
    cases hboth : NRadixTree.bothOfFamily family containing contained with
    | true => rfl
    | false =>
      cases h2 with
      | nil => rfl
      | node hread2 hl2 hr2 _ _ _ =>
        rw [BitTrie.size] at hfuel
        cases h1 with
        | nil =>
          simp only [hread2, Option.bind_eq_bind, Option.bind_some, Bool.false_eq_true, if_false,
            ih .nil hl2 (by omega), ih .nil hr2 (by omega), Bool.false_or]
          cases NRadixTree.isAnyIPNetSubsetUtil family .nil _ containing _ <;> rfl
        | node hread1 hl1 hr1 _ _ _ =>
          simp only [hread1, hread2, Option.bind_eq_bind, Option.bind_some, Bool.false_eq_true,
            if_false, ih hl1 hl2 (by omega), ih hr1 hr2 (by omega), Bool.false_or]
          cases NRadixTree.isAnyIPNetSubsetUtil family _ _ _ _ <;> rfl

theorem isAnyIPNetSubset_holds (family : Family) {h : TrieHeap IPNet} {root other : ℕ}
    {tree tree' : NRadixTree} {S T : Finset ℕ} (hholds : Holds h root tree S)
    (hother : Holds h other tree' T) :
    isAnyIPNetSubset family h root other = some (tree.isAnyIPNetSubset family tree') := by
  have hsize := TrieHeap.Rep.size_le hother
  exact isAnyIPNetSubsetUtil_rep family h _ hholds hother (by omega) none none

end NRadixHeap

end AcsNext.Collector
