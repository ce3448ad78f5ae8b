import AcsNext.Collector.NRadixHeap
import AcsNext.Collector.NRadixFamily

/-! Radix tree objects that live side by side in one memory: each is the set of the prefixes
that its own insertions accepted, whatever is done to the others. -/
namespace AcsNext.Collector
open AcsNext.Data

structure Admitted (l : List IPNet) : Prop where
  pos : ∀ n ∈ l, 0 < n.bits
  distinct : l.Pairwise fun m n => ¬ m.SamePrefix n

namespace Admitted

theorem nil : Admitted [] := ⟨by simp, .nil⟩

theorem append_singleton {l : List IPNet} (hl : Admitted l) {n : IPNet} (hn : 0 < n.bits)
    (hnew : ∀ m ∈ l, ¬ m.SamePrefix n) : Admitted (l ++ [n]) := by
  refine ⟨fun m hm => ?_, List.pairwise_append.mpr ⟨hl.distinct, by simp, by simpa using hnew⟩⟩
  rcases List.mem_append.mp hm with hm | hm
  · exact hl.pos m hm
  · rwa [List.mem_singleton.mp hm]

theorem find?_eq {l : List IPNet} (hl : Admitted l) {n : IPNet} (hn : n ∈ l) :
    l.find? (fun x => decide (x.SamePrefix n)) = some n := by
  obtain ⟨before, after, rfl⟩ := List.append_of_mem hn
  refine List.find?_eq_some_iff_append.mpr ⟨?_, before, after, rfl, fun x hx => ?_⟩
  · simp [IPNet.samePrefix_iff]
  · have hpair := (List.pairwise_append.mp hl.distinct).2.2 x hx n (List.mem_cons_self)
    simpa using hpair

end Admitted

namespace NRadixTree

theorem ofList_append_singleton (l : List IPNet) (n : IPNet) :
    ofList (l ++ [n]) = ((ofList l).insert n).getD (ofList l) := by
  simp only [ofList, List.foldl_append, List.foldl_cons, List.foldl_nil]

theorem insert_ofList_isSome {l : List IPNet} (hl : Admitted l) (n : IPNet) :
    ((ofList l).insert n).isSome = true ↔ 0 < n.bits ∧ ∀ m ∈ l, ¬ m.SamePrefix n := by
  rw [insert_isSome, Bool.and_eq_true, decide_eq_true_eq, Option.isNone_iff_eq_none, get?_ofList,
    List.find?_eq_none]
  refine and_congr_right fun _ => forall₂_congr fun m hm => ?_
  simp [hl.pos m hm, IPNet.samePrefix_iff]

theorem getAll_insert {tree tree' : NRadixTree} {n : IPNet} (h : tree.insert n = some tree') :
    tree'.getAll.Perm (n :: tree.getAll) := by
  have hmap := tree.map_root_insert n
  rw [h] at hmap
  split_ifs at hmap with h0
  · exact BitTrie.toList_insert hmap.symm
  · cases hmap

theorem getAll_ofList_perm {l : List IPNet} (hl : Admitted l) : (ofList l).getAll.Perm l := by
  induction l using List.reverseRecOn with
  | nil => exact .refl _
  | append_singleton l n ih =>
    obtain ⟨hpairs, _, hnew⟩ := List.pairwise_append.mp hl.distinct
    have hl' : Admitted l := ⟨fun m hm => hl.pos m (List.mem_append_left _ hm), hpairs⟩
    have hsome := (insert_ofList_isSome hl' n).mpr
      ⟨hl.pos n (by simp), fun m hm => hnew m hm n (List.mem_singleton_self n)⟩
    obtain ⟨tree, htree⟩ := Option.isSome_iff_exists.mp hsome
    rw [ofList_append_singleton, htree]
    have hcons := (getAll_insert htree).trans ((ih hl').cons n)
    exact hcons.trans (List.perm_append_singleton n l).symm

theorem isEmpty_ofList {l : List IPNet} (hl : Admitted l) :
    (ofList l).isEmpty = true ↔ l = [] := by
  constructor
  · intro hempty
    have hall : (ofList l).getAll = [] := by
      unfold isEmpty at hempty
      split at hempty
      · rename_i hroot
        rw [getAll, hroot]
        rfl
      · cases hempty
    have hperm := getAll_ofList_perm hl
    rw [hall] at hperm
    exact hperm.nil_eq.symm
  · intro h
    subst h
    rfl

end NRadixTree

/-- A tree object, with the record of the networks that its `Insert` calls returned true for. -/
structure TreeObject where
  root : ℕ
  accepted : List IPNet

namespace TreeObject

protected def insert (h : TrieHeap IPNet) (o : TreeObject) (network : IPNet) :
    Option (TrieHeap IPNet × TreeObject × Bool) := do
  let (h, ok) ← NRadixHeap.insert h o.root network
  some (h, if ok then { o with accepted := o.accepted ++ [network] } else o, ok)

def insertAll (h : TrieHeap IPNet) (o : TreeObject) :
    List IPNet → Option (TrieHeap IPNet × TreeObject)
  | [] => some (h, o)
  | network :: networks => do
    let (h, o, _) ← o.insert h network
    o.insertAll h networks

/-- `NRadixTree(networks)`; failed insertions are logged. -/
def construct (h : TrieHeap IPNet) (networks : List IPNet) :
    Option (TrieHeap IPNet × TreeObject) :=
  let (h, root) := h.alloc .empty
  insertAll h ⟨root, []⟩ networks

/-- The object owns the cells of `S`, and they hold the tree of its accepted networks. -/
structure Owns (h : TrieHeap IPNet) (o : TreeObject) (S : Finset ℕ) : Prop where
  holds : NRadixHeap.Holds h o.root (NRadixTree.ofList o.accepted) S
  admitted : Admitted o.accepted

theorem Owns.frame {h h' : TrieHeap IPNet} {o : TreeObject} {S T T' : Finset ℕ}
    (hown : Owns h o S) (htouch : h.Touches h' T T') (hdisj : Disjoint T S) : Owns h' o S :=
  ⟨htouch.rep hown.holds hdisj, hown.admitted⟩

def Refuses (o : TreeObject) (n : IPNet) : Prop :=
  n.isNull = true ∨ n.bits = 0 ∨ ∃ m ∈ o.accepted, m.SamePrefix n

private theorem refuses_iff (o : TreeObject) (n : IPNet) :
    o.Refuses n ↔ ¬ (0 < n.bits ∧ ∀ m ∈ o.accepted, ¬ m.SamePrefix n) := by
  have hnull : n.isNull = true → n.bits = 0 := by
    simp only [IPNet.isNull, Bool.and_eq_true, beq_iff_eq]
    exact And.left
  have hpos : ¬ 0 < n.bits ↔ n.bits = 0 := by omega
  rw [not_and_or, hpos]
  push Not
  exact ⟨fun h => h.elim (fun h => Or.inl (hnull h)) id, Or.inr⟩

theorem insert_owns {h : TrieHeap IPNet} {o : TreeObject} {S : Finset ℕ} (hown : Owns h o S)
    (n : IPNet) :
    ∃ h' o' ok S', o.insert h n = some (h', o', ok) ∧ Owns h' o' S' ∧ h.Touches h' S S' ∧
      o' = { o with accepted := if ok then o.accepted ++ [n] else o.accepted } ∧
      (ok = false ↔ o.Refuses n) := by
  have hrefuses := refuses_iff o n
  rw [← NRadixTree.insert_ofList_isSome hown.admitted] at hrefuses
  unfold TreeObject.insert
  cases hins : (NRadixTree.ofList o.accepted).insert n with
  | none =>
    rw [hins] at hrefuses
    rw [NRadixHeap.insert_holds_none hown.holds hins]
    refine ⟨h, o, false, S, rfl, hown, .refl h S, rfl, ?_⟩
    simp [hrefuses]
  | some tree =>
    rw [hins] at hrefuses
    obtain ⟨h', S', hrun, hholds, htouch⟩ := NRadixHeap.insert_holds_some hown.holds hins
    have hnew := (NRadixTree.insert_ofList_isSome hown.admitted n).mp (by rw [hins]; rfl)
    rw [hrun]
    refine ⟨h', { o with accepted := o.accepted ++ [n] }, true, S', rfl, ⟨?_, ?_⟩, htouch, rfl, ?_⟩
    · rw [NRadixTree.ofList_append_singleton, hins]
      exact hholds
    · exact hown.admitted.append_singleton hnew.1 hnew.2
    · simp [hrefuses]

/-- The accepted networks are those that the pure tree accepts. -/
theorem insertAll_owns (networks : List IPNet) {h : TrieHeap IPNet} {o : TreeObject}
    {S : Finset ℕ} (hown : Owns h o S) :
    ∃ h' o' S', o.insertAll h networks = some (h', o') ∧ Owns h' o' S' ∧ h.Touches h' S S' ∧
      NRadixTree.ofList o'.accepted = NRadixTree.ofList (o.accepted ++ networks) := by
  induction networks generalizing h o S with
  | nil => exact ⟨h, o, S, rfl, hown, .refl h S, by rw [List.append_nil]⟩
  | cons n networks ih =>
    obtain ⟨h1, o1, ok, S1, hrun1, hown1, htouch1, ho1, hok⟩ := insert_owns hown n
    obtain ⟨h2, o2, S2, hrun2, hown2, htouch2, hlist⟩ := ih hown1
    refine ⟨h2, o2, S2, ?_, hown2, htouch1.trans htouch2, ?_⟩
    · rw [insertAll, hrun1]
      exact hrun2
    · have hone : NRadixTree.ofList o1.accepted = NRadixTree.ofList (o.accepted ++ [n]) := by
        subst ho1
        cases ok with
        | true => rfl
        | false =>
          have hrefuses := (refuses_iff o n).mp (hok.mp rfl)
          rw [← NRadixTree.insert_ofList_isSome hown.admitted] at hrefuses
          have hnone := Option.not_isSome_iff_eq_none.mp hrefuses
          rw [NRadixTree.ofList_append_singleton, hnone]
          rfl
      have happend (l : List IPNet) : NRadixTree.ofList (l ++ networks) =
          networks.foldl (fun tree network => (tree.insert network).getD tree)
            (NRadixTree.ofList l) := by
        rw [NRadixTree.ofList, List.foldl_append]
        rfl
      rw [hlist, happend, hone, ← happend, List.append_assoc]
      rfl

theorem construct_owns (h : TrieHeap IPNet) (networks : List IPNet) :
    ∃ h' o S, construct h networks = some (h', o) ∧ Owns h' o S ∧ h.Touches h' ∅ S ∧
      NRadixTree.ofList o.accepted = NRadixTree.ofList networks := by
  obtain ⟨hrep, htouch⟩ := h.alloc_rep none
  have hown : Owns (h.alloc .empty).1 ⟨h.next, []⟩ {h.next} := ⟨hrep, .nil⟩
  obtain ⟨h', o, S, hrun, hown', htouch', hlist⟩ := insertAll_owns networks hown
  exact ⟨h', o, S, hrun, hown', htouch.trans htouch', hlist⟩

end TreeObject

structure Trees where
  heap : TrieHeap IPNet
  objects : ℕ → Option TreeObject

inductive TreeOp where
  | construct (x : ℕ) (networks : List IPNet)
  | insert (x : ℕ) (network : IPNet)
  | copy (x y : ℕ)
  | assign (x y : ℕ)
  | destroy (x : ℕ)

def TreeOp.target : TreeOp → ℕ
  | construct x _ | insert x _ | copy x _ | assign x _ | destroy x => x

namespace Trees

def init : Trees := ⟨.init, fun _ => none⟩

protected def insert (w : Trees) (x : ℕ) (network : IPNet) : Option (Trees × Bool) := do
  let o ← w.objects x
  let (h, o, ok) ← o.insert w.heap network
  some (⟨h, Function.update w.objects x (some o)⟩, ok)

def getAll (w : Trees) (x : ℕ) : Option (List IPNet) := do
  let o ← w.objects x
  NRadixHeap.getAll w.heap o.root

def find (w : Trees) (x : ℕ) (network : IPNet) : Option IPNet := do
  let o ← w.objects x
  NRadixHeap.find w.heap o.root network

def isEmpty (w : Trees) (x : ℕ) : Option Bool := do
  let o ← w.objects x
  NRadixHeap.isEmpty w.heap o.root

/-- One operation; `none` if it uses a variable that holds no object, makes one where there is
one already, or goes wrong in memory. -/
def step (w : Trees) : TreeOp → Option Trees
  | .construct x networks =>
    if (w.objects x).isSome then none
    else do
      let (h, o) ← TreeObject.construct w.heap networks
      some ⟨h, Function.update w.objects x (some o)⟩
  | .insert x network => (w.insert x network).map Prod.fst
  | .copy x y =>
    if (w.objects x).isSome then none
    else do
      let o ← w.objects y
      let (h, root) ← NRadixHeap.copy w.heap o.root
      some ⟨h, Function.update w.objects x (some { o with root := root })⟩
  | .assign x y => do
    let o ← w.objects x
    let other ← w.objects y
    -- an object assigned to itself is left alone
    if x = y then some w
    else do
      let (h, root) ← NRadixHeap.assign w.heap o.root other.root
      some ⟨h, Function.update w.objects x (some { other with root := root })⟩
  | .destroy x => do
    let o ← w.objects x
    let h ← w.heap.delete (w.heap.next + 1) (some o.root)
    some ⟨h, Function.update w.objects x none⟩

def run (w : Trees) (ops : List TreeOp) : Option Trees := ops.foldlM step w

structure Separate (w : Trees) (S : ℕ → Finset ℕ) : Prop where
  owns : ∀ x o, w.objects x = some o → o.Owns w.heap (S x)
  dead : ∀ x, w.objects x = none → S x = ∅
  disjoint : ∀ x y, x ≠ y → Disjoint (S x) (S y)

theorem separate_init : init.Separate fun _ => ∅ :=
  ⟨fun x o hx => by simp [init] at hx, fun _ _ => rfl, fun _ _ _ => Finset.disjoint_empty_left _⟩

section Separate

variable {w : Trees} {S : ℕ → Finset ℕ} (hsep : w.Separate S)

include hsep

/-- An object may be replaced by one on its own cells and fresh ones. -/
private theorem separate_update {x : ℕ} {h : TrieHeap IPNet} {S' : Finset ℕ}
    {v : Option TreeObject} (htouch : w.heap.Touches h (S x) S')
    (hown : ∀ o, v = some o → o.Owns h S') (hdead : v = none → S' = ∅) :
    (Trees.mk h (Function.update w.objects x v)).Separate (Function.update S x S') := by
  have hlt : ∀ y, ∀ q ∈ S y, q < w.heap.next := by
    intro y q hq
    cases hy : w.objects y with
    | none =>
      rw [hsep.dead y hy] at hq
      cases Finset.notMem_empty q hq
    | some o => exact (hsep.owns y o hy).holds.lt_next q hq
  have hdisj : ∀ y, y ≠ x → Disjoint S' (S y) := fun y hy =>
    htouch.disjoint (hlt y) (hsep.disjoint x y hy.symm)
  refine ⟨fun y o hy => ?_, fun y hy => ?_, fun y z hyz => ?_⟩
  · change Function.update w.objects x v y = some o at hy
    by_cases hyx : y = x
    · subst hyx
      rw [Function.update_self] at hy ⊢
      exact hown o hy
    · rw [Function.update_of_ne hyx] at hy ⊢
      exact (hsep.owns y o hy).frame htouch (hsep.disjoint x y (Ne.symm hyx))
  · change Function.update w.objects x v y = none at hy
    by_cases hyx : y = x
    · subst hyx
      rw [Function.update_self] at hy ⊢
      exact hdead hy
    · rw [Function.update_of_ne hyx] at hy ⊢
      exact hsep.dead y hy
  · by_cases hyx : y = x
    · subst hyx
      rw [Function.update_self, Function.update_of_ne hyz.symm]
      exact hdisj z hyz.symm
    · rw [Function.update_of_ne hyx]
      by_cases hzx : z = x
      · subst hzx
        rw [Function.update_self]
        exact (hdisj y hyx).symm
      · rw [Function.update_of_ne hzx]
        exact hsep.disjoint y z hyz

theorem insert_separate {x : ℕ} {o : TreeObject} (hx : w.objects x = some o) (n : IPNet) :
    ∃ w' ok S', w.insert x n = some (w', ok) ∧ w'.Separate S' ∧
      w'.objects = Function.update w.objects x
        (some { o with accepted := if ok then o.accepted ++ [n] else o.accepted }) ∧
      (ok = false ↔ o.Refuses n) := by
  obtain ⟨h', o', ok, S', hrun, hown, htouch, ho', hok⟩ := TreeObject.insert_owns (hsep.owns x o hx) n
  refine ⟨⟨h', Function.update w.objects x (some o')⟩, ok, Function.update S x S', ?_, ?_, ?_, hok⟩
  · unfold Trees.insert
    rw [hx]
    simp only [Option.bind_eq_bind, Option.bind_some, hrun]
  · refine separate_update hsep htouch (fun v hv => ?_) (fun hnone => by cases hnone)
    rwa [← Option.some.inj hv]
  · rw [ho']

theorem construct_separate {x : ℕ} (hx : w.objects x = none) (networks : List IPNet) :
    ∃ w' o S', w.step (.construct x networks) = some w' ∧ w'.Separate S' ∧
      w'.objects = Function.update w.objects x (some o) := by
  obtain ⟨h', o, S', hrun, hown, htouch, _⟩ := TreeObject.construct_owns w.heap networks
  rw [← hsep.dead x hx] at htouch
  refine ⟨⟨h', Function.update w.objects x (some o)⟩, o, Function.update S x S', ?_, ?_, rfl⟩
  · simp only [step, hx, Option.isSome_none, Bool.false_eq_true, if_false, hrun,
      Option.bind_eq_bind, Option.bind_some]
  · refine separate_update hsep htouch (fun v hv => ?_) (fun hnone => by cases hnone)
    rwa [← Option.some.inj hv]

theorem copy_separate {x y : ℕ} {o : TreeObject} (hx : w.objects x = none)
    (hy : w.objects y = some o) :
    ∃ w' root S', w.step (.copy x y) = some w' ∧ w'.Separate S' ∧
      w'.objects = Function.update w.objects x (some { o with root := root }) := by
  have hown := hsep.owns y o hy
  obtain ⟨h', root, S', hrun, hholds, htouch⟩ := NRadixHeap.copy_holds hown.holds
  rw [← hsep.dead x hx] at htouch
  refine ⟨⟨h', Function.update w.objects x (some { o with root := root })⟩, root,
    Function.update S x S', ?_, ?_, rfl⟩
  · simp only [step, hx, hy, Option.isSome_none, Bool.false_eq_true, if_false, hrun,
      Option.bind_eq_bind, Option.bind_some]
  · refine separate_update hsep htouch (fun v hv => ?_) (fun hnone => by cases hnone)
    rw [← Option.some.inj hv]
    exact ⟨hholds, hown.admitted⟩

theorem assign_separate {x y : ℕ} {o other : TreeObject} (hx : w.objects x = some o)
    (hy : w.objects y = some other) :
    ∃ w' root S', w.step (.assign x y) = some w' ∧ w'.Separate S' ∧
      w'.objects = Function.update w.objects x (some { other with root := root }) := by
  by_cases hxy : x = y
  · subst hxy
    obtain rfl : o = other := Option.some.inj (hx.symm.trans hy)
    refine ⟨w, o.root, S, ?_, hsep, ?_⟩
    · simp only [step, hx, if_true, Option.bind_eq_bind, Option.bind_some]
    · rw [← hx, Function.update_eq_self]
  · have hown := hsep.owns y other hy
    obtain ⟨h', root, S', hrun, hholds, htouch⟩ := NRadixHeap.assign_holds (hsep.owns x o hx).holds
      hown.holds (hsep.disjoint x y hxy)
    refine ⟨⟨h', Function.update w.objects x (some { other with root := root })⟩, root,
      Function.update S x S', ?_, ?_, rfl⟩
    · simp only [step, hx, hy, hxy, if_false, hrun, Option.bind_eq_bind, Option.bind_some]
    · refine separate_update hsep htouch (fun v hv => ?_) (fun hnone => by cases hnone)
      rw [← Option.some.inj hv]
      exact ⟨hholds, hown.admitted⟩

theorem destroy_separate {x : ℕ} {o : TreeObject} (hx : w.objects x = some o) :
    ∃ w' S', w.step (.destroy x) = some w' ∧ w'.Separate S' ∧
      w'.objects = Function.update w.objects x none := by
  have hholds := (hsep.owns x o hx).holds
  have hsize := TrieHeap.Rep.size_le hholds
  obtain ⟨h', hdelete, hnext, hcells⟩ := TrieHeap.delete_rep hholds (w.heap.next + 1) (by omega)
  refine ⟨⟨h', Function.update w.objects x none⟩, Function.update S x ∅, ?_, ?_, rfl⟩
  · simp only [step, hx, hdelete, Option.bind_eq_bind, Option.bind_some]
  · refine separate_update hsep ⟨hnext.ge, fun q _ hq => ?_, fun q hq => ?_⟩
      (fun v hv => by cases hv) (fun _ => rfl)
    · rw [hcells, if_neg hq]
    · cases Finset.notMem_empty q hq

/-- An operation that goes through keeps the objects apart and leaves all but its target
alone. -/
theorem step_separate {op : TreeOp} {w' : Trees} (hstep : w.step op = some w') :
    ∃ S', w'.Separate S' ∧ ∀ y ≠ op.target, w'.objects y = w.objects y := by
  have hother {x : ℕ} {v : Option TreeObject} (hobj : w'.objects = Function.update w.objects x v) :
      ∀ y ≠ x, w'.objects y = w.objects y := fun y hy => by rw [hobj, Function.update_of_ne hy]
  cases op with
  | construct x networks =>
    cases hx : w.objects x with
    | some o => simp [step, hx] at hstep
    | none =>
      obtain ⟨w1, o, S', hrun, hsep', hobj⟩ := construct_separate hsep hx networks
      obtain rfl : w1 = w' := Option.some.inj (hrun.symm.trans hstep)
      exact ⟨S', hsep', hother hobj⟩
  | insert x n =>
    cases hx : w.objects x with
    | none => simp [step, Trees.insert, hx] at hstep
    | some o =>
      obtain ⟨w1, ok, S', hrun, hsep', hobj, _⟩ := insert_separate hsep hx n
      rw [step, hrun] at hstep
      obtain rfl : w1 = w' := Option.some.inj hstep
      exact ⟨S', hsep', hother hobj⟩
  | copy x y =>
    cases hx : w.objects x with
    | some o => simp [step, hx] at hstep
    | none =>
      cases hy : w.objects y with
      | none => simp [step, hx, hy] at hstep
      | some o =>
        obtain ⟨w1, root, S', hrun, hsep', hobj⟩ := copy_separate hsep hx hy
        obtain rfl : w1 = w' := Option.some.inj (hrun.symm.trans hstep)
        exact ⟨S', hsep', hother hobj⟩
  | assign x y =>
    cases hx : w.objects x with
    | none => simp [step, hx] at hstep
    | some o =>
      cases hy : w.objects y with
      | none => simp [step, hx, hy] at hstep
      | some other =>
        obtain ⟨w1, root, S', hrun, hsep', hobj⟩ := assign_separate hsep hx hy
        obtain rfl : w1 = w' := Option.some.inj (hrun.symm.trans hstep)
        exact ⟨S', hsep', hother hobj⟩
  | destroy x =>
    cases hx : w.objects x with
    | none => simp [step, hx] at hstep
    | some o =>
      obtain ⟨w1, S', hrun, hsep', hobj⟩ := destroy_separate hsep hx
      obtain rfl : w1 = w' := Option.some.inj (hrun.symm.trans hstep)
      exact ⟨S', hsep', hother hobj⟩

def Valid (w : Trees) : TreeOp → Prop
  | .construct x _ => w.objects x = none
  | .insert x _ | .destroy x => (w.objects x).isSome
  | .copy x y => w.objects x = none ∧ (w.objects y).isSome
  | .assign x y => (w.objects x).isSome ∧ (w.objects y).isSome

omit hsep in
private theorem valid_of_step {op : TreeOp} (hstep : (w.step op).isSome) : w.Valid op := by
  cases op with
  | construct x networks => cases hx : w.objects x <;> simp_all [step, Valid]
  | insert x n => cases hx : w.objects x <;> simp_all [step, Valid, Trees.insert]
  | copy x y =>
    cases hx : w.objects x <;> cases hy : w.objects y <;> simp_all [step, Valid]
  | assign x y =>
    cases hx : w.objects x <;> cases hy : w.objects y <;> simp_all [step, Valid]
  | destroy x => cases hx : w.objects x <;> simp_all [step, Valid]

/-- No operation reads, writes or frees memory that it should not. -/
theorem step_isSome_iff (op : TreeOp) : (w.step op).isSome ↔ w.Valid op := by
  refine ⟨valid_of_step, fun hvalid => ?_⟩
  cases op with
  | construct x networks =>
    obtain ⟨w', _, _, hrun, _⟩ := construct_separate hsep hvalid networks
    rw [hrun]
    rfl
  | insert x n =>
    obtain ⟨o, ho⟩ := Option.isSome_iff_exists.mp hvalid
    obtain ⟨w', _, _, hrun, _⟩ := insert_separate hsep ho n
    rw [step, hrun]
    rfl
  | copy x y =>
    obtain ⟨o, ho⟩ := Option.isSome_iff_exists.mp hvalid.2
    obtain ⟨w', _, _, hrun, _⟩ := copy_separate hsep hvalid.1 ho
    rw [hrun]
    rfl
  | assign x y =>
    obtain ⟨o, ho⟩ := Option.isSome_iff_exists.mp hvalid.1
    obtain ⟨other, hother⟩ := Option.isSome_iff_exists.mp hvalid.2
    obtain ⟨w', _, _, hrun, _⟩ := assign_separate hsep ho hother
    rw [hrun]
    rfl
  | destroy x =>
    obtain ⟨o, ho⟩ := Option.isSome_iff_exists.mp hvalid
    obtain ⟨w', _, hrun, _⟩ := destroy_separate hsep ho
    rw [hrun]
    rfl

theorem run_separate {ops : List TreeOp} {w' : Trees} (hrun : w.run ops = some w') :
    ∃ S', w'.Separate S' ∧ ∀ y, (∀ op ∈ ops, op.target ≠ y) → w'.objects y = w.objects y := by
  induction ops generalizing w S with
  | nil =>
    obtain rfl : w = w' := Option.some.inj hrun
    exact ⟨S, hsep, fun _ _ => rfl⟩
  | cons op ops ih =>
    rw [run, List.foldlM_cons] at hrun
    obtain ⟨w1, hstep, hrun⟩ := Option.bind_eq_some_iff.mp hrun
    obtain ⟨S1, hsep1, hobj1⟩ := step_separate hsep hstep
    obtain ⟨S', hsep', hobj'⟩ := ih hsep1 hrun
    refine ⟨S', hsep', fun y hy => ?_⟩
    rw [hobj' y fun op' hop' => hy op' (List.mem_cons_of_mem _ hop'),
      hobj1 y (hy op List.mem_cons_self).symm]

theorem getAll_separate {x : ℕ} {o : TreeObject} (hx : w.objects x = some o) :
    w.getAll x = some (NRadixTree.ofList o.accepted).getAll := by
  rw [getAll, hx]
  exact NRadixHeap.getAll_holds (hsep.owns x o hx).holds

theorem find_separate {x : ℕ} {o : TreeObject} (hx : w.objects x = some o) (q : IPNet) :
    w.find x q = some ((NRadixTree.ofList o.accepted).find q) := by
  rw [find, hx]
  exact NRadixHeap.find_holds (hsep.owns x o hx).holds q

theorem isEmpty_separate {x : ℕ} {o : TreeObject} (hx : w.objects x = some o) :
    w.isEmpty x = some (NRadixTree.ofList o.accepted).isEmpty := by
  rw [isEmpty, hx]
  exact NRadixHeap.isEmpty_holds (hsep.owns x o hx).holds

end Separate

def SameAnswers (w : Trees) (x : ℕ) (w' : Trees) (x' : ℕ) : Prop :=
  w.getAll x = w'.getAll x' ∧ ∀ q, w.find x q = w'.find x' q

section SameAnswers

variable {w w' : Trees} {S S' : ℕ → Finset ℕ} (hsep : w.Separate S) (hsep' : w'.Separate S')

include hsep hsep'

theorem sameAnswers_of_accepted {x x' : ℕ} {o o' : TreeObject} (hx : w.objects x = some o)
    (hx' : w'.objects x' = some o') (hacc : o.accepted = o'.accepted) :
    w.SameAnswers x w' x' := by
  refine ⟨?_, fun q => ?_⟩
  · rw [getAll_separate hsep hx, getAll_separate hsep' hx', hacc]
  · rw [find_separate hsep hx, find_separate hsep' hx', hacc]

theorem sameAnswers_of_objects {x : ℕ} (hx : w.objects x = w'.objects x) :
    w.SameAnswers x w' x := by
  cases ho : w'.objects x with
  | none =>
    rw [ho] at hx
    simp only [SameAnswers, getAll, find, ho, hx]
    exact ⟨rfl, fun _ => rfl⟩
  | some o => exact sameAnswers_of_accepted hsep hsep' (hx.trans ho) ho rfl

end SameAnswers

/-- In every state that operations on tree objects lead to, a tree is the set of the prefixes
that it accepted. `Insert` refuses the null network, the empty prefix and a prefix that is
there already, and then changes no answer; `GetAll` has the accepted networks once each;
`IsEmpty` tells whether there are any; a copy answers like its original; and nothing done
to other objects changes the answers of a tree. -/
theorem tree_is_set_of_prefixes (ops : List TreeOp) (w : Trees) (hrun : init.run ops = some w)
    (x : ℕ) (o : TreeObject) (hx : w.objects x = some o) :
    (∀ n, ∃ w' ok, w.insert x n = some (w', ok) ∧
      (ok = false ↔ n.isNull = true ∨ n.bits = 0 ∨ ∃ m ∈ o.accepted, m.SamePrefix n) ∧
      w'.objects x = some { o with accepted := if ok then o.accepted ++ [n] else o.accepted } ∧
      ∀ y, ok = false ∨ y ≠ x → w'.SameAnswers y w y) ∧
    (∃ l, w.getAll x = some l ∧ l.Perm o.accepted) ∧
    (∃ b, w.isEmpty x = some b ∧ (b = true ↔ o.accepted = [])) ∧
    (∀ y, w.objects y = none → ∃ w', w.step (.copy y x) = some w' ∧ w'.SameAnswers y w x ∧
      ∀ z ≠ y, w'.SameAnswers z w z) ∧
    (∀ y, (w.objects y).isSome → ∃ w', w.step (.assign y x) = some w' ∧ w'.SameAnswers y w x ∧
      ∀ z ≠ y, w'.SameAnswers z w z) ∧
    (∀ later w', w.run later = some w' → (∀ op ∈ later, op.target ≠ x) → w'.SameAnswers x w x) := by
  obtain ⟨S, hsep, _⟩ := run_separate separate_init hrun
  refine ⟨fun n => ?_, ?_, ?_, fun y hy => ?_, fun y hy => ?_, fun later w' hlater hop => ?_⟩
  · obtain ⟨w', ok, S', hins, hsep', hobj, hok⟩ := insert_separate hsep hx n
    have hself := congrFun hobj x
    rw [Function.update_self] at hself
    refine ⟨w', ok, hins, hok, hself, fun y hy => sameAnswers_of_objects hsep' hsep ?_⟩
    by_cases hyx : y = x
    · have hfalse : ok = false := hy.elim id fun hne => absurd hyx hne
      rw [hyx, hself, hx, hfalse]
      rfl
    · rw [hobj, Function.update_of_ne hyx]
  · exact ⟨_, getAll_separate hsep hx, NRadixTree.getAll_ofList_perm (hsep.owns x o hx).admitted⟩
  · exact ⟨_, isEmpty_separate hsep hx, NRadixTree.isEmpty_ofList (hsep.owns x o hx).admitted⟩
  · obtain ⟨w', root, S', hstep, hsep', hobj⟩ := copy_separate hsep hy hx
    have hself := congrFun hobj y
    rw [Function.update_self] at hself
    refine ⟨w', hstep, sameAnswers_of_accepted hsep' hsep hself hx rfl, fun z hz => ?_⟩
    exact sameAnswers_of_objects hsep' hsep (by rw [hobj, Function.update_of_ne hz])
  · obtain ⟨oy, hoy⟩ := Option.isSome_iff_exists.mp hy
    obtain ⟨w', root, S', hstep, hsep', hobj⟩ := assign_separate hsep hoy hx
    have hself := congrFun hobj y
    rw [Function.update_self] at hself
    refine ⟨w', hstep, sameAnswers_of_accepted hsep' hsep hself hx rfl, fun z hz => ?_⟩
    exact sameAnswers_of_objects hsep' hsep (by rw [hobj, Function.update_of_ne hz])
  · obtain ⟨S', hsep', hobj⟩ := run_separate hsep hlater
    exact sameAnswers_of_objects hsep' hsep (hobj x hop)

/-- 10.0.0.0/8, a copy of that tree, and 10.1.0.0/16 in the copy. -/
def copiedTree : List TreeOp :=
  [.construct 0 [.new (.ofBytes 10 0 0 0) 8 false], .copy 1 0,
    .insert 1 (.new (.ofBytes 10 1 0 0) 16 false)]

theorem tree_is_set_of_prefixes_copied :
    ∃ w o l, init.run copiedTree = some w ∧ w.objects 0 = some o ∧
      o.accepted = [.new (.ofBytes 10 0 0 0) 8 false] ∧ w.getAll 0 = some l ∧
      l.Perm o.accepted := by
  have hacc : ((init.run copiedTree).bind fun w => (w.objects 0).map TreeObject.accepted) =
      some [.new (.ofBytes 10 0 0 0) 8 false] := by decide +kernel
  obtain ⟨w, hrun, hw⟩ := Option.bind_eq_some_iff.mp hacc
  obtain ⟨o, ho, hoacc⟩ := Option.map_eq_some_iff.mp hw
  obtain ⟨l, hl, hperm⟩ := (tree_is_set_of_prefixes copiedTree w hrun 0 o ho).2.1
  exact ⟨w, o, l, hrun, ho, hoacc, hl, hperm⟩

end Trees

end AcsNext.Collector
