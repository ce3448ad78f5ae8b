import AcsNext.Data.BitTrie

/-! Binary tries as linked cells of a heap. A pointer represents a trie together with the set
of cells it owns, so that what a routine may touch is part of its specification. -/
namespace AcsNext.Data

structure TrieCell (α : Type) where
  value : Option α
  left : Option ℕ
  right : Option ℕ

namespace TrieCell

variable {α : Type}

def empty : TrieCell α := ⟨none, none, none⟩

def child (b : Bool) (c : TrieCell α) : Option ℕ := if b then c.right else c.left

def setChild (b : Bool) (p : Option ℕ) (c : TrieCell α) : TrieCell α :=
  if b then { c with right := p } else { c with left := p }

@[simp] theorem value_setChild (b : Bool) (p : Option ℕ) (c : TrieCell α) :
    (c.setChild b p).value = c.value := by
  cases b <;> rfl

@[simp] theorem child_setChild (b : Bool) (p : Option ℕ) (c : TrieCell α) :
    (c.setChild b p).child b = p := by
  cases b <;> rfl

theorem setChild_child (b : Bool) (c : TrieCell α) : c.setChild b (c.child b) = c := by
  cases b <;> rfl

@[simp] theorem child_not_setChild (b : Bool) (p : Option ℕ) (c : TrieCell α) :
    (c.setChild b p).child (!b) = c.child (!b) := by
  cases b <;> rfl

end TrieCell

/-- Cells from `next` on have never been allocated. -/
structure TrieHeap (α : Type) where
  cells : ℕ → Option (TrieCell α)
  next : ℕ
  fresh : ∀ p, next ≤ p → cells p = none

namespace TrieHeap

variable {α : Type}

def init : TrieHeap α := ⟨fun _ => none, 0, fun _ _ => rfl⟩

theorem lt_next {h : TrieHeap α} {p : ℕ} {c : TrieCell α} (hp : h.cells p = some c) :
    p < h.next := by
  by_contra hge
  have hnone := h.fresh p (by omega)
  rw [hp] at hnone
  cases hnone

/-- `new`: the address handed out was never in use before. -/
def alloc (h : TrieHeap α) (c : TrieCell α) : TrieHeap α × ℕ :=
  (⟨Function.update h.cells h.next (some c), h.next + 1, fun p hp => by
    rw [Function.update_of_ne (by omega)]
    exact h.fresh p (by omega)⟩, h.next)

/-- A write through a pointer; `none` if the cell is not allocated. -/
def write (h : TrieHeap α) (p : ℕ) (c : TrieCell α) : Option (TrieHeap α) :=
  if hp : (h.cells p).isSome then
    some ⟨Function.update h.cells p (some c), h.next, fun q hq => by
      obtain ⟨d, hd⟩ := Option.isSome_iff_exists.mp hp
      have hlt := lt_next hd
      rw [Function.update_of_ne (by omega)]
      exact h.fresh q hq⟩
  else none

/-- `delete`; `none` if the cell is not allocated. -/
def free (h : TrieHeap α) (p : ℕ) : Option (TrieHeap α) :=
  if (h.cells p).isSome then
    some ⟨Function.update h.cells p none, h.next, fun q hq => by
      by_cases hqp : q = p
      · rw [hqp, Function.update_self]
      · rw [Function.update_of_ne hqp]
        exact h.fresh q hq⟩
  else none

@[simp] theorem snd_alloc (h : TrieHeap α) (c : TrieCell α) : (h.alloc c).2 = h.next := rfl

@[simp] theorem next_alloc (h : TrieHeap α) (c : TrieCell α) :
    (h.alloc c).1.next = h.next + 1 := rfl

theorem cells_alloc (h : TrieHeap α) (c : TrieCell α) (q : ℕ) :
    (h.alloc c).1.cells q = if q = h.next then some c else h.cells q := by
  simp only [alloc, Function.update_apply]

theorem exists_write {h : TrieHeap α} {p : ℕ} {d : TrieCell α} (hp : h.cells p = some d)
    (c : TrieCell α) :
    ∃ h', h.write p c = some h' ∧ h'.next = h.next ∧
      ∀ q, h'.cells q = if q = p then some c else h.cells q := by
  have hsome : (h.cells p).isSome = true := by rw [hp]; rfl
  refine ⟨_, dif_pos hsome, rfl, fun q => ?_⟩
  simp only [Function.update_apply]

theorem exists_free {h : TrieHeap α} {p : ℕ} {d : TrieCell α} (hp : h.cells p = some d) :
    ∃ h', h.free p = some h' ∧ h'.next = h.next ∧
      ∀ q, h'.cells q = if q = p then none else h.cells q := by
  have hsome : (h.cells p).isSome = true := by rw [hp]; rfl
  refine ⟨_, if_pos hsome, rfl, fun q => ?_⟩
  simp only [Function.update_apply]

/-- The pointer `p` is the root of the trie `t`, whose cells are those of `S`; no cell is
shared between two subtrees. -/
inductive Rep (h : TrieHeap α) : BitTrie α → Option ℕ → Finset ℕ → Prop where
  | nil : Rep h .nil none ∅
  | node {p : ℕ} {c : TrieCell α} {l r : BitTrie α} {Sl Sr : Finset ℕ}
      (hread : h.cells p = some c) (hl : Rep h l c.left Sl) (hr : Rep h r c.right Sr)
      (hpl : p ∉ Sl) (hpr : p ∉ Sr) (hlr : Disjoint Sl Sr) :
      Rep h (.node c.value l r) (some p) (insert p (Sl ∪ Sr))

namespace Rep

variable {h h' : TrieHeap α} {t : BitTrie α} {p : Option ℕ} {S : Finset ℕ}

theorem lt_next (hrep : h.Rep t p S) : ∀ q ∈ S, q < h.next := by
  induction hrep with
  | nil => simp
  | node hread _ _ _ _ _ ihl ihr =>
    intro q hq
    rw [Finset.mem_insert, Finset.mem_union] at hq
    rcases hq with rfl | hq | hq
    · exact TrieHeap.lt_next hread
    · exact ihl q hq
    · exact ihr q hq

theorem frame (hrep : h.Rep t p S) (hcells : ∀ q ∈ S, h'.cells q = h.cells q) :
    h'.Rep t p S := by
  induction hrep with
  | nil => exact .nil
  | node hread _ _ hpl hpr hlr ihl ihr =>
    refine .node ?_ (ihl fun q hq => ?_) (ihr fun q hq => ?_) hpl hpr hlr
    · rw [hcells _ (Finset.mem_insert_self _ _), hread]
    · exact hcells q (Finset.mem_insert_of_mem (Finset.mem_union_left _ hq))
    · exact hcells q (Finset.mem_insert_of_mem (Finset.mem_union_right _ hq))

/-- A pointer represents at most one trie, in one way. -/
theorem unique {t' : BitTrie α} {S' : Finset ℕ} (hrep : h.Rep t p S) (hrep' : h.Rep t' p S') :
    t = t' ∧ S = S' := by
  induction hrep generalizing t' S' with
  | nil =>
    cases hrep'
    exact ⟨rfl, rfl⟩
  | node hread _ _ _ _ _ ihl ihr =>
    cases hrep' with
    | node hread' hl' hr' _ _ _ =>
      have hc := hread.symm.trans hread'
      rw [Option.some.injEq] at hc
      subst hc
      obtain ⟨rfl, rfl⟩ := ihl hl'
      obtain ⟨rfl, rfl⟩ := ihr hr'
      exact ⟨rfl, rfl⟩

/-- The cell of a root, seen from the side that a bit selects. -/
theorem split {p : ℕ} (hrep : h.Rep t (some p) S) (b : Bool) :
    ∃ c x y Sx Sy, h.cells p = some c ∧ t = .join b c.value x y ∧ h.Rep x (c.child b) Sx ∧
      h.Rep y (c.child !b) Sy ∧ p ∉ Sx ∧ p ∉ Sy ∧ Disjoint Sx Sy ∧ S = insert p (Sx ∪ Sy) := by
  cases hrep with
  | @node _ c l r Sl Sr hread hl hr hpl hpr hlr =>
    cases b
    · exact ⟨c, l, r, Sl, Sr, hread, rfl, hl, hr, hpl, hpr, hlr, rfl⟩
    · exact ⟨c, r, l, Sr, Sl, hread, rfl, hr, hl, hpr, hpl, hlr.symm, by rw [Finset.union_comm]⟩

theorem join {p : ℕ} {c : TrieCell α} {b : Bool} {x y : BitTrie α} {Sx Sy : Finset ℕ}
    (hread : h.cells p = some c) (hx : h.Rep x (c.child b) Sx) (hy : h.Rep y (c.child !b) Sy)
    (hpx : p ∉ Sx) (hpy : p ∉ Sy) (hxy : Disjoint Sx Sy) :
    h.Rep (.join b c.value x y) (some p) (insert p (Sx ∪ Sy)) := by
  cases b
  · exact .node hread hx hy hpx hpy hxy
  · rw [Finset.union_comm]
    exact .node hread hy hx hpy hpx hxy.symm

end Rep

/-- From `h` to `h'` only the cells of `S` and fresh ones changed, and `S'` has no others. -/
structure Touches (h h' : TrieHeap α) (S S' : Finset ℕ) : Prop where
  next_le : h.next ≤ h'.next
  cells_eq : ∀ q < h.next, q ∉ S → h'.cells q = h.cells q
  footprint : ∀ q ∈ S', q ∈ S ∨ h.next ≤ q

namespace Touches

variable {h h' : TrieHeap α} {S S' : Finset ℕ}

theorem refl (h : TrieHeap α) (S : Finset ℕ) : h.Touches h S S :=
  ⟨le_rfl, fun _ _ _ => rfl, fun _ hq => Or.inl hq⟩

theorem trans {h'' : TrieHeap α} {S'' : Finset ℕ} (h1 : h.Touches h' S S')
    (h2 : h'.Touches h'' S' S'') : h.Touches h'' S S'' := by
  have hle := h1.next_le
  refine ⟨h1.next_le.trans h2.next_le, fun q hq hqS => ?_, fun q hq => ?_⟩
  · rw [h2.cells_eq q (by omega) fun hqS' => ?_, h1.cells_eq q hq hqS]
    rcases h1.footprint q hqS' with hq' | hge
    · exact hqS hq'
    · omega
  · rcases h2.footprint q hq with hq' | hge
    · exact h1.footprint q hq'
    · exact Or.inr (by omega)

theorem rep (htouch : h.Touches h' S S') {t : BitTrie α} {p : Option ℕ} {T : Finset ℕ}
    (hrep : h.Rep t p T) (hdisj : Disjoint S T) : h'.Rep t p T := by
  refine hrep.frame fun q hq => htouch.cells_eq q (hrep.lt_next q hq) fun hqS => ?_
  exact Finset.disjoint_left.mp hdisj hqS hq

theorem disjoint (htouch : h.Touches h' S S') {T : Finset ℕ} (hT : ∀ q ∈ T, q < h.next)
    (hdisj : Disjoint S T) : Disjoint S' T := by
  refine Finset.disjoint_left.mpr fun q hqS' hqT => ?_
  have hlt := hT q hqT
  rcases htouch.footprint q hqS' with hqS | hge
  · exact Finset.disjoint_left.mp hdisj hqS hqT
  · omega

end Touches

theorem alloc_rep (h : TrieHeap α) (v : Option α) :
    (h.alloc ⟨v, none, none⟩).1.Rep (.node v .nil .nil) (some h.next) {h.next} ∧
      h.Touches (h.alloc ⟨v, none, none⟩).1 ∅ {h.next} := by
  have hread : (h.alloc ⟨v, none, none⟩).1.cells h.next = some ⟨v, none, none⟩ := by
    rw [cells_alloc, if_pos rfl]
  refine ⟨.node hread .nil .nil ?_ ?_ ?_, ?_, fun q hq _ => ?_, fun q hq => Or.inr ?_⟩
  · exact Finset.notMem_empty _
  · exact Finset.notMem_empty _
  · exact Finset.disjoint_empty_left _
  · rw [next_alloc]
    omega
  · rw [cells_alloc, if_neg hq.ne]
  · exact (Finset.mem_singleton.mp hq).ge

/-- Follows the path while its nodes exist; returns the last node and the rest of the path. -/
def descend (h : TrieHeap α) : List Bool → ℕ → Option (ℕ × List Bool)
  | [], p => some (p, [])
  | b :: path, p => do
    let c ← h.cells p
    match c.child b with
    | none => some (p, b :: path)
    | some q => h.descend path q

/-- Hangs a chain of new nodes below `p`, one for each turn; returns the last of them. -/
def extend (h : TrieHeap α) : List Bool → ℕ → Option (TrieHeap α × ℕ)
  | [], p => some (h, p)
  | b :: path, p => do
    let (h, q) := h.alloc .empty
    let c ← h.cells p
    let h ← h.write p (c.setChild b (some q))
    h.extend path q

def setValue (h : TrieHeap α) (p : ℕ) (a : α) : Option (TrieHeap α) := do
  let c ← h.cells p
  h.write p { c with value := some a }

/-- What is left to do at the node where `descend` stopped. -/
def place (h : TrieHeap α) (a : α) : ℕ × List Bool → Option (TrieHeap α × Bool)
  | (p, []) => do
    let c ← h.cells p
    if c.value.isSome then some (h, false)
    else (h.setValue p a).map fun h => (h, true)
  | (p, rest) => do
    let (h, p) ← h.extend rest p
    (h.setValue p a).map fun h => (h, true)

/-- Insertion at a path below `p`; `false` if the path is occupied. -/
protected def insert (h : TrieHeap α) (p : ℕ) (path : List Bool) (a : α) :
    Option (TrieHeap α × Bool) := do
  let stop ← h.descend path p
  h.place a stop

def find (h : TrieHeap α) : List Bool → Option ℕ → Option α → Option (Option α)
  | _, none, ret => some ret
  | [], some p, ret => do
    let c ← h.cells p
    some (c.value.or ret)
  | b :: path, some p, ret => do
    let c ← h.cells p
    h.find path (c.child b) (c.value.or ret)

theorem find_rep {h : TrieHeap α} {t : BitTrie α} {p : Option ℕ} {S : Finset ℕ}
    (hrep : h.Rep t p S) (path : List Bool) (ret : Option α) :
    h.find path p ret = some (t.find path ret) := by
  induction path generalizing t p S ret with
  | nil =>
    cases hrep with
    | nil => rfl
    | node hread _ _ _ _ _ => simp [find, hread, BitTrie.find]
  | cons b path ih =>
    cases p with
    | none =>
      cases hrep
      rfl
    | some p =>
      obtain ⟨c, x, y, Sx, Sy, hread, rfl, hx, _⟩ := hrep.split b
      rw [BitTrie.find_join, find, hread]
      exact ih hx _

private theorem exists_setValue {h : TrieHeap α} {p : ℕ} {c : TrieCell α}
    (hp : h.cells p = some c) (a : α) :
    ∃ h', h.setValue p a = some h' ∧ h'.next = h.next ∧
      ∀ q, h'.cells q = if q = p then some { c with value := some a } else h.cells q := by
  unfold setValue
  rw [hp]
  exact exists_write hp _

private theorem extend_cons {h : TrieHeap α} {p : ℕ} {c : TrieCell α} (hp : h.cells p = some c)
    (b : Bool) (path : List Bool) :
    ∃ h' : TrieHeap α, h.extend (b :: path) p = h'.extend path h.next ∧ h'.next = h.next + 1 ∧
      h'.cells h.next = some .empty ∧ h'.cells p = some (c.setChild b (some h.next)) ∧
      ∀ q, q ≠ p → q ≠ h.next → h'.cells q = h.cells q := by
  have hpn : p ≠ h.next := (TrieHeap.lt_next hp).ne
  have hp1 : (h.alloc .empty).1.cells p = some c := by rw [cells_alloc, if_neg hpn, hp]
  obtain ⟨h', hwrite, hnext, hcells⟩ := exists_write hp1 (c.setChild b (some h.next))
  refine ⟨h', ?_, hnext, ?_, ?_, fun q hqp hqn => ?_⟩
  · rw [extend]
    simp only [snd_alloc, hp1, hwrite, Option.bind_eq_bind, Option.bind_some]
  · rw [hcells, if_neg hpn.symm, cells_alloc, if_pos rfl]
  · rw [hcells, if_pos rfl]
  · rw [hcells, if_neg hqp, cells_alloc, if_neg hqn]

private theorem setValue_rep {h : TrieHeap α} {t : BitTrie α} {p : ℕ} {S : Finset ℕ}
    (hrep : h.Rep t (some p) S) (hvacant : t.get? [] = none) (a : α) :
    ∃ h' t', h.setValue p a = some h' ∧ t.insert [] a = some t' ∧ h'.Rep t' (some p) S ∧
      h.Touches h' S S := by
  cases hrep with
  | @node _ c l r Sl Sr hread hl hr hpl hpr hlr =>
    obtain ⟨h', hset, hnext, hcells⟩ := exists_setValue hread a
    have hsame : ∀ q, q ≠ p → h'.cells q = h.cells q := fun q hq => by rw [hcells, if_neg hq]
    have hvalue : c.value = none := hvacant
    have hread' : h'.cells p = some { c with value := some a } := by rw [hcells, if_pos rfl]
    have hl' : h'.Rep l c.left Sl := hl.frame fun q hq => hsame q fun hqp => hpl (hqp ▸ hq)
    have hr' : h'.Rep r c.right Sr := hr.frame fun q hq => hsame q fun hqp => hpr (hqp ▸ hq)
    refine ⟨h', .node (some a) l r, hset, ?_, .node hread' hl' hr' hpl hpr hlr, ?_⟩
    · rw [hvalue]
      rfl
    · refine ⟨hnext.ge, fun q _ hq => hsame q fun hqp => hq ?_, fun q hq => Or.inl hq⟩
      rw [hqp]
      exact Finset.mem_insert_self p _

/-- At the node where a descent stops, extending and storing is insertion. -/
private theorem extend_rep (path : List Bool) (a : α) {h : TrieHeap α} {t : BitTrie α} {p : ℕ}
    {S : Finset ℕ} (hrep : h.Rep t (some p) S)
    (hstop : ∀ b rest, path = b :: rest → t.child b = .nil)
    (hvacant : path = [] → t.get? [] = none) :
    ∃ h' t' S', (h.extend path p).bind (fun s => s.1.setValue s.2 a) = some h' ∧
      t.insert path a = some t' ∧ h'.Rep t' (some p) S' ∧ h.Touches h' S S' := by
  induction path generalizing h t p S with
  | nil =>
    obtain ⟨h', t', hset, hins, hrep', htouch⟩ := setValue_rep hrep (hvacant rfl) a
    exact ⟨h', t', S, hset, hins, hrep', htouch⟩
  | cons b path ih =>
    obtain ⟨c, x, y, Sx, Sy, hread, rfl, hx, hy, hpx, hpy, hxy, rfl⟩ := hrep.split b
    have hxnil : x = .nil := by rw [← BitTrie.child_join b c.value x y, hstop b path rfl]
    subst hxnil
    obtain ⟨h1, hstep, hnext1, hq1, hp1, hsame1⟩ := extend_cons hread b path
    have hlt := TrieHeap.lt_next hread
    have hleaf : h1.Rep (.node none .nil .nil) (some h.next) (insert h.next (∅ ∪ ∅)) :=
      .node hq1 .nil .nil (Finset.notMem_empty _) (Finset.notMem_empty _)
        (Finset.disjoint_empty_left _)
    obtain ⟨h', t', S', hrun, hins, hrep', htouch⟩ :=
      ih hleaf (fun b _ _ => by cases b <;> rfl) fun _ => rfl
    have hnew : ∀ q ∈ S', h.next ≤ q := fun q hq => by
      rcases htouch.footprint q hq with hqn | hge
      · have hqn : q = h.next := by simpa using hqn
        exact hqn.ge
      · omega
    have hkeep : ∀ q < h.next, q ≠ p → h'.cells q = h.cells q := fun q hq hqp => by
      have hqn : q ≠ h.next := hq.ne
      rw [htouch.cells_eq q (by omega) (by simpa using hqn), hsame1 q hqp hqn]
    have hread' : h'.cells p = some (c.setChild b (some h.next)) := by
      rw [htouch.cells_eq p (by omega) (by simpa using hlt.ne), hp1]
    have hy' : h'.Rep y ((c.setChild b (some h.next)).child !b) Sy := by
      rw [TrieCell.child_not_setChild]
      refine hy.frame fun q hq => hkeep q (hy.lt_next q hq) fun hqp => hpy (hqp ▸ hq)
    have hx' : h'.Rep t' ((c.setChild b (some h.next)).child b) S' := by
      rw [TrieCell.child_setChild]
      exact hrep'
    have hpS : p ∉ S' := fun hpS => by
      have hge := hnew p hpS
      omega
    have hdisj : Disjoint S' Sy := by
      refine Finset.disjoint_left.mpr fun q hq hqy => ?_
      have hge := hnew q hq
      have hqlt := hy.lt_next q hqy
      omega
    refine ⟨h', .join b c.value t' y, insert p (S' ∪ Sy), ?_, ?_, ?_, ?_, ?_, ?_⟩
    · rw [hstep]
      exact hrun
    · rw [BitTrie.insert_join, BitTrie.insert_nil, hins]
      rfl
    · rw [← TrieCell.value_setChild b (some h.next) c]
      exact .join hread' hx' hy' hpS hpy hdisj
    · have hle := htouch.next_le
      omega
    · exact fun q hq hqS => hkeep q hq fun hqp => hqS (by rw [hqp]; exact Finset.mem_insert_self _ _)
    · intro q hq
      rw [Finset.mem_insert, Finset.mem_union] at hq
      rcases hq with rfl | hq | hq
      · exact Or.inl (Finset.mem_insert_self q _)
      · exact Or.inr (hnew q hq)
      · exact Or.inl (Finset.mem_insert_of_mem (Finset.mem_union_right _ hq))

private theorem insert_of_child {h : TrieHeap α} {p q : ℕ} {c : TrieCell α} {b : Bool}
    (hp : h.cells p = some c) (hq : c.child b = some q) (path : List Bool) (a : α) :
    h.insert p (b :: path) a = h.insert q path a := by
  unfold TrieHeap.insert
  simp only [descend, hp, hq, Option.bind_eq_bind, Option.bind_some]

private theorem insert_of_no_child {h : TrieHeap α} {p : ℕ} {c : TrieCell α} {b : Bool}
    (hp : h.cells p = some c) (hq : c.child b = none) (path : List Bool) (a : α) :
    h.insert p (b :: path) a =
      ((h.extend (b :: path) p).bind fun s => s.1.setValue s.2 a).map fun h => (h, true) := by
  unfold TrieHeap.insert
  simp only [descend, hp, hq, place, Option.bind_eq_bind, Option.bind_some]
  cases h.extend (b :: path) p <;> rfl

/-- A subtree replaced under its parent. -/
private theorem rep_of_child {h h' : TrieHeap α} {p q : ℕ} {c : TrieCell α} {b : Bool}
    {x' y : BitTrie α} {Sx Sx' Sy : Finset ℕ} (hread : h.cells p = some c)
    (hq : c.child b = some q) (hy : h.Rep y (c.child !b) Sy) (hpx : p ∉ Sx) (hpy : p ∉ Sy)
    (hxy : Disjoint Sx Sy) (hx' : h'.Rep x' (some q) Sx') (htouch : h.Touches h' Sx Sx') :
    h'.Rep (.join b c.value x' y) (some p) (insert p (Sx' ∪ Sy)) ∧
      h.Touches h' (insert p (Sx ∪ Sy)) (insert p (Sx' ∪ Sy)) := by
  have hlt := TrieHeap.lt_next hread
  have hpx' : p ∉ Sx' := fun hp => by
    rcases htouch.footprint p hp with hp | hge
    · exact hpx hp
    · omega
  constructor
  · refine .join ?_ ?_ (htouch.rep hy hxy) hpx' hpy (htouch.disjoint hy.lt_next hxy)
    · rw [htouch.cells_eq p hlt hpx, hread]
    · rw [hq]
      exact hx'
  · refine ⟨htouch.next_le, fun r hr hrS => htouch.cells_eq r hr fun hrx => hrS ?_, fun r hr => ?_⟩
    · exact Finset.mem_insert_of_mem (Finset.mem_union_left _ hrx)
    · rw [Finset.mem_insert, Finset.mem_union] at hr
      rcases hr with rfl | hr | hr
      · exact Or.inl (Finset.mem_insert_self r _)
      · rcases htouch.footprint r hr with hrx | hge
        · exact Or.inl (Finset.mem_insert_of_mem (Finset.mem_union_left _ hrx))
        · exact Or.inr hge
      · exact Or.inl (Finset.mem_insert_of_mem (Finset.mem_union_right _ hr))

theorem insert_rep_none (path : List Bool) (a : α) {h : TrieHeap α} {t : BitTrie α} {p : ℕ}
    {S : Finset ℕ} (hrep : h.Rep t (some p) S) (hins : t.insert path a = none) :
    h.insert p path a = some (h, false) := by
  induction path generalizing t p S with
  | nil =>
    cases hrep with
    | @node _ c l r _ _ hread _ _ _ _ _ =>
      cases hvalue : c.value with
      | none =>
        rw [hvalue] at hins
        cases hins
      | some v => simp [TrieHeap.insert, descend, place, hread, hvalue]
  | cons b path ih =>
    obtain ⟨c, x, y, Sx, Sy, hread, rfl, hx, _⟩ := hrep.split b
    rw [BitTrie.insert_join, Option.map_eq_none_iff] at hins
    cases hq : c.child b with
    | none =>
      rw [hq] at hx
      cases hx
      have hsome := BitTrie.insert_isSome (.nil : BitTrie α) path a
      rw [hins, BitTrie.get?_nil] at hsome
      cases hsome
    | some q =>
      rw [insert_of_child hread hq]
      exact ih (hq ▸ hx) hins

theorem insert_rep_some (path : List Bool) (a : α) {h : TrieHeap α} {t t' : BitTrie α} {p : ℕ}
    {S : Finset ℕ} (hrep : h.Rep t (some p) S) (hins : t.insert path a = some t') :
    ∃ h' S', h.insert p path a = some (h', true) ∧ h'.Rep t' (some p) S' ∧
      h.Touches h' S S' := by
  induction path generalizing t t' p S with
  | nil =>
    have hvacant : t.get? [] = none := by
      have hsome := BitTrie.insert_isSome t [] a
      rw [hins] at hsome
      simpa using hsome.symm
    obtain ⟨h', u, S', hrun, hu, hrep', htouch⟩ :=
      extend_rep [] a hrep (fun _ _ hnil => by cases hnil) fun _ => hvacant
    obtain rfl : u = t' := Option.some.inj (hu.symm.trans hins)
    refine ⟨h', S', ?_, hrep', htouch⟩
    cases hrep with
    | @node _ c l r _ _ hread _ _ _ _ _ =>
      have hvalue : c.value = none := hvacant
      have hset : h.setValue p a = some h' := hrun
      simp [TrieHeap.insert, descend, place, hread, hvalue, hset]
  | cons b path ih =>
    obtain ⟨c, x, y, Sx, Sy, hread, rfl, hx, hy, hpx, hpy, hxy, rfl⟩ := hrep.split b
    cases hq : c.child b with
    | none =>
      rw [hq] at hx
      cases hx
      obtain ⟨h', u, S', hrun, hu, hrep', htouch⟩ := extend_rep (b :: path) a hrep
        (fun b' rest hcons => by
          obtain ⟨rfl, _⟩ := List.cons.inj hcons
          exact BitTrie.child_join b c.value .nil y)
        fun hnil => by cases hnil
      obtain rfl : u = t' := Option.some.inj (hu.symm.trans hins)
      refine ⟨h', S', ?_, hrep', htouch⟩
      rw [insert_of_no_child hread hq, hrun]
      rfl
    | some q =>
      rw [BitTrie.insert_join, Option.map_eq_some_iff] at hins
      obtain ⟨x', hins, rfl⟩ := hins
      obtain ⟨h', Sx', hrun, hx', htouch⟩ := ih (hq ▸ hx) hins
      obtain ⟨hrep', htouch'⟩ := rep_of_child hread hq hy hpx hpy hxy hx' htouch
      exact ⟨h', _, by rw [insert_of_child hread hq, hrun], hrep', htouch'⟩

/-- The values below a pointer, a node's own before those on its left and right. -/
def collect (h : TrieHeap α) : ℕ → Option ℕ → List α → Option (List α)
  | 0, _, _ => none
  | _ + 1, none, ret => some ret
  | fuel + 1, some p, ret => do
    let c ← h.cells p
    let ret ← h.collect fuel c.left (ret ++ c.value.toList)
    h.collect fuel c.right ret

/-- Copies the child `q`, if there is one, and hangs the copy below `p`. -/
def copyChild (copy : TrieHeap α → ℕ → Option (TrieHeap α × ℕ)) (b : Bool) (h : TrieHeap α)
    (p : ℕ) : Option ℕ → Option (TrieHeap α)
  | none => some h
  | some q => do
    let (h, q) ← copy h q
    let c ← h.cells p
    h.write p (c.setChild b (some q))

def copy : ℕ → TrieHeap α → ℕ → Option (TrieHeap α × ℕ)
  | 0, _, _ => none
  | fuel + 1, h, p => do
    let c ← h.cells p
    let (h, q) := h.alloc ⟨c.value, none, none⟩
    let h ← copyChild (copy fuel) false h q c.left
    let h ← copyChild (copy fuel) true h q c.right
    some (h, q)

def delete : ℕ → TrieHeap α → Option ℕ → Option (TrieHeap α)
  | 0, _, _ => none
  | _ + 1, h, none => some h
  | fuel + 1, h, some p => do
    let c ← h.cells p
    let h ← delete fuel h c.left
    let h ← delete fuel h c.right
    h.free p

theorem Rep.size_le {h : TrieHeap α} {t : BitTrie α} {p : Option ℕ} {S : Finset ℕ}
    (hrep : h.Rep t p S) : t.size ≤ h.next := by
  have hcard : S.card = t.size := by
    induction hrep with
    | nil => rfl
    | node _ _ _ hpl hpr hlr ihl ihr =>
      have hp : _ ∉ _ ∪ _ := fun hp => (Finset.mem_union.mp hp).elim hpl hpr
      rw [Finset.card_insert_of_notMem hp, Finset.card_union_of_disjoint hlr, ihl, ihr]
      rfl
  have hsub : S ⊆ Finset.range h.next := fun q hq => Finset.mem_range.mpr (hrep.lt_next q hq)
  have hle := Finset.card_le_card hsub
  rw [Finset.card_range] at hle
  omega

theorem collect_rep {h : TrieHeap α} {t : BitTrie α} {p : Option ℕ} {S : Finset ℕ}
    (hrep : h.Rep t p S) (fuel : ℕ) (hfuel : t.size < fuel) (ret : List α) :
    h.collect fuel p ret = some (ret ++ t.toList) := by
  induction hrep generalizing fuel ret with
  | nil =>
    obtain ⟨fuel, rfl⟩ : ∃ n, fuel = n + 1 := ⟨fuel - 1, by omega⟩
    simp [collect, BitTrie.toList]
  | node hread _ _ _ _ _ ihl ihr =>
    obtain ⟨fuel, rfl⟩ : ∃ n, fuel = n + 1 := ⟨fuel - 1, by omega⟩
    rw [BitTrie.size] at hfuel
    rw [collect, hread]
    simp only [Option.bind_eq_bind, Option.bind_some]
    rw [ihl fuel (by omega), Option.bind_some, ihr fuel (by omega)]
    simp [BitTrie.toList]

theorem delete_rep {h : TrieHeap α} {t : BitTrie α} {p : Option ℕ} {S : Finset ℕ}
    (hrep : h.Rep t p S) (fuel : ℕ) (hfuel : t.size < fuel) :
    ∃ h', delete fuel h p = some h' ∧ h'.next = h.next ∧
      ∀ q, h'.cells q = if q ∈ S then none else h.cells q := by
  induction t generalizing h p S fuel with
  | nil =>
    obtain ⟨fuel, rfl⟩ : ∃ n, fuel = n + 1 := ⟨fuel - 1, by omega⟩
    cases hrep
    exact ⟨h, rfl, rfl, by simp⟩
  | node v l r ihl ihr =>
    obtain ⟨fuel, rfl⟩ : ∃ n, fuel = n + 1 := ⟨fuel - 1, by omega⟩
    rw [BitTrie.size] at hfuel
    cases hrep with
    | @node p c _ _ Sl Sr hread hl hr hpl hpr hlr =>
      obtain ⟨h1, hrun1, hnext1, hcells1⟩ := ihl hl fuel (by omega)
      have hr1 : h1.Rep r c.right Sr := hr.frame fun q hq => by
        rw [hcells1, if_neg (Finset.disjoint_right.mp hlr hq)]
      obtain ⟨h2, hrun2, hnext2, hcells2⟩ := ihr hr1 fuel (by omega)
      have hread2 : h2.cells p = some c := by rw [hcells2, if_neg hpr, hcells1, if_neg hpl, hread]
      obtain ⟨h3, hrun3, hnext3, hcells3⟩ := exists_free hread2
      refine ⟨h3, ?_, by omega, fun q => ?_⟩
      · rw [delete, hread]
        simp only [Option.bind_eq_bind, Option.bind_some, hrun1, hrun2, hrun3]
      · rw [hcells3, hcells2, hcells1]
        simp only [Finset.mem_insert, Finset.mem_union]
        split_ifs <;> tauto

/-- What a copy leaves behind: the same trie on fresh cells, with all older cells untouched. -/
private def Copies (copy : TrieHeap α → ℕ → Option (TrieHeap α × ℕ)) (t : BitTrie α) : Prop :=
  ∀ (h : TrieHeap α) (p : ℕ) (S : Finset ℕ), h.Rep t (some p) S →
    ∃ h' q S', copy h p = some (h', q) ∧ h'.Rep t (some q) S' ∧ h.Touches h' ∅ S'

private theorem copyChild_rep {copy : TrieHeap α → ℕ → Option (TrieHeap α × ℕ)} {t : BitTrie α}
    (hcopy : Copies copy t) (b : Bool) {h : TrieHeap α} {p : ℕ} {c : TrieCell α} {q : Option ℕ}
    {S : Finset ℕ} (hp : h.cells p = some c) (hnone : c.child b = none) (hrep : h.Rep t q S) :
    ∃ h' q' S', copyChild copy b h p q = some h' ∧ h'.cells p = some (c.setChild b q') ∧
      h'.Rep t q' S' ∧ h.Touches h' {p} S' ∧ ∀ r ∈ S', h.next ≤ r := by
  cases q with
  | none =>
    cases hrep
    have hset : c.setChild b none = c := by rw [← hnone, TrieCell.setChild_child]
    exact ⟨h, none, ∅, rfl, by rw [hset, hp], .nil, ⟨le_rfl, fun _ _ _ => rfl, by simp⟩, by simp⟩
  | some q =>
    obtain ⟨h1, q', S', hrun, hrep', htouch⟩ := hcopy h q S hrep
    have hlt := TrieHeap.lt_next hp
    have hp1 : h1.cells p = some c := by
      rw [htouch.cells_eq p hlt (Finset.notMem_empty p), hp]
    have hnew : ∀ r ∈ S', h.next ≤ r := fun r hr => by simpa using htouch.footprint r hr
    obtain ⟨h2, hwrite, hnext, hcells⟩ := exists_write hp1 (c.setChild b (some q'))
    refine ⟨h2, some q', S', ?_, by rw [hcells, if_pos rfl], ?_, ⟨?_, ?_, ?_⟩, hnew⟩
    · simp only [copyChild, hrun, hp1, hwrite, Option.bind_eq_bind, Option.bind_some]
    · refine hrep'.frame fun r hr => ?_
      have hge := hnew r hr
      rw [hcells, if_neg (by omega)]
    · have hle := htouch.next_le
      omega
    · intro r hr hrp
      rw [hcells, if_neg (by simpa using hrp), htouch.cells_eq r hr (Finset.notMem_empty r)]
    · exact fun r hr => Or.inr (hnew r hr)

theorem copy_rep {t : BitTrie α} (fuel : ℕ) (hfuel : t.size < fuel) {h : TrieHeap α} {p : ℕ}
    {S : Finset ℕ} (hrep : h.Rep t (some p) S) :
    ∃ h' q S', copy fuel h p = some (h', q) ∧ h'.Rep t (some q) S' ∧ h.Touches h' ∅ S' := by
  induction fuel generalizing t h p S with
  | zero => omega
  | succ fuel ih =>
    cases hrep with
    | @node _ c l r Sl Sr hread hl hr hpl hpr hlr =>
      rw [BitTrie.size] at hfuel
      have hcopyl : Copies (copy fuel) l := fun _ _ _ hrep => ih (by omega) hrep
      have hcopyr : Copies (copy fuel) r := fun _ _ _ hrep => ih (by omega) hrep
      set h1 := (h.alloc ⟨c.value, none, none⟩).1 with hh1
      have hq1 : h1.cells h.next = some ⟨c.value, none, none⟩ := by rw [cells_alloc, if_pos rfl]
      have hold1 : ∀ x < h.next, h1.cells x = h.cells x := fun x hx => by
        rw [cells_alloc, if_neg hx.ne]
      have hl1 : h1.Rep l c.left Sl := hl.frame fun x hx => hold1 x (hl.lt_next x hx)
      have hr1 : h1.Rep r c.right Sr := hr.frame fun x hx => hold1 x (hr.lt_next x hx)
      obtain ⟨h2, ql, Sl', hrun2, hq2, hl2, htouch2, hnew2⟩ :=
        copyChild_rep hcopyl false hq1 rfl hl1
      have hr2 : h2.Rep r c.right Sr := htouch2.rep hr1 (Finset.disjoint_singleton_left.mpr
        fun hmem => (hr.lt_next _ hmem).ne rfl)
      obtain ⟨h3, qr, Sr', hrun3, hq3, hr3, htouch3, hnew3⟩ :=
        copyChild_rep hcopyr true hq2 rfl hr2
      have hnext1 : h1.next = h.next + 1 := rfl
      have hnext2 := htouch2.next_le
      have hnext3 := htouch3.next_le
      have hqSl : h.next ∉ Sl' := fun hmem => by
        have hge := hnew2 _ hmem
        omega
      have hqSr : h.next ∉ Sr' := fun hmem => by
        have hge := hnew3 _ hmem
        omega
      have hl3 : h3.Rep l ql Sl' := htouch3.rep hl2 (Finset.disjoint_singleton_left.mpr hqSl)
      have hdisj : Disjoint Sl' Sr' := Finset.disjoint_left.mpr fun x hxl hxr => by
        have hlt := hl2.lt_next x hxl
        have hge := hnew3 x hxr
        omega
      have hq : h3.cells h.next = some ⟨c.value, ql, qr⟩ := hq3
      have hrep3 := Rep.node hq hl3 hr3 hqSl hqSr hdisj
      refine ⟨h3, h.next, _, ?_, hrep3, ?_⟩
      · rw [copy, hread]
        simp only [Option.bind_eq_bind, Option.bind_some, snd_alloc, ← hh1, hrun2, hrun3]
      · refine ⟨by omega, fun x hx _ => ?_, fun x hx => Or.inr ?_⟩
        · have hxq : x ∉ ({h.next} : Finset ℕ) := by simpa using hx.ne
          rw [htouch3.cells_eq x (by omega) hxq, htouch2.cells_eq x (by omega) hxq, hold1 x hx]
        · rw [Finset.mem_insert, Finset.mem_union] at hx
          rcases hx with rfl | hx | hx
          · exact le_rfl
          · have hge := hnew2 x hx
            omega
          · have hge := hnew3 x hx
            omega

end TrieHeap

end AcsNext.Data
