import Mathlib.Tactic

/-! Binary tries: values stored at bit paths, insertion that refuses an occupied path,
and longest-prefix search. -/
namespace AcsNext.Data

universe u

/-- `nil` is the absent node. -/
inductive BitTrie (α : Type u) where
  | nil
  | node (value : Option α) (left right : BitTrie α)

namespace BitTrie

variable {α : Type u}

def get? : BitTrie α → List Bool → Option α
  | nil, _ => none
  | node value _ _, [] => value
  | node _ left _, false :: path => left.get? path
  | node _ _ right, true :: path => right.get? path

/-- Insertion creates the missing nodes of the path; `none` if the path is occupied. -/
def insert : BitTrie α → List Bool → α → Option (BitTrie α)
  | nil, [], a => some (node (some a) nil nil)
  | nil, false :: path, a => (nil.insert path a).map fun left => node none left nil
  | nil, true :: path, a => (nil.insert path a).map fun right => node none nil right
  | node none left right, [], a => some (node (some a) left right)
  | node (some _) _ _, [], _ => none
  | node value left right, false :: path, a =>
    (left.insert path a).map fun left => node value left right
  | node value left right, true :: path, a =>
    (right.insert path a).map fun right => node value left right

/-- The last value met on the way down the path, or `ret` if there is none. -/
def find : BitTrie α → List Bool → Option α → Option α
  | nil, _, ret => ret
  | node value _ _, [], ret => value.or ret
  | node value left _, false :: path, ret => left.find path (value.or ret)
  | node value _ right, true :: path, ret => right.find path (value.or ret)

def toList : BitTrie α → List α
  | nil => []
  | node value left right => value.toList ++ left.toList ++ right.toList

def size : BitTrie α → ℕ
  | nil => 0
  | node _ left right => left.size + right.size + 1

def HasNode : BitTrie α → List Bool → Prop
  | nil, _ => False
  | node _ _ _, [] => True
  | node _ left _, false :: path => left.HasNode path
  | node _ _ right, true :: path => right.HasNode path

/-- Inserts in order, skipping what is refused. -/
def insertAll (path : α → List Bool) (t : BitTrie α) (l : List α) : BitTrie α :=
  l.foldl (fun t a => (t.insert (path a) a).getD t) t

@[simp] theorem get?_nil (path : List Bool) : (nil : BitTrie α).get? path = none := by
  cases path <;> rfl

theorem insert_isSome (t : BitTrie α) (path : List Bool) (a : α) :
    (t.insert path a).isSome = (t.get? path).isNone := by
  induction path generalizing t with
  | nil => rcases t with _ | ⟨_ | v, l, r⟩ <;> rfl
  | cons b path ih => cases b <;> rcases t with _ | ⟨_ | v, l, r⟩ <;> simp [insert, get?, ih]

theorem get?_insert {t t' : BitTrie α} {path : List Bool} {a : α}
    (h : t.insert path a = some t') (q : List Bool) :
    t'.get? q = if q = path then some a else t.get? q := by
  induction path generalizing t t' q with
  | nil =>
    rcases t with _ | ⟨_ | v, l, r⟩ <;> simp only [insert, Option.some.injEq, reduceCtorEq] at h <;>
      subst h <;> rcases q with _ | ⟨_ | _, q⟩ <;> simp [get?]
  | cons b path ih =>
    cases b <;> rcases t with _ | ⟨v, l, r⟩ <;> simp only [insert, Option.map_eq_some_iff] at h <;>
      obtain ⟨u, hu, rfl⟩ := h <;> rcases q with _ | ⟨_ | _, q⟩ <;> simp [get?, ih hu]

/-- Insertion makes the nodes along its path and no others. -/
theorem hasNode_insert {t t' : BitTrie α} {path : List Bool} {a : α}
    (h : t.insert path a = some t') (q : List Bool) :
    t'.HasNode q ↔ t.HasNode q ∨ q <+: path := by
  induction path generalizing t t' q with
  | nil =>
    rcases t with _ | ⟨_ | v, l, r⟩ <;> simp only [insert, Option.some.injEq, reduceCtorEq] at h <;>
      subst h <;> rcases q with _ | ⟨_ | _, q⟩ <;> simp [HasNode]
  | cons b path ih =>
    cases b <;> rcases t with _ | ⟨v, l, r⟩ <;> simp only [insert, Option.map_eq_some_iff] at h <;>
      obtain ⟨u, hu, rfl⟩ := h <;> rcases q with _ | ⟨_ | _, q⟩ <;>
      simp [HasNode, ih hu, List.cons_prefix_cons]

/-- Insertion adds its value and loses none. -/
theorem toList_insert {t t' : BitTrie α} {path : List Bool} {a : α}
    (h : t.insert path a = some t') : t'.toList.Perm (a :: t.toList) := by
  induction path generalizing t t' with
  | nil =>
    rcases t with _ | ⟨_ | v, l, r⟩ <;> simp only [insert, Option.some.injEq, reduceCtorEq] at h <;>
      subst h <;> simp [toList]
  | cons b path ih =>
    cases b <;> rcases t with _ | ⟨v, l, r⟩ <;> simp only [insert, Option.map_eq_some_iff] at h <;>
      obtain ⟨u, hu, rfl⟩ := h <;> simp only [toList]
    · simpa [toList] using ih hu
    · have hleft := (ih hu).append_right r.toList
      rw [List.append_assoc, List.append_assoc]
      exact (hleft.append_left v.toList).trans List.perm_middle
    · simpa [toList] using ih hu
    · exact ((ih hu).append_left _).trans List.perm_middle

theorem get?_insertAll (path : α → List Bool) (t : BitTrie α) (l : List α) (q : List Bool) :
    (insertAll path t l).get? q = (t.get? q).or (l.find? fun a => path a = q) := by
  induction l generalizing t with
  | nil => simp [insertAll]
  | cons a l ih =>
    rw [insertAll, List.foldl_cons, ← insertAll, ih]
    cases hi : t.insert (path a) a with
    | none =>
      have hs := insert_isSome t (path a) a
      rw [hi] at hs
      by_cases hq : path a = q
      · subst hq
        obtain ⟨v, hv⟩ : ∃ v, t.get? (path a) = some v :=
          Option.isSome_iff_exists.mp (by simpa using hs)
        simp [hv]
      · simp [hq]
    | some t' =>
      have hs := insert_isSome t (path a) a
      rw [hi] at hs
      by_cases hq : path a = q
      · subst hq
        have hv : t.get? (path a) = none := by simpa using hs
        simp [get?_insert hi, hv]
      · have hq' : ¬ q = path a := fun h => hq h.symm
        simp [get?_insert hi, hq, hq']

theorem find_eq_or (t : BitTrie α) (path : List Bool) (ret : Option α) :
    t.find path ret = (t.find path none).or ret := by
  induction path generalizing t ret with
  | nil => cases t <;> simp [find]
  | cons b path ih =>
    cases t with
    | nil => simp [find]
    | node v l r =>
      cases b
      · simp only [find, Option.or_none]
        rw [ih l (v.or ret), ih l v, Option.or_assoc]
      · simp only [find, Option.or_none]
        rw [ih r (v.or ret), ih r v, Option.or_assoc]

def child (b : Bool) : BitTrie α → BitTrie α
  | nil => nil
  | node _ left right => if b then right else left

theorem get?_cons (t : BitTrie α) (b : Bool) (path : List Bool) :
    t.get? (b :: path) = (t.child b).get? path := by
  cases t <;> cases b <;> simp [get?, child]

theorem find_cons (t : BitTrie α) (b : Bool) (path : List Bool) :
    t.find (b :: path) none = ((t.child b).find path none).or (t.get? []) := by
  cases t with
  | nil => simp [find, child, get?]
  | node v l r =>
    cases b
    · simpa [find, child, get?] using find_eq_or l path v
    · simpa [find, child, get?] using find_eq_or r path v

theorem find_nil (t : BitTrie α) : t.find [] none = t.get? [] := by
  cases t <;> simp [find, get?]

section Prefixes

variable {b : Bool} {path : List Bool} {p : List Bool → Prop}

private theorem forall_prefix_cons :
    (∀ q, q <+: b :: path → p q) ↔ p [] ∧ ∀ q, q <+: path → p (b :: q) := by
  constructor
  · intro h
    exact ⟨h [] List.nil_prefix, fun q hq => h (b :: q) (List.cons_prefix_cons.mpr ⟨rfl, hq⟩)⟩
  · intro h q hq
    cases q with
    | nil => exact h.1
    | cons b' q =>
      obtain ⟨rfl, hq'⟩ := List.cons_prefix_cons.mp hq
      exact h.2 q hq'

private theorem exists_prefix_cons :
    (∃ q, q <+: b :: path ∧ p q) ↔ p [] ∨ ∃ q, q <+: path ∧ p (b :: q) := by
  have hnone : (∀ q, q <+: b :: path → ¬p q) ↔ ¬p [] ∧ ∀ q, q <+: path → ¬p (b :: q) :=
    forall_prefix_cons
  have hsome := not_congr hnone
  push Not at hsome
  rwa [← or_iff_not_imp_left] at hsome

end Prefixes

theorem find_eq_none_iff (t : BitTrie α) (path : List Bool) :
    t.find path none = none ↔ ∀ q, q <+: path → t.get? q = none := by
  induction path generalizing t with
  | nil =>
    rw [find_nil]
    exact ⟨fun h q hq => by rwa [List.prefix_nil.mp hq], fun h => h [] List.prefix_rfl⟩
  | cons b path ih =>
    rw [find_cons, Option.or_eq_none_iff, ih, forall_prefix_cons, and_comm]
    simp only [get?_cons]

/-- Longest-prefix search: the value at the longest stored prefix of the path. -/
theorem find_eq_some_iff (t : BitTrie α) (path : List Bool) (a : α) :
    t.find path none = some a ↔ ∃ q, q <+: path ∧ t.get? q = some a ∧
      ∀ q', q' <+: path → q.length < q'.length → t.get? q' = none := by
  induction path generalizing t with
  | nil =>
    rw [find_nil]
    constructor
    · intro h
      exact ⟨[], List.prefix_rfl, h, fun q' hq' hlt => by simp [List.prefix_nil.mp hq'] at hlt⟩
    · intro he
      obtain ⟨q, hq, h, _⟩ := he
      rwa [List.prefix_nil.mp hq] at h
  | cons b path ih =>
    -- the root answers when nothing does below it, else the search goes on in the child
    have hroot :
        (∀ q', q' <+: b :: path → ([] : List Bool).length < q'.length → t.get? q' = none) ↔
          (t.child b).find path none = none := by
      rw [find_eq_none_iff, forall_prefix_cons]
      simp [get?_cons]
    have hchild (q : List Bool) :
        (∀ q', q' <+: b :: path → (b :: q).length < q'.length → t.get? q' = none) ↔
          ∀ q', q' <+: path → q.length < q'.length → (t.child b).get? q' = none := by
      rw [forall_prefix_cons]
      simp [get?_cons]
    rw [find_cons, exists_prefix_cons, hroot]
    simp only [hchild, get?_cons, ← ih]
    cases (t.child b).find path none <;> simp

/-- A node given by the child that a bit selects and the other one. -/
def join (b : Bool) (value : Option α) (selected other : BitTrie α) : BitTrie α :=
  if b then node value other selected else node value selected other

theorem insert_join (b : Bool) (v : Option α) (x y : BitTrie α) (path : List Bool) (a : α) :
    (join b v x y).insert (b :: path) a = (x.insert path a).map fun x => join b v x y := by
  cases b <;> cases v <;> rfl

/-- Inserting creates the absent node. -/
theorem insert_nil (path : List Bool) (a : α) :
    (nil : BitTrie α).insert path a = (node none nil nil).insert path a := by
  cases path with
  | nil => rfl
  | cons b path => cases b <;> rfl

theorem child_join (b : Bool) (v : Option α) (x y : BitTrie α) : (join b v x y).child b = x := by
  cases b <;> rfl

theorem find_join (b : Bool) (v : Option α) (x y : BitTrie α) (path : List Bool)
    (ret : Option α) : (join b v x y).find (b :: path) ret = x.find path (v.or ret) := by
  cases b <;> rfl

theorem mem_toList (t : BitTrie α) (a : α) : a ∈ t.toList ↔ ∃ path, t.get? path = some a := by
  induction t with
  | nil => simp [toList]
  | node v l r ihl ihr =>
    simp only [toList, List.mem_append, Option.mem_toList, ihl, ihr]
    constructor
    · intro he
      rcases he with (h | ⟨p, h⟩) | ⟨p, h⟩
      · exact ⟨[], h⟩
      · exact ⟨false :: p, h⟩
      · exact ⟨true :: p, h⟩
    · intro he
      rcases he with ⟨_ | ⟨_ | _, p⟩, h⟩
      · exact Or.inl (Or.inl h)
      · exact Or.inl (Or.inr ⟨p, h⟩)
      · exact Or.inr ⟨p, h⟩

end BitTrie

end AcsNext.Data
