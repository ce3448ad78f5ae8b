import Mathlib.Tactic

/-! Positions in strings, as the string classes of the C++ library search and cut them: a search
that finds nothing returns no position, an access out of range has no value. -/
namespace AcsNext.Data

variable {α : Type*}

/-- The difference of two values of `size_t`, which goes round below zero. -/
def sizeSub (m n : ℕ) : ℕ := if n ≤ m then m - n else 2 ^ 64 + m - n

/-- `operator[]` of a `std::string`, which has a NUL after its last character. -/
def stringAt (s : List UInt8) (i : ℕ) : Option UInt8 := (s ++ [0])[i]?

/-- `substr` from a position to the end; none where it throws. -/
def substr (s : List α) (pos : ℕ) : Option (List α) :=
  if pos ≤ s.length then some (s.drop pos) else none

/-- `substr` of a number of characters; none where it throws. -/
def substrCount (s : List α) (pos count : ℕ) : Option (List α) :=
  if pos ≤ s.length then some ((s.drop pos).take count) else none

/-- `remove_suffix`; none where it is undefined. -/
def removeSuffix (s : List α) (n : ℕ) : Option (List α) :=
  if n ≤ s.length then some (s.take (s.length - n)) else none

/-- `remove_prefix`; none where it is undefined. -/
def removeFront (s : List α) (n : ℕ) : Option (List α) :=
  if n ≤ s.length then some (s.drop n) else none

theorem substr_append (a b : List α) : substr (a ++ b) a.length = some b := by
  simp [substr]

theorem substr_append_cons (a b : List α) (c : α) :
    substr (a ++ c :: b) (a.length + 1) = some b := by
  simp [substr]

theorem removeSuffix_append (a b : List α) {n : ℕ} (h : b.length = n) :
    removeSuffix (a ++ b) n = some a := by
  subst h
  simp [removeSuffix]

/-- The first separator can be in one place only. -/
theorem eq_of_append_cons_eq {a a' b b' : List α} {sep : α} (ha : sep ∉ a) (ha' : sep ∉ a')
    (h : a ++ sep :: b = a' ++ sep :: b') : a = a' ∧ b = b' := by
  rcases List.append_eq_append_iff.mp h with ⟨z, rfl, hz⟩ | ⟨z, rfl, hz⟩
  · cases z with
    | nil => exact ⟨by simp, by simpa using hz⟩
    | cons c z =>
      obtain ⟨rfl, _⟩ := List.cons_eq_cons.mp hz
      exact absurd (by simp) ha'
  · cases z with
    | nil => exact ⟨by simp, by simpa using hz.symm⟩
    | cons c z =>
      obtain ⟨rfl, _⟩ := List.cons_eq_cons.mp hz
      exact absurd (by simp) ha

section Search

variable [DecidableEq α]

def findChar (s : List α) (c : α) (pos : ℕ) : Option ℕ := ((s.drop pos).idxOf? c).map (pos + ·)

theorem findChar_eq_none_iff {s : List α} {c : α} {pos : ℕ} :
    findChar s c pos = none ↔ c ∉ s.drop pos := by
  simp [findChar]

theorem findChar_lt_length {s : List α} {c : α} {pos n : ℕ} (h : findChar s c pos = some n) :
    pos ≤ n ∧ n < s.length := by
  obtain ⟨i, hi, rfl⟩ := Option.map_eq_some_iff.mp h
  have hlt : i < (s.drop pos).length := (List.findIdx?_eq_some_iff_getElem.mp hi).1
  rw [List.length_drop] at hlt
  omega

/-- The first `c` after the text `a`. -/
theorem findChar_append_cons (a : List α) {b : List α} {c : α} (h : c ∉ b) (rest : List α) :
    findChar (a ++ (b ++ c :: rest)) c a.length = some (a.length + b.length) := by
  have hidx : (b ++ c :: rest).idxOf? c = some b.length := by
    induction b with
    | nil => simp [List.idxOf?_cons]
    | cons x b ih =>
      have hx : x ≠ c := fun hx => h (by simp [hx])
      rw [List.cons_append, List.idxOf?_cons, ih fun hb => h (List.mem_cons_of_mem _ hb)]
      simp [hx]
  simp [findChar, hidx]

theorem findChar_zero {a : List α} {c : α} (h : c ∉ a) (rest : List α) :
    findChar (a ++ c :: rest) c 0 = some a.length := by
  simpa using findChar_append_cons [] h rest

def findText (t : List α) : List α → Option ℕ
  | [] => if t = [] then some 0 else none
  | c :: s => if t <+: c :: s then some 0 else (findText t s).map (· + 1)

def findTextFrom (s t : List α) (pos : ℕ) : Option ℕ :=
  if pos ≤ s.length then (findText t (s.drop pos)).map (pos + ·) else none

def rfindText (t : List α) : List α → Option ℕ
  | [] => if t = [] then some 0 else none
  | c :: s =>
    match rfindText t s with
    | some i => some (i + 1)
    | none => if t <+: c :: s then some 0 else none

theorem findText_eq_none_iff {t s : List α} : findText t s = none ↔ ¬ t <:+: s := by
  induction s with
  | nil => simp [findText]
  | cons c s ih =>
    rw [findText, List.infix_cons_iff]
    split_ifs with h
    · simp [h]
    · simp [h, ih]

theorem rfindText_eq_none_iff {t s : List α} : rfindText t s = none ↔ ¬ t <:+: s := by
  induction s with
  | nil => simp [rfindText]
  | cons c s ih =>
    rw [rfindText, List.infix_cons_iff]
    cases hs : rfindText t s with
    | none =>
      have hnot : ¬ t <:+: s := ih.mp hs
      split_ifs with h
      · simp [h]
      · simp [h, hnot]
    | some i =>
      have hsub : t <:+: s := by
        by_contra h
        rw [ih.mpr h] at hs
        cases hs
      simp [hsub]

/-- The text is at the position found, and it does not occur behind it. -/
theorem rfindText_eq_some {t s : List α} {i : ℕ} (h : rfindText t s = some i) :
    i ≤ s.length ∧ t <+: s.drop i ∧ ∀ j, i < j → j ≤ s.length → ¬ t <+: s.drop j := by
  induction s generalizing i with
  | nil =>
    rw [rfindText] at h
    split_ifs at h with ht
    obtain rfl : 0 = i := Option.some.inj h
    refine ⟨le_rfl, by simp [ht], fun j hj hlength => ?_⟩
    simp at hlength
    omega
  | cons c s ih =>
    rw [rfindText] at h
    cases hs : rfindText t s with
    | some k =>
      rw [hs] at h
      obtain rfl : k + 1 = i := Option.some.inj h
      obtain ⟨hk, hat, hbehind⟩ := ih hs
      refine ⟨by simpa using hk, by simpa using hat, fun j hj hlength => ?_⟩
      obtain ⟨j, rfl⟩ := Nat.exists_eq_add_of_lt (Nat.zero_lt_of_lt hj)
      rw [Nat.zero_add, List.drop_succ_cons]
      exact hbehind j (by omega) (by simpa using hlength)
    | none =>
      rw [hs] at h
      dsimp only at h
      split_ifs at h with ht
      obtain rfl : 0 = i := Option.some.inj h
      refine ⟨Nat.zero_le _, ht, fun j hj hlength hat => ?_⟩
      obtain ⟨j, rfl⟩ := Nat.exists_eq_add_of_lt hj
      rw [Nat.zero_add, List.drop_succ_cons] at hat
      exact rfindText_eq_none_iff.mp hs (hat.isInfix.trans (List.drop_suffix _ _).isInfix)

/-- A search from as far before the end as the text is long finds a text at the end. It finds
nothing in a string that is shorter, where that position is beyond the end. -/
theorem findTextFrom_sizeSub_eq_none_iff {s t : List α} (ht : t.length < 2 ^ 64) :
    findTextFrom s t (sizeSub s.length t.length) = none ↔ ¬ t <:+ s := by
  unfold findTextFrom sizeSub
  by_cases hlength : t.length ≤ s.length
  · rw [if_pos hlength, if_pos (Nat.sub_le _ _), Option.map_eq_none_iff, findText_eq_none_iff,
      List.suffix_iff_eq_drop]
    have hdrop : (s.drop (s.length - t.length)).length = t.length := by
      rw [List.length_drop]
      omega
    refine not_congr ⟨fun h => h.eq_of_length hdrop.symm, fun h => ?_⟩
    rw [← h]
  · have hbeyond : ¬ 2 ^ 64 + s.length - t.length ≤ s.length := by omega
    rw [if_neg hlength, if_neg hbeyond]
    simp only [true_iff]
    exact fun h => hlength h.length_le

/-- `cut` is what stands before the last occurrence of `t` in `s`, or all of `s`. -/
def CutAtLast (t s cut : List α) : Prop :=
  (¬ t <:+: s ∧ cut = s) ∨
    ∃ rest, s = cut ++ (t ++ rest) ∧ ∀ a b, s = a ++ (t ++ b) → a.length ≤ cut.length

/-- `s` without what `rfind` finds and what follows it. -/
def beforeLast (t s : List α) : List α := s.take ((rfindText t s).getD s.length)

theorem cutAtLast_iff {t s cut : List α} : CutAtLast t s cut ↔ cut = beforeLast t s := by
  unfold beforeLast
  cases hfind : rfindText t s with
  | none =>
    have hnot := rfindText_eq_none_iff.mp hfind
    rw [Option.getD_none, List.take_length]
    refine ⟨?_, fun h => .inl ⟨hnot, h⟩⟩
    rintro (⟨_, h⟩ | ⟨rest, rfl, _⟩)
    · exact h
    · exact absurd ⟨cut, rest, List.append_assoc cut t rest⟩ hnot
  | some i =>
    obtain ⟨hi, ⟨rest, hat⟩, hbehind⟩ := rfindText_eq_some hfind
    have hs : s = s.take i ++ (t ++ rest) := by rw [hat, List.take_append_drop]
    have hlast : ∀ a b, s = a ++ (t ++ b) → a.length ≤ i := by
      intro a b hab
      by_contra hlt
      refine hbehind a.length (by omega) (by simp [hab]) ⟨b, ?_⟩
      rw [hab, List.drop_left]
    rw [Option.getD_some]
    constructor
    · rintro (⟨hnot, _⟩ | ⟨rest', hcut, hmax⟩)
      · exact absurd ⟨s.take i, rest, by rw [List.append_assoc, ← hs]⟩ hnot
      · have hlength : cut.length = i := by
          have hge := hmax _ _ hs
          rw [List.length_take_of_le hi] at hge
          exact le_antisymm (hlast _ _ hcut) hge
        rw [hcut, ← hlength, List.take_left]
    · intro h
      refine .inr ⟨rest, by rw [h]; exact hs, fun a b hab => ?_⟩
      rw [h, List.length_take_of_le hi]
      exact hlast a b hab

end Search

end AcsNext.Data
