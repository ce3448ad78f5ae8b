import AcsNext.Collector.ProcessSignal
import AcsNext.Data.CString
import AcsNext.Data.StringView

/-! The lookup of a key in the text of an `os-release` file. A result is none where the code
accesses a character out of range. -/
namespace AcsNext.Collector
open AcsNext.Data

/-- The lines that `std::getline` reads: an end of line may be missing after the last one. -/
def streamLines (content : Bytes) : List Bytes :=
  let parts := content.splitOn 10
  if parts.getLast? = some [] then parts.dropLast else parts

/-- The second of the quotes that `filterForKey` erases. -/
def stripLast (value : Bytes) : Option Bytes := do
  let last ← stringAt value (sizeSub value.length 1)
  pure (if last = 34 then value.take (sizeSub value.length 1) else value)

def stripQuotes (value : Bytes) : Option Bytes := do
  let first ← stringAt value 0
  stripLast (if first = 34 then value.drop 1 else value)

def filterLines (name : Bytes) : List Bytes → Option Bytes
  | [] => some []
  | line :: lines =>
    match findChar line 61 0 with
    | none => filterLines name lines
    | some idx =>
      if line.take idx = cString name then do
        let value ← substr line (idx + 1)
        stripQuotes value
      else filterLines name lines

def filterForKey (content name : Bytes) : Option Bytes := filterLines name (streamLines content)

def FirstValue (name : Bytes) (lines : List Bytes) (value : Bytes) : Prop :=
  61 ∉ cString name ∧ ∃ before after, lines = before ++ (cString name ++ 61 :: value) :: after ∧
    ∀ line ∈ before, ∀ value', line ≠ cString name ++ 61 :: value'

def unquoteFront : Bytes → Bytes
  | 34 :: value => value
  | value => value

def unquote (value : Bytes) : Bytes := (unquoteFront (unquoteFront value).reverse).reverse

/-- The result is the value of the first line with the key, less its quotes, or an empty text. -/
def LooksUp (content name : Bytes) (result : Option Bytes) : Prop :=
  (∃ value, FirstValue name (streamLines content) value ∧ result = some (unquote value)) ∨
    ((¬ ∃ value, FirstValue name (streamLines content) value) ∧ result = some [])

variable {name value value' line : Bytes} {lines : List Bytes}

theorem firstValue_cons_iff : FirstValue name (line :: lines) value ↔
    61 ∉ cString name ∧ (line = cString name ++ 61 :: value ∨
      (∀ value', line ≠ cString name ++ 61 :: value') ∧ FirstValue name lines value) := by
  unfold FirstValue
  constructor
  · rintro ⟨hname, before, after, hlines, hbefore⟩
    refine ⟨hname, ?_⟩
    cases before with
    | nil => exact .inl (List.cons_eq_cons.mp hlines).1
    | cons line' before =>
      obtain ⟨rfl, rfl⟩ := List.cons_eq_cons.mp hlines
      exact .inr ⟨hbefore line (by simp), hname, before, after, rfl, fun l hl =>
        hbefore l (List.mem_cons_of_mem _ hl)⟩
  · rintro ⟨hname, rfl | ⟨hline, _, before, after, rfl, hbefore⟩⟩
    · exact ⟨hname, [], lines, rfl, by simp⟩
    · exact ⟨hname, line :: before, after, rfl, by simpa using ⟨hline, hbefore⟩⟩

theorem FirstValue.unique (h : FirstValue name lines value) (h' : FirstValue name lines value') :
    value = value' := by
  induction lines with
  | nil =>
    obtain ⟨_, before, after, hlines, _⟩ := h
    simp at hlines
  | cons line lines ih =>
    rw [firstValue_cons_iff] at h h'
    obtain ⟨_, rfl | ⟨hline, hrest⟩⟩ := h
    · obtain ⟨_, heq | ⟨hline', _⟩⟩ := h'
      · simpa using heq
      · exact absurd rfl (hline' value)
    · obtain ⟨_, heq | ⟨_, hrest'⟩⟩ := h'
      · exact absurd heq (hline value')
      · exact ih hrest hrest'

theorem filterLines_of_other_key (lines : List Bytes)
    (h : ¬ (61 ∉ cString name ∧ ∃ value, line = cString name ++ 61 :: value)) :
    filterLines name (line :: lines) = filterLines name lines := by
  by_cases hmem : 61 ∈ line
  · obtain ⟨key, value, rfl, hkey⟩ := List.eq_append_cons_of_mem hmem
    have hother : key ≠ cString name := fun heq => h ⟨heq ▸ hkey, value, by rw [heq]⟩
    simp only [filterLines, findChar_zero hkey, List.take_left, if_neg hother]
  · have hnone : findChar line 61 0 = none := findChar_eq_none_iff.mpr hmem
    simp only [filterLines, hnone]

theorem filterLines_cases (name : Bytes) (lines : List Bytes) :
    (∃ value, FirstValue name lines value ∧ filterLines name lines = stripQuotes value) ∨
      ((¬ ∃ value, FirstValue name lines value) ∧ filterLines name lines = some []) := by
  induction lines with
  | nil =>
    refine .inr ⟨?_, rfl⟩
    rintro ⟨_, _, before, _, hlines, _⟩
    simp at hlines
  | cons line lines ih =>
    by_cases hline : 61 ∉ cString name ∧ ∃ value, line = cString name ++ 61 :: value
    · obtain ⟨hname, value, rfl⟩ := hline
      refine .inl ⟨value, firstValue_cons_iff.mpr ⟨hname, .inl rfl⟩, ?_⟩
      simp only [filterLines, findChar_zero hname, List.take_left, if_true, substr_append_cons,
        Option.bind_eq_bind, Option.bind_some]
    · have hfirst : ∀ value, FirstValue name (line :: lines) value ↔
          FirstValue name lines value := by
        intro value
        rw [firstValue_cons_iff]
        constructor
        · rintro ⟨hname, heq | ⟨_, hrest⟩⟩
          · exact absurd ⟨hname, value, heq⟩ hline
          · exact hrest
        · exact fun h => ⟨h.1, .inr ⟨fun value' heq => hline ⟨h.1, value', heq⟩, h⟩⟩
      simpa only [filterLines_of_other_key lines hline, hfirst] using ih

theorem stripLast_eq (value : Bytes) : stripLast value =
    if value = [] then none else some (unquoteFront value.reverse).reverse := by
  rcases List.eq_nil_or_concat' value with rfl | ⟨front, c, rfl⟩
  · rfl
  · have hlast : stringAt (front ++ [c]) (sizeSub (front ++ [c]).length 1) = some c := by
      simp [stringAt, sizeSub]
    have htake : (front ++ [c]).take (sizeSub (front ++ [c]).length 1) = front := by
      simp [sizeSub]
    simp only [stripLast, hlast, htake, Option.bind_eq_bind, Option.bind_some]
    by_cases hc : c = 34
    · subst hc
      simp [unquoteFront]
    · have hkept : unquoteFront (c :: front.reverse) = c :: front.reverse := by
        unfold unquoteFront
        split
        · simp_all
        · rfl
      simp [hc, hkept]

/-- There has to be a character left after the first quote. -/
theorem stripQuotes_eq (value : Bytes) :
    stripQuotes value = if value = [] ∨ value = [34] then none else some (unquote value) := by
  have hfirst : stripQuotes value = stripLast (unquoteFront value) := by
    unfold unquoteFront
    split
    · rfl
    · cases value with
      | nil => rfl
      | cons c value =>
        have hc : c ≠ 34 := by simp_all
        simp [stripQuotes, stringAt, hc]
  have hempty : unquoteFront value = [] ↔ value = [] ∨ value = [34] := by
    unfold unquoteFront
    split
    · simp
    · constructor
      · exact .inl
      · rintro (h | h)
        · exact h
        · simp_all
  rw [hfirst, stripLast_eq, if_congr hempty rfl rfl]
  rfl

/-- The lookup does what it should unless the value is empty or a single quote. -/
theorem filterForKey_looksUp_iff (content name : Bytes) :
    LooksUp content name (filterForKey content name) ↔
      ∀ value, FirstValue name (streamLines content) value → value ≠ [] ∧ value ≠ [34] := by
  rcases filterLines_cases name (streamLines content) with ⟨value, hvalue, hresult⟩ | ⟨hno, hresult⟩
  · have hlookup : LooksUp content name (filterForKey content name) ↔
        stripQuotes value = some (unquote value) := by
      unfold LooksUp filterForKey
      rw [hresult]
      constructor
      · rintro (⟨value', hvalue', heq⟩ | ⟨hno, _⟩)
        · obtain rfl := hvalue.unique hvalue'
          exact heq
        · exact absurd ⟨value, hvalue⟩ hno
      · exact fun heq => .inl ⟨value, hvalue, heq⟩
    rw [hlookup, stripQuotes_eq]
    constructor
    · intro heq value' hvalue'
      rw [← hvalue.unique hvalue']
      split_ifs at heq with hfault
      exact not_or.mp hfault
    · intro h
      rw [if_neg (not_or.mpr (h value hvalue))]
  · refine ⟨fun _ value hvalue => absurd ⟨value, hvalue⟩ hno, fun _ => .inr ⟨hno, hresult⟩⟩

/-- The line `ID=` has an empty value. -/
theorem filterForKey_empty_value :
    ¬ LooksUp [73, 68, 61, 10] [73, 68] (filterForKey [73, 68, 61, 10] [73, 68]) := by
  have hfault : filterForKey [73, 68, 61, 10] [73, 68] = none := by decide
  rw [hfault]
  rintro (⟨_, _, h⟩ | ⟨_, h⟩) <;> cases h

end AcsNext.Collector
