import AcsNext.Collector.ProcessSignal
import AcsNext.Data.CString
import AcsNext.Data.Split
import AcsNext.Data.StringView

/-! Settings from environment variables: the parsers of `EnvVar` and the fallback to the default. -/
namespace AcsNext.Collector
open AcsNext.Data

/-- What the conversions of the standard library throw. -/
inductive ConversionException where
  | invalidArgument
  | outOfRange
deriving DecidableEq

/-- A parser may throw, or return `false` and thus no value. -/
abbrev EnvParser (T : Type) := Bytes → Except ConversionException (Option T)

def toLower (c : UInt8) : UInt8 := if 65 ≤ c ∧ c ≤ 90 then c + 32 else c

def trueText : Bytes := [116, 114, 117, 101]

def falseText : Bytes := [102, 97, 108, 115, 101]

def parseBool : EnvParser Bool := fun strVal =>
  if strVal = [] then .ok none else .ok (some (strVal.map toLower == trueText))

/-- The loop of `SplitStringView`; none where `substr` throws. -/
def splitFrom (sv : Bytes) (delim : UInt8) (offset : ℕ) : Option (List Bytes) :=
  match h : findChar sv delim offset with
  | none => do
    let rest ← substr sv offset
    pure [rest]
  | some n => do
    let part ← substrCount sv offset (sizeSub n offset)
    let parts ← splitFrom sv delim (n + 1)
    pure (part :: parts)
termination_by sv.length - offset
decreasing_by
  have hn := findChar_lt_length h
  omega

def splitStringView (sv : Bytes) (delim : UInt8) : Option (List Bytes) := splitFrom sv delim 0

def parseStringList : EnvParser (List Bytes) := fun strVal =>
  match splitStringView strVal 44 with
  | none => .error .outOfRange
  | some parts => .ok (some parts)

def parseString : EnvParser Bytes := fun strVal => .ok (some strVal)

def parsePath : EnvParser Bytes := fun strVal => .ok (some strVal)

/-- A scanner of the C library: the number at the beginning of a text, after blanks, or none if it
does not fit; and what follows it. -/
abbrev NumberScanner (T : Type) := Bytes → Option (Option T × Bytes)

/-- `std::stoi` and `std::stof` on top of their scanners. -/
def convert {T : Type} (scan : NumberScanner T) (s : Bytes) : Except ConversionException T :=
  match scan s with
  | none => .error .invalidArgument
  | some (none, _) => .error .outOfRange
  | some (some value, _) => .ok value

/-- `strtol`, with the range that `std::stoi` allows. -/
def scanInt : NumberScanner ℤ := fun s =>
  match scanInteger s with
  | (_, [], _) => none
  | (negative, digits, rest) =>
    let value : ℤ := if negative then -(decimalValue digits : ℤ) else decimalValue digits
    some (if -2 ^ 31 ≤ value ∧ value < 2 ^ 31 then some value else none, rest)

/-- The parsers of numbers never return `false`. -/
def parseNumber {T : Type} (scan : NumberScanner T) : EnvParser T := fun strVal =>
  (convert scan strVal).map some

def parseInt : EnvParser ℤ := parseNumber scanInt

/-- The floating point numbers are those that `strtof` yields. -/
def parseFloat {F : Type} (strtof : NumberScanner F) : EnvParser F := parseNumber strtof

def tryValue {T : Type} (parse : EnvParser T) (default : Option T) (envVal : Option Bytes) :
    Except ConversionException (Option T) :=
  match envVal with
  | none => .ok default
  | some envVal =>
    match parse envVal with
    | .error e => .error e
    | .ok none => .ok default
    | .ok (some val) => .ok (some val)

inductive EnvVar (F : Type) where
  | bool (default : Option Bool)
  | string (default : Option Bytes)
  | stringList (default : Option (List Bytes))
  | int (default : Option ℤ)
  | path (default : Option Bytes)
  | float (default : Option F)

def BoolDenotes (s : Bytes) (value : Bool) : Prop :=
  s.map toLower = if value then trueText else falseText

/-- The parts have no commas, and joined by commas they give the text. -/
def ListDenotes (s : Bytes) (parts : List Bytes) : Prop :=
  parts ≠ [] ∧ (∀ part ∈ parts, 44 ∉ part) ∧ [44].intercalate parts = s

def IntDenotes (s : Bytes) (value : ℤ) : Prop :=
  ∃ sign digits, s = sign ++ digits ∧ (sign = [] ∨ sign = [43] ∨ sign = [45]) ∧
    digits ≠ [] ∧ (∀ b ∈ digits, isDigit b = true) ∧
    value = (if sign = [45] then -(decimalValue digits : ℤ) else decimalValue digits) ∧
    -2 ^ 31 ≤ value ∧ value < 2 ^ 31

/-- The scanner reads all of the text, which does not begin with a blank. -/
def ScannerDenotes {T : Type} (scan : NumberScanner T) (s : Bytes) (value : T) : Prop :=
  (∀ b ∈ s.head?, isSpace b = false) ∧ scan s = some (some value, [])

/-- The result is the value that the text denotes, or the default if it does not denote any. -/
def FallsBack {T : Type} (denotes : Bytes → T → Prop) (s : Bytes) (default : Option T)
    (result : Except ConversionException (Option T)) : Prop :=
  (∃ value, denotes s value ∧ result = .ok (some value)) ∨
    ((¬ ∃ value, denotes s value) ∧ result = .ok default)

section Variables

variable {F : Type} (strtof : NumberScanner F)

/-- The variable has the right value if its text is `s`. -/
def EnvVar.RightValue (v : EnvVar F) (s : Bytes) : Prop :=
  match v with
  | .bool default => FallsBack BoolDenotes s default (tryValue parseBool default (some s))
  | .string default =>
    FallsBack (fun s value => value = s) s default (tryValue parseString default (some s))
  | .stringList default =>
    FallsBack ListDenotes s default (tryValue parseStringList default (some s))
  | .int default => FallsBack IntDenotes s default (tryValue parseInt default (some s))
  | .path default =>
    FallsBack (fun s value => value = s) s default (tryValue parsePath default (some s))
  | .float default =>
    FallsBack (ScannerDenotes strtof) s default (tryValue (parseFloat strtof) default (some s))

/-- A boolean is `true`, `false` or empty, or false by default; a number is a literal in range, or
it begins with the default. -/
def EnvVar.Regular (v : EnvVar F) (s : Bytes) : Prop :=
  match v with
  | .bool default =>
    s = [] ∨ s.map toLower = trueText ∨ s.map toLower = falseText ∨ default = some false
  | .int default => (∃ value, IntDenotes s value) ∨
      ∃ value rest, scanInt s = some (some value, rest) ∧ default = some value
  | .float default => (∃ value, ScannerDenotes strtof s value) ∨
      ∃ value rest, strtof s = some (some value, rest) ∧ default = some value
  | _ => True

end Variables

theorem splitFrom_of_none {sv : Bytes} {delim : UInt8} {offset : ℕ}
    (h : findChar sv delim offset = none) :
    splitFrom sv delim offset = (substr sv offset).map fun rest => [rest] := by
  rw [splitFrom]
  split
  · cases substr sv offset <;> rfl
  · simp_all

theorem splitFrom_of_some {sv : Bytes} {delim : UInt8} {offset n : ℕ}
    (h : findChar sv delim offset = some n) :
    splitFrom sv delim offset = (substrCount sv offset (sizeSub n offset)).bind fun part =>
      (splitFrom sv delim (n + 1)).map fun parts => part :: parts := by
  rw [splitFrom]
  split
  · simp_all
  · simp_all [Option.map_eq_bind]

theorem splitFrom_eq (delim : UInt8) (front rest : Bytes) :
    splitFrom (front ++ rest) delim front.length = some (rest.splitOn delim) := by
  induction hn : rest.length using Nat.strong_induction_on generalizing front rest with
  | _ n ih =>
    by_cases hmem : delim ∈ rest
    · obtain ⟨part, tail, rfl, hpart⟩ := List.eq_append_cons_of_mem hmem
      have hnext := ih tail.length (by rw [← hn]; simp; omega) (front ++ (part ++ [delim])) tail rfl
      have hcount : substrCount (front ++ (part ++ delim :: tail)) front.length
          (sizeSub (front.length + part.length) front.length) = some part := by
        simp [substrCount, sizeSub]
      simp only [List.append_assoc, List.singleton_append, List.length_append,
        List.length_singleton, ← Nat.add_assoc] at hnext
      rw [splitFrom_of_some (findChar_append_cons front hpart tail), hcount, hnext,
        List.splitOn_append_cons_self_of_not_mem hpart]
      rfl
    · have hnone : findChar (front ++ rest) delim front.length = none := by
        rw [findChar_eq_none_iff, List.drop_left]
        exact hmem
      rw [splitFrom_of_none hnone, substr_append, List.splitOn_eq_singleton hmem]
      rfl

theorem splitStringView_eq (sv : Bytes) (delim : UInt8) :
    splitStringView sv delim = some (sv.splitOn delim) := splitFrom_eq delim [] sv

theorem listDenotes_splitOn (s : Bytes) : ListDenotes s (s.splitOn 44) :=
  ⟨List.splitOn_ne_nil 44 s, fun _ => not_mem_of_mem_splitOn, List.intercalate_splitOn 44⟩

theorem tryValue_parseNumber {T : Type} (scan : NumberScanner T) (default : Option T) (s : Bytes) :
    tryValue (parseNumber scan) default (some s) =
      match scan s with
      | none => .error .invalidArgument
      | some (none, _) => .error .outOfRange
      | some (some value, _) => .ok (some value) := by
  unfold tryValue parseNumber convert
  rcases hscan : scan s with _ | ⟨_ | value, rest⟩ <;> simp [hscan, Except.map]

/-- A number parser is right for the literals, and where the number that it finds at the beginning
of another text is the default. -/
theorem fallsBack_parseNumber_iff {T : Type} (scan : NumberScanner T)
    (denotes : Bytes → T → Prop) {s : Bytes}
    (hdenotes : ∀ value, denotes s value → ∃ rest, scan s = some (some value, rest))
    (default : Option T) :
    FallsBack denotes s default (tryValue (parseNumber scan) default (some s)) ↔
      (∃ value, denotes s value) ∨
        ∃ value rest, scan s = some (some value, rest) ∧ default = some value := by
  have hscanned : ∀ value, denotes s value → ∀ found, scan s = some found →
      found.1 = some value := by
    intro value hvalue found hfound
    obtain ⟨rest, hrest⟩ := hdenotes value hvalue
    rw [hfound] at hrest
    rw [Option.some.inj hrest]
  unfold FallsBack
  rw [tryValue_parseNumber]
  rcases hscan : scan s with _ | ⟨_ | value, rest⟩
  · have hno : ∀ value, ¬ denotes s value := fun value hvalue => by
      obtain ⟨rest, hrest⟩ := hdenotes value hvalue
      rw [hscan] at hrest
      cases hrest
    simp [hno]
  · have hno : ∀ value, ¬ denotes s value := fun value hvalue => by
      cases hscanned value hvalue _ hscan
    simp [hno]
  · have hsame : ∀ value', denotes s value' → value' = value := fun value' hvalue' =>
      (Option.some.inj (hscanned value' hvalue' _ hscan)).symm
    dsimp only
    constructor
    · rintro (⟨value', hvalue', _⟩ | ⟨_, heq⟩)
      · exact .inl ⟨value', hvalue'⟩
      · exact .inr ⟨value, rest, rfl, (Except.ok.inj heq).symm⟩
    · intro h
      by_cases hliteral : ∃ value', denotes s value'
      · obtain ⟨value', hvalue'⟩ := hliteral
        exact .inl ⟨value', hvalue', by rw [hsame value' hvalue']⟩
      · obtain ⟨value', rest', heq, rfl⟩ := h.resolve_left hliteral
        obtain ⟨rfl, rfl⟩ : value = value' ∧ rest = rest' := by simpa using heq
        exact .inr ⟨hliteral, rfl⟩

theorem scanInteger_literal {sign digits : Bytes} (hsign : sign = [] ∨ sign = [43] ∨ sign = [45])
    (hne : digits ≠ []) (hdigits : ∀ b ∈ digits, isDigit b = true) :
    scanInteger (sign ++ digits) = (decide (sign = [45]), digits, []) := by
  have htake : digits.takeWhile isDigit = digits := List.takeWhile_eq_self_iff.mpr hdigits
  have hdrop : digits.dropWhile isDigit = [] := List.dropWhile_eq_nil_iff.mpr hdigits
  rcases hsign with rfl | rfl | rfl
  · have hscan : scanInteger (digits ++ []) = (false, digits, []) :=
      scanInteger_digits hne hdigits (by simp)
    simpa using hscan
  · change (false, digits.takeWhile isDigit, digits.dropWhile isDigit) = _
    rw [htake, hdrop]
    rfl
  · change (true, digits.takeWhile isDigit, digits.dropWhile isDigit) = _
    rw [htake, hdrop]
    rfl

theorem scanInt_of_denotes {s : Bytes} {value : ℤ} (h : IntDenotes s value) :
    scanInt s = some (some value, []) := by
  obtain ⟨sign, digits, rfl, hsign, hne, hdigits, hvalue, hrange⟩ := h
  unfold scanInt
  rw [scanInteger_literal hsign hne hdigits]
  obtain ⟨b, tail, rfl⟩ := List.exists_cons_of_ne_nil hne
  simp only [decide_eq_true_eq, ← hvalue, if_pos hrange]

theorem fallsBack_parseBool_iff (s : Bytes) (default : Option Bool) :
    FallsBack BoolDenotes s default (tryValue parseBool default (some s)) ↔
      s = [] ∨ s.map toLower = trueText ∨ s.map toLower = falseText ∨ default = some false := by
  by_cases hs : s = []
  · subst hs
    have hno : ¬ ∃ value, BoolDenotes [] value := by
      rintro ⟨_ | _, h⟩ <;> cases h
    exact iff_of_true (.inr ⟨hno, rfl⟩) (.inl rfl)
  · have hresult : tryValue parseBool default (some s) = .ok (some (s.map toLower == trueText)) := by
      simp [tryValue, parseBool, hs]
    rw [FallsBack, hresult]
    by_cases htrue : s.map toLower = trueText
    · refine iff_of_true (.inl ⟨true, htrue, ?_⟩) (.inr (.inl htrue))
      rw [htrue]
      rfl
    · have hvalue : (s.map toLower == trueText) = false := beq_false_of_ne htrue
      rw [hvalue]
      by_cases hfalse : s.map toLower = falseText
      · exact iff_of_true (.inl ⟨false, hfalse, rfl⟩) (.inr (.inr (.inl hfalse)))
      · have hno : ¬ ∃ value, BoolDenotes s value := by
          rintro ⟨_ | _, h⟩
          · exact hfalse h
          · exact htrue h
        simp only [hno, not_false_eq_true, true_and, hs, htrue, hfalse, false_or]
        constructor
        · rintro (⟨value, hvalue, _⟩ | heq)
          · exact absurd ⟨value, hvalue⟩ hno
          · exact (Except.ok.inj heq).symm
        · rintro rfl
          exact .inr rfl

/-- A variable has the right value exactly for the regular texts. -/
theorem envVar_rightValue_iff {F : Type} (strtof : NumberScanner F) (v : EnvVar F) (s : Bytes) :
    v.RightValue strtof s ↔ v.Regular strtof s := by
  cases v with
  | bool default => exact fallsBack_parseBool_iff s default
  | string default => exact iff_of_true (.inl ⟨s, rfl, rfl⟩) trivial
  | stringList default =>
    refine iff_of_true (.inl ⟨s.splitOn 44, listDenotes_splitOn s, ?_⟩) trivial
    simp [tryValue, parseStringList, splitStringView_eq]
  | int default =>
    exact fallsBack_parseNumber_iff scanInt IntDenotes
      (fun value h => ⟨[], scanInt_of_denotes h⟩) default
  | path default => exact iff_of_true (.inl ⟨s, rfl, rfl⟩) trivial
  | float default =>
    exact fallsBack_parseNumber_iff strtof (ScannerDenotes strtof)
      (fun value h => ⟨[], h.2⟩) default

/-- An interval that is set to `abc`: the exception is not caught. -/
theorem envVar_int_throws :
    ¬ ∀ (strtof : NumberScanner ℚ) (v : EnvVar ℚ) (s : Bytes), v.RightValue strtof s := by
  intro h
  have hresult : tryValue parseInt none (some [97, 98, 99]) = .error .invalidArgument := by
    decide
  have hright := h (fun _ => none) (.int none) [97, 98, 99]
  simp only [EnvVar.RightValue, hresult] at hright
  rcases hright with ⟨_, _, heq⟩ | ⟨_, heq⟩ <;> cases heq

end AcsNext.Collector
