import Mathlib.Tactic

/-! The scanner that a JSON decoder runs over its input before it decodes anything: one
state and a stack of the open objects and arrays. -/
namespace AcsNext.Data

namespace Json

def isSpace (c : UInt8) : Bool := c == 32 || c == 9 || c == 13 || c == 10

def isDigit (c : UInt8) : Bool := decide (48 ≤ c) && decide (c ≤ 57)

def isHexDigit (c : UInt8) : Bool :=
  isDigit c || (decide (97 ≤ c) && decide (c ≤ 102)) || (decide (65 ≤ c) && decide (c ≤ 70))

/-- A control byte that is not white space. -/
def isControl (c : UInt8) : Bool := decide (c < 32) && !isSpace c

/-- The byte after a backslash: one of `b`, `f`, `n`, `r`, `t`, `\`, `/` and the quote. -/
def isEscape (c : UInt8) : Bool := [98, 102, 110, 114, 116, 92, 47, 34].contains c

inductive ParseState where
  | objectKey
  | objectValue
  | arrayValue
deriving DecidableEq, Repr

inductive ScanState where
  | beginValue
  | beginValueOrEmpty
  | beginString
  | beginStringOrEmpty
  | endValue
  | endTop
  | inString
  | inStringEsc
  /-- That many digits of a `\u` escape are still to come. -/
  | inStringEscU (digits : ℕ)
  | neg
  | digits0
  | digits1
  | dot
  | dot0
  | exponent
  | exponentSign
  | exponent0
  -- the letters of `true`, `false` and `null` read so far
  | t
  | tr
  | tru
  | f
  | fa
  | fal
  | fals
  | n
  | nu
  | nul
  | error
deriving DecidableEq, Repr

/-- `parseState` has the innermost value first; `endTop` tells that the top value is over. -/
structure Scanner where
  state : ScanState
  parseState : List ParseState
  endTop : Bool
deriving DecidableEq, Repr

def maxNestingDepth : ℕ := 10000

namespace Scanner

def reset : Scanner := ⟨.beginValue, [], false⟩

variable (s : Scanner)

def fail : Scanner := { s with state := .error }

def goto (state : ScanState) : Scanner := { s with state := state }

def pushParseState (ps : ParseState) (state : ScanState) : Scanner :=
  if s.parseState.length + 1 ≤ maxNestingDepth then
    { s with parseState := ps :: s.parseState, state := state }
  else { s with parseState := ps :: s.parseState, state := .error }

def popParseState : Scanner :=
  match s.parseState.tail with
  | [] => ⟨.endTop, [], true⟩
  | rest => { s with parseState := rest, state := .endValue }

def stateEndTop (c : UInt8) : Scanner := if isSpace c then s else s.fail

def stateEndValue (c : UInt8) : Scanner :=
  match s.parseState with
  | [] => stateEndTop { s with state := .endTop, endTop := true } c
  | ps :: rest =>
    if isSpace c then s.goto .endValue
    else
      match ps with
      | .objectKey =>
        if c = 58 then { s with parseState := .objectValue :: rest, state := .beginValue }
        else s.fail
      | .objectValue =>
        if c = 44 then { s with parseState := .objectKey :: rest, state := .beginString }
        else if c = 125 then s.popParseState
        else s.fail
      | .arrayValue =>
        if c = 44 then s.goto .beginValue
        else if c = 93 then s.popParseState
        else s.fail

def stateBeginValue (c : UInt8) : Scanner :=
  if isSpace c then s
  else if c = 123 then s.pushParseState .objectKey .beginStringOrEmpty
  else if c = 91 then s.pushParseState .arrayValue .beginValueOrEmpty
  else if c = 34 then s.goto .inString
  else if c = 45 then s.goto .neg
  else if c = 48 then s.goto .digits0
  else if c = 116 then s.goto .t
  else if c = 102 then s.goto .f
  else if c = 110 then s.goto .n
  else if isDigit c then s.goto .digits1
  else s.fail

def stateBeginString (c : UInt8) : Scanner :=
  if isSpace c then s
  else if c = 34 then s.goto .inString
  else s.fail

def stateInString (c : UInt8) : Scanner :=
  if c = 34 then s.goto .endValue
  else if c = 92 then s.goto .inStringEsc
  else if c < 32 then s.fail
  else s

def state0 (c : UInt8) : Scanner :=
  if c = 46 then s.goto .dot
  else if c = 101 ∨ c = 69 then s.goto .exponent
  else s.stateEndValue c

def stateExponentSign (c : UInt8) : Scanner :=
  if isDigit c then s.goto .exponent0 else s.fail

def expect (b : UInt8) (next : ScanState) (c : UInt8) : Scanner :=
  if c = b then s.goto next else s.fail

def step (c : UInt8) : Scanner :=
  match s.state with
  | .beginValue => s.stateBeginValue c
  | .beginValueOrEmpty =>
    if isSpace c then s else if c = 93 then s.stateEndValue c else s.stateBeginValue c
  | .beginString => s.stateBeginString c
  | .beginStringOrEmpty =>
    if isSpace c then s
    else if c = 125 then
      stateEndValue { s with parseState := .objectValue :: s.parseState.tail } c
    else s.stateBeginString c
  | .endValue => s.stateEndValue c
  | .endTop => s.stateEndTop c
  | .inString => s.stateInString c
  | .inStringEsc =>
    if isEscape c then s.goto .inString
    else if c = 117 then s.goto (.inStringEscU 4)
    else s.fail
  | .inStringEscU digits =>
    if isHexDigit c then
      if digits ≤ 1 then s.goto .inString else s.goto (.inStringEscU (digits - 1))
    else s.fail
  | .neg =>
    if c = 48 then s.goto .digits0 else if isDigit c then s.goto .digits1 else s.fail
  | .digits1 => if isDigit c then s else s.state0 c
  | .digits0 => s.state0 c
  | .dot => if isDigit c then s.goto .dot0 else s.fail
  | .dot0 =>
    if isDigit c then s
    else if c = 101 ∨ c = 69 then s.goto .exponent
    else s.stateEndValue c
  | .exponent =>
    if c = 43 ∨ c = 45 then s.goto .exponentSign else s.stateExponentSign c
  | .exponentSign => s.stateExponentSign c
  | .exponent0 => if isDigit c then s else s.stateEndValue c
  | .t => s.expect 114 .tr c
  | .tr => s.expect 117 .tru c
  | .tru => s.expect 101 .endValue c
  | .f => s.expect 97 .fa c
  | .fa => s.expect 108 .fal c
  | .fal => s.expect 115 .fals c
  | .fals => s.expect 101 .endValue c
  | .n => s.expect 117 .nu c
  | .nu => s.expect 108 .nul c
  | .nul => s.expect 108 .endValue c
  | .error => s

/-- The end of the input; a number at the top is ended by it. -/
def eof : Bool :=
  if s.state = .error then false
  else if s.endTop then true
  else (s.step 32).endTop

end Scanner

/-- `checkValid`: the input is one JSON value with white space around it. -/
def checkValid (data : List UInt8) : Bool := (data.foldl Scanner.step .reset).eof

theorem lt_of_isControl {c : UInt8} (h : isControl c = true) : c < 32 := by
  unfold isControl at h
  rw [Bool.and_eq_true, decide_eq_true_eq] at h
  exact h.1

theorem ne_of_isControl {c : UInt8} (h : isControl c = true) {k : UInt8} (hk : 32 ≤ k) :
    c ≠ k := by
  rintro rfl
  exact absurd (lt_of_isControl h) (UInt8.not_lt.2 hk)

theorem isSpace_of_isControl {c : UInt8} (h : isControl c = true) : isSpace c = false := by
  unfold isControl at h
  rw [Bool.and_eq_true, Bool.not_eq_true'] at h
  exact h.2

theorem isHexDigit_of_isControl {c : UInt8} (h : isControl c = true) : isHexDigit c = false := by
  have hlt := UInt8.lt_iff_toNat_lt.1 (lt_of_isControl h)
  unfold isHexDigit isDigit
  simp only [Bool.or_eq_false_iff, Bool.and_eq_false_iff, decide_eq_false_iff_not,
    UInt8.le_iff_toNat_le, UInt8.reduceToNat] at hlt ⊢
  omega

theorem isDigit_of_isControl {c : UInt8} (h : isControl c = true) : isDigit c = false := by
  have hhex := isHexDigit_of_isControl h
  unfold isHexDigit at hhex
  rw [Bool.or_eq_false_iff, Bool.or_eq_false_iff] at hhex
  exact hhex.1.1

theorem isEscape_of_isControl {c : UInt8} (h : isControl c = true) : isEscape c = false := by
  simp [isEscape, ne_of_isControl h]

namespace Scanner

variable (s : Scanner)

theorem stateEndValue_of_isControl {c : UInt8} (h : isControl c = true) :
    (s.stateEndValue c).state = .error := by
  have hspace := isSpace_of_isControl h
  unfold stateEndValue
  cases s.parseState with
  | nil => simp [stateEndTop, hspace, fail]
  | cons ps rest => cases ps <;> simp [hspace, ne_of_isControl h, fail]

theorem stateBeginValue_of_isControl {c : UInt8} (h : isControl c = true) :
    (s.stateBeginValue c).state = .error := by
  simp [stateBeginValue, isSpace_of_isControl h, isDigit_of_isControl h, ne_of_isControl h, fail]

theorem stateBeginString_of_isControl {c : UInt8} (h : isControl c = true) :
    (s.stateBeginString c).state = .error := by
  simp [stateBeginString, isSpace_of_isControl h, ne_of_isControl h, fail]

theorem state0_of_isControl {c : UInt8} (h : isControl c = true) :
    (s.state0 c).state = .error := by
  simp [state0, ne_of_isControl h, stateEndValue_of_isControl s h]

/-- No state of the scanner accepts a control byte. -/
theorem step_of_isControl {c : UInt8} (h : isControl c = true) :
    (s.step c).state = .error := by
  have hspace := isSpace_of_isControl h
  have hdigit := isDigit_of_isControl h
  have hlt := lt_of_isControl h
  unfold step
  cases hs : s.state with
  | error => exact hs
  | endTop => simp [stateEndTop, hspace, fail]
  | inString => simp [stateInString, ne_of_isControl h, hlt, fail]
  | _ => simp [hspace, hdigit, isHexDigit_of_isControl h, isEscape_of_isControl h,
      ne_of_isControl h, stateExponentSign, expect, fail, stateEndValue_of_isControl s h,
      stateBeginValue_of_isControl s h, stateBeginString_of_isControl s h,
      state0_of_isControl s h]

variable {s}

theorem step_of_error {c : UInt8} (h : s.state = .error) : (s.step c).state = .error := by
  unfold step
  rw [h]
  exact h

theorem foldl_step_of_error {data : List UInt8} (h : s.state = .error) :
    (data.foldl step s).state = .error := by
  induction data generalizing s with
  | nil => exact h
  | cons c data ih => exact ih (step_of_error h)

/-- A control byte anywhere in the input leaves the scanner in its error state. -/
theorem foldl_step_of_isControl {data : List UInt8} (h : ∃ c ∈ data, isControl c = true) :
    (data.foldl step s).state = .error := by
  induction data generalizing s with
  | nil => simp at h
  | cons c data ih =>
    rw [List.foldl_cons]
    obtain ⟨d, hmem, hd⟩ := h
    rcases List.mem_cons.1 hmem with rfl | hmem
    · exact foldl_step_of_error (step_of_isControl s hd)
    · exact ih ⟨d, hmem, hd⟩

end Scanner

theorem checkValid_of_isControl {data : List UInt8} (h : ∃ c ∈ data, isControl c = true) :
    checkValid data = false := by
  unfold checkValid Scanner.eof
  rw [if_pos (Scanner.foldl_step_of_isControl h)]

-- an object with one member, and the same text with a raw control byte in it
example : checkValid [123, 34, 97, 34, 58, 32, 49, 125] = true := by decide
example : checkValid [123, 34, 97, 34, 58, 18, 49, 125] = false := by decide

end Json

end AcsNext.Data
