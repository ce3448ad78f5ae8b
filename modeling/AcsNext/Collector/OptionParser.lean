import AcsNext.Collector.ProcessSignal

/-! The parser of command line options, in the mode that stops at the first argument that is no
option, without abbreviations and without long options after a single minus. -/
namespace AcsNext.Collector

inductive ArgStatus where
  | none
  | ok
  | ignore
  | illegal
deriving DecidableEq, Repr

/-- A line of the usage table. Checking an argument, with or without error messages, may change
the state of the program. -/
structure Descriptor (I S : Type) where
  index : I
  shortopt : Bytes
  longopt : Bytes
  checkArg : Option Bytes → Bool → S → ArgStatus × S

/-- An option of the command line; the name is the text from the option on. -/
structure ParsedOption (I : Type) where
  index : I
  name : Bytes
  arg : Option Bytes
deriving DecidableEq

/-- The first text is the second one up to its end or up to an equals sign. -/
def streq : Bytes → Bytes → Bool
  | [], st2 => st2.head?.all (· == 61)
  | _ :: _, [] => false
  | c :: st1, c' :: st2 => c == c' && streq st1 st2

def attachedArg (name : Bytes) : Option Bytes :=
  match name.dropWhile (· != 61) with
  | [] => none
  | _ :: arg => some arg

section Parser

variable {I S : Type} (usage : List (Descriptor I S)) (printErrors : Bool)

/-- The first line that fits, or else the first one with two empty names. -/
def findDescriptor (fits : Descriptor I S → Bool) : Option (Descriptor I S) :=
  match usage.find? fits with
  | some d => some d
  | none => usage.find? fun d => d.shortopt.isEmpty && d.longopt.isEmpty

/-- One option: nothing if its argument is illegal, else the option, and whether the argument
belongs to it. -/
def handleOption (d : Descriptor I S) (name : Bytes) (optarg : Option Bytes) (s : S) :
    Option (ParsedOption I × Bool) × S :=
  match d.checkArg optarg printErrors s with
  | (.illegal, s) => (none, s)
  | (.ok, s) => (some (⟨d.index, name, optarg⟩, true), s)
  | (.ignore, s) => (some (⟨d.index, name, none⟩, false), s)
  | (.none, s) => (some (⟨d.index, name, none⟩, false), s)

/-- A long option: the options found, and whether the next argument is taken. -/
def longOption (next : Option Bytes) (param : Bytes) (s : S) :
    Option (List (ParsedOption I) × Bool) × S :=
  let longoptName := param.drop 2
  match findDescriptor usage fun d => streq d.longopt longoptName with
  | none => (some ([], false), s)
  | some d =>
    let attached := attachedArg longoptName
    match handleOption printErrors d param (attached.or next) s with
    | (none, s) => (none, s)
    | (some (option, argTaken), s) =>
      (some ([option], argTaken && attached.isNone && next.isSome), s)

/-- A group of short options, which ends with the first one that takes an argument. -/
def shortOptions (next : Option Bytes) : Bytes → S → Option (List (ParsedOption I) × Bool) × S
  | [], s => (some ([], false), s)
  | c :: rest, s =>
    match findDescriptor usage fun d => d.shortopt.contains c with
    | none => shortOptions next rest s
    | some d =>
      let optarg := if rest = [] then next else some rest
      match handleOption printErrors d (c :: rest) optarg s with
      | (none, s) => (none, s)
      | (some (option, true), s) => (some ([option], rest.isEmpty && next.isSome), s)
      | (some (option, false), s) =>
        match shortOptions next rest s with
        | (none, s) => (none, s)
        | (some (options, taken), s) => (some (option :: options, taken), s)

/-- A lone minus is no option. -/
def isOption (param : Bytes) : Bool := param.head? == some 45 && param.length != 1

def endOfOptions : Bytes := [45, 45]

def parseParam (next : Option Bytes) (param : Bytes) (s : S) :
    Option (List (ParsedOption I) × Bool) × S :=
  if endOfOptions.isPrefixOf param then longOption usage printErrors next param s
  else shortOptions usage printErrors next (param.drop 1) s

/-- The options in their order, unless an argument is illegal; and the state in any case. -/
def workhorse : List Bytes → S → Option (List (ParsedOption I)) × S
  | [], s => (some [], s)
  | param :: rest, s =>
    if !isOption param then (some [], s)
    else if param = endOfOptions then (some [], s)
    else
      match parseParam usage printErrors rest.head? param s with
      | (none, s) => (none, s)
      | (some (options, taken), s) =>
        let after :=
          match rest with
          | [] => (some [], s)
          | next :: rest => if taken then workhorse rest s else workhorse (next :: rest) s
        (after.1.map (options ++ ·), after.2)

variable {usage printErrors}

theorem workhorse_of_stop {param : Bytes} (h : isOption param = false ∨ param = endOfOptions)
    (rest : List Bytes) (s : S) :
    workhorse usage printErrors (param :: rest) s = (some [], s) := by
  rw [workhorse]
  rcases h with h | h
  · rw [if_pos (by simp [h])]
  · by_cases hoption : (!isOption param) = true
    · rw [if_pos hoption]
    · rw [if_neg hoption, if_pos h]

theorem workhorse_of_illegal {param : Bytes} (hoption : isOption param = true)
    (hend : param ≠ endOfOptions) {rest : List Bytes} {s s' : S}
    (hparsed : parseParam usage printErrors rest.head? param s = (none, s')) :
    workhorse usage printErrors (param :: rest) s = (none, s') := by
  rw [workhorse, if_neg (by simp [hoption]), if_neg hend, hparsed]

theorem workhorse_of_parsed {param : Bytes} (hoption : isOption param = true)
    (hend : param ≠ endOfOptions) {rest : List Bytes} {s s' : S}
    {options : List (ParsedOption I)} {taken : Bool}
    (hparsed : parseParam usage printErrors rest.head? param s = (some (options, taken), s')) :
    workhorse usage printErrors (param :: rest) s =
      let after := workhorse usage printErrors (if taken then rest.tail else rest) s'
      (after.1.map (options ++ ·), after.2) := by
  rw [workhorse, if_neg (by simp [hoption]), if_neg hend, hparsed]
  cases rest with
  | nil => cases taken <;> rfl
  | cons next rest => cases taken <;> rfl

end Parser

theorem streq_iff {st1 st2 : Bytes} :
    streq st1 st2 = true ↔ st2 = st1 ∨ ∃ arg, st2 = st1 ++ 61 :: arg := by
  induction st1 generalizing st2 with
  | nil =>
    cases st2 with
    | nil => simp [streq]
    | cons c st2 =>
      have hhead : streq [] (c :: st2) = true ↔ c = 61 := by simp [streq]
      rw [hhead]
      constructor
      · rintro rfl
        exact Or.inr ⟨st2, rfl⟩
      · rintro (h | ⟨arg, h⟩)
        · cases h
        · exact (List.cons.inj h).1
  | cons c st1 ih =>
    cases st2 with
    | nil => simp [streq]
    | cons c' st2 =>
      rw [streq, Bool.and_eq_true, ih, beq_iff_eq]
      constructor
      · rintro ⟨rfl, rfl | ⟨arg, rfl⟩⟩
        · exact Or.inl rfl
        · exact Or.inr ⟨arg, rfl⟩
      · rintro (h | ⟨arg, h⟩)
        · obtain ⟨rfl, rfl⟩ := List.cons.inj h
          exact ⟨rfl, Or.inl rfl⟩
        · obtain ⟨rfl, rfl⟩ := List.cons.inj h
          exact ⟨rfl, Or.inr ⟨arg, rfl⟩⟩

theorem dropWhile_name {name : Bytes} (h : 61 ∉ name) (rest : Bytes) :
    (name ++ rest).dropWhile (· != 61) = rest.dropWhile (· != 61) := by
  apply List.dropWhile_append_of_pos
  intro c hc
  simp only [bne_iff_ne, ne_eq]
  rintro rfl
  exact h hc

theorem attachedArg_of_not_mem {name : Bytes} (h : 61 ∉ name) : attachedArg name = none := by
  have hdrop := dropWhile_name h []
  rw [List.append_nil] at hdrop
  rw [attachedArg, hdrop]
  rfl

theorem attachedArg_append {name : Bytes} (h : 61 ∉ name) (arg : Bytes) :
    attachedArg (name ++ 61 :: arg) = some arg := by
  rw [attachedArg, dropWhile_name h]
  rfl

end AcsNext.Collector
