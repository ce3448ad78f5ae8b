import Mathlib.Tactic

/-! Byte strings as the C library reads and writes them: characters of the C locale, the scanners
of decimal integers, and numbers as they are printed. -/
namespace AcsNext.Data

def isSpace (b : UInt8) : Bool := b == 32 || (9 ≤ b && b ≤ 13)

def isDigit (b : UInt8) : Bool := 48 ≤ b && b ≤ 57

def isXDigit (b : UInt8) : Bool := isDigit b || (65 ≤ b && b ≤ 70) || (97 ≤ b && b ≤ 102)

def isAlnum (b : UInt8) : Bool := isDigit b || (65 ≤ b && b ≤ 90) || (97 ≤ b && b ≤ 122)

def digitValue (b : UInt8) : ℕ := b.toNat - 48

def decimalValue (digits : List UInt8) : ℕ := digits.foldl (fun n b => 10 * n + digitValue b) 0

/-- What a pointer to the first byte sees of a string. -/
def cString (s : List UInt8) : List UInt8 := s.takeWhile (· != 0)

def scanSign : List UInt8 → Bool × List UInt8
  | 43 :: rest => (false, rest)
  | 45 :: rest => (true, rest)
  | s => (false, s)

/-- What the scanners of integers see after blanks: whether there is a minus sign, the digits,
and the rest. The end of a C string is no digit. -/
def scanInteger (s : List UInt8) : Bool × List UInt8 × List UInt8 :=
  let signed := scanSign (s.dropWhile isSpace)
  (signed.1, signed.2.takeWhile isDigit, signed.2.dropWhile isDigit)

/-- `std::stol`; none where it throws. -/
def stol (s : List UInt8) : Option ℤ :=
  match scanInteger s with
  | (_, [], _) => none
  | (negative, digits, _) =>
    let value : ℤ := if negative then -(decimalValue digits : ℤ) else decimalValue digits
    if -2 ^ 63 ≤ value ∧ value < 2 ^ 63 then some value else none

/-- `strtoumax` of 64 bits: the number, and where it stopped. -/
def strtoumax (s : List UInt8) : ℕ × List UInt8 :=
  match scanInteger s with
  | (_, [], _) => (0, s)
  | (negative, digits, rest) =>
    let value := decimalValue digits
    if 2 ^ 64 ≤ value then (2 ^ 64 - 1, rest)
    else if negative then ((2 ^ 64 - value) % 2 ^ 64, rest)
    else (value, rest)

theorem not_isSpace_of_isDigit {b : UInt8} (h : isDigit b = true) : isSpace b = false := by
  simp only [isDigit, Bool.and_eq_true, decide_eq_true_eq, UInt8.le_iff_toNat_le] at h
  simp only [isSpace, Bool.or_eq_false_iff, Bool.and_eq_false_iff, beq_eq_false_iff_ne, ne_eq,
    decide_eq_false_iff_not, UInt8.le_iff_toNat_le, ← UInt8.toNat_inj]
  simp only [UInt8.reduceToNat] at h ⊢
  omega

theorem scanSign_of_isDigit {b : UInt8} (h : isDigit b = true) (rest : List UInt8) :
    scanSign (b :: rest) = (false, b :: rest) := by
  unfold scanSign
  split
  · simp_all [isDigit]
  · simp_all [isDigit]
  · rfl

theorem scanInteger_digits {digits rest : List UInt8} (hne : digits ≠ [])
    (hdigits : ∀ b ∈ digits, isDigit b = true) (hrest : ∀ b ∈ rest.head?, isDigit b = false) :
    scanInteger (digits ++ rest) = (false, digits, rest) := by
  obtain ⟨b, tail, rfl⟩ := List.exists_cons_of_ne_nil hne
  have hb : isDigit b = true := hdigits b List.mem_cons_self
  have hblank : (b :: tail ++ rest).dropWhile isSpace = b :: tail ++ rest := by
    rw [List.cons_append, List.dropWhile_cons_of_neg (by simp [not_isSpace_of_isDigit hb])]
  have hstop : rest.takeWhile isDigit = [] ∧ rest.dropWhile isDigit = rest := by
    cases rest with
    | nil => exact ⟨rfl, rfl⟩
    | cons x xs =>
      have hx : ¬ isDigit x = true := by simp [hrest x rfl]
      exact ⟨List.takeWhile_cons_of_neg hx, List.dropWhile_cons_of_neg hx⟩
  unfold scanInteger
  dsimp only
  rw [hblank, List.cons_append, scanSign_of_isDigit hb, ← List.cons_append,
    List.takeWhile_append_of_pos hdigits, List.dropWhile_append_of_pos hdigits, hstop.1, hstop.2,
    List.append_nil]

theorem stol_digits {digits : List UInt8} (hne : digits ≠ [])
    (hdigits : ∀ b ∈ digits, isDigit b = true) (hvalue : decimalValue digits < 2 ^ 63) :
    stol digits = some (decimalValue digits : ℤ) := by
  have hscan : scanInteger (digits ++ []) = (false, digits, []) :=
    scanInteger_digits hne hdigits (by simp)
  rw [List.append_nil] at hscan
  obtain ⟨b, tail, rfl⟩ := List.exists_cons_of_ne_nil hne
  unfold stol
  rw [hscan]
  have hlow : (-2 ^ 63 : ℤ) ≤ decimalValue (b :: tail) := by omega
  have hhigh : (decimalValue (b :: tail) : ℤ) < 2 ^ 63 := by exact_mod_cast hvalue
  simp only [Bool.false_eq_true, if_false]
  rw [if_pos ⟨hlow, hhigh⟩]

def printDecimal (n : ℕ) : List UInt8 :=
  if n = 0 then [48] else (Nat.digits 10 n).reverse.map fun d => UInt8.ofNat (48 + d)

def upperHexDigit (d : ℕ) : UInt8 := if d < 10 then UInt8.ofNat (48 + d) else UInt8.ofNat (55 + d)

/-- The last `width` hexadecimal digits of a number, in upper case. -/
def printUpperHex : ℕ → ℕ → List UInt8
  | 0, _ => []
  | width + 1, n => printUpperHex width (n / 16) ++ [upperHexDigit (n % 16)]

theorem decimalValue_append_singleton (digits : List UInt8) (b : UInt8) :
    decimalValue (digits ++ [b]) = 10 * decimalValue digits + digitValue b := by
  unfold decimalValue
  rw [List.foldl_append]
  rfl

theorem toNat_ofNat_digit {d : ℕ} (h : d < 10) : (UInt8.ofNat (48 + d)).toNat = 48 + d := by
  rw [UInt8.toNat_ofNat']
  omega

theorem decimalValue_digits {l : List ℕ} (h : ∀ d ∈ l, d < 10) :
    decimalValue (l.reverse.map fun d => UInt8.ofNat (48 + d)) = Nat.ofDigits 10 l := by
  induction l with
  | nil => rfl
  | cons d l ih =>
    have hd := toNat_ofNat_digit (h d List.mem_cons_self)
    rw [List.reverse_cons, List.map_append, List.map_singleton, decimalValue_append_singleton,
      ih fun x hx => h x (List.mem_cons_of_mem d hx), Nat.ofDigits_cons, digitValue, hd]
    omega

theorem decimalValue_printDecimal (n : ℕ) : decimalValue (printDecimal n) = n := by
  unfold printDecimal
  split_ifs with hn
  · subst hn
    rfl
  · rw [decimalValue_digits fun d hd => Nat.digits_lt_base (by omega) hd, Nat.ofDigits_digits]

theorem isDigit_printDecimal {n : ℕ} {b : UInt8} (h : b ∈ printDecimal n) : isDigit b = true := by
  unfold printDecimal at h
  split_ifs at h with hn
  · obtain rfl := List.mem_singleton.mp h
    rfl
  · obtain ⟨d, hd, rfl⟩ := List.mem_map.mp h
    have hlt := Nat.digits_lt_base (by omega : 1 < 10) (List.mem_reverse.mp hd)
    have hnat := toNat_ofNat_digit hlt
    simp only [isDigit, Bool.and_eq_true, decide_eq_true_eq, UInt8.le_iff_toNat_le, hnat]
    simp only [UInt8.reduceToNat]
    omega

theorem printDecimal_ne_nil (n : ℕ) : printDecimal n ≠ [] := by
  unfold printDecimal
  split_ifs with hn
  · exact List.cons_ne_nil _ _
  · rw [ne_eq, List.map_eq_nil_iff, List.reverse_eq_nil_iff]
    exact Nat.digits_ne_nil_iff_ne_zero.mpr hn

/-- A printed number is read back, up to the first byte that is no digit. -/
theorem strtoumax_printDecimal {n : ℕ} (hn : n < 2 ^ 64) {rest : List UInt8}
    (hrest : ∀ b ∈ rest.head?, isDigit b = false) :
    strtoumax (printDecimal n ++ rest) = (n, rest) := by
  have hscan := scanInteger_digits (printDecimal_ne_nil n) (fun b hb => isDigit_printDecimal hb) hrest
  have hvalue := decimalValue_printDecimal n
  obtain ⟨b, tail, hdigits⟩ := List.exists_cons_of_ne_nil (printDecimal_ne_nil n)
  rw [hdigits] at hscan hvalue ⊢
  unfold strtoumax
  rw [hscan]
  simp only [hvalue, Bool.false_eq_true, if_false]
  rw [if_neg (not_le.mpr hn)]

theorem length_printUpperHex (width n : ℕ) : (printUpperHex width n).length = width := by
  induction width generalizing n with
  | zero => rfl
  | succ width ih => rw [printUpperHex, List.length_append, ih, List.length_singleton]

theorem drop_printUpperHex (width n : ℕ) (p : List UInt8) :
    (printUpperHex width n ++ p).drop width = p :=
  List.drop_left' (length_printUpperHex width n)

theorem printUpperHex_add_two (width n : ℕ) {b : ℕ} (hb : b < 256) :
    printUpperHex (width + 2) (256 * n + b) =
      printUpperHex width n ++ [upperHexDigit (b / 16), upperHexDigit (b % 16)] := by
  have hlow : (256 * n + b) % 16 = b % 16 := by omega
  have hhigh : (256 * n + b) / 16 % 16 = b / 16 := by omega
  have hrest : (256 * n + b) / 16 / 16 = n := by omega
  rw [printUpperHex, printUpperHex, hlow, hhigh, hrest, List.append_assoc]
  rfl

end AcsNext.Data
