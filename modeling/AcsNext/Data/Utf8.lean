import Mathlib.Data.Nat.Find
import Mathlib.Tactic

/-! Strings of bytes that are valid UTF-8, and where the decoding of the others fails. -/
namespace AcsNext.Data

/-- The bytes of a sequence of Unicode scalar values. -/
def ValidUtf8 (s : List UInt8) : Prop := s.toByteArray.IsValidUTF8

instance : DecidablePred ValidUtf8 := fun s =>
  inferInstanceAs (Decidable s.toByteArray.IsValidUTF8)

theorem validUtf8_nil : ValidUtf8 [] := ByteArray.isValidUTF8_empty

theorem ValidUtf8.append {s t : List UInt8} (hs : ValidUtf8 s) (ht : ValidUtf8 t) :
    ValidUtf8 (s ++ t) := by
  unfold ValidUtf8
  rw [List.toByteArray_append]
  exact ByteArray.IsValidUTF8.append hs ht

theorem validUtf8_ascii {b : UInt8} (h : b < 128) : ValidUtf8 [b] := by
  have hsize : (Char.ofUInt8 b).utf8Size = 1 := by
    rw [Char.utf8Size_eq_one_iff]
    change b.toUInt32 ≤ 127
    rw [UInt32.le_iff_toNat_le, UInt8.toNat_toUInt32]
    exact Nat.le_of_lt_succ (UInt8.lt_iff_toNat_lt.mp h)
  have hpush := ByteArray.isValidUTF8_empty.push hsize
  have hbyte : (Char.ofUInt8 b).toUInt8 = b := by
    change b.toUInt32.toUInt8 = b
    simp
  rw [hbyte] at hpush
  exact hpush

theorem ValidUtf8.intercalate {sep : List UInt8} (hsep : ValidUtf8 sep) {parts : List (List UInt8)}
    (h : ∀ s ∈ parts, ValidUtf8 s) : ValidUtf8 (sep.intercalate parts) := by
  induction parts with
  | nil => exact validUtf8_nil
  | cons s parts ih =>
    have hs := h s List.mem_cons_self
    have hparts := ih fun t ht => h t (List.mem_cons_of_mem s ht)
    cases parts with
    | nil => simpa using hs
    | cons t parts =>
      rw [List.intercalate_cons_cons]
      exact (hs.append hsep).append hparts

/-- The first `n` bytes are the longest prefix of `s` made of complete characters. -/
structure LongestValid (s : List UInt8) (n : ℕ) : Prop where
  le_length : n ≤ s.length
  valid : ValidUtf8 (s.take n)
  le_of_valid : ∀ m ≤ s.length, ValidUtf8 (s.take m) → m ≤ n

namespace LongestValid

variable {s : List UInt8} {n m : ℕ}

theorem unique (hn : LongestValid s n) (hm : LongestValid s m) : n = m :=
  le_antisymm (hm.le_of_valid n hn.le_length hn.valid) (hn.le_of_valid m hm.le_length hm.valid)

theorem eq_length_iff (h : LongestValid s n) : n = s.length ↔ ValidUtf8 s := by
  constructor
  · rintro rfl
    simpa using h.valid
  · intro hs
    have hle := h.le_of_valid s.length le_rfl (by simpa using hs)
    exact le_antisymm h.le_length hle

theorem ascii_le (h : LongestValid s n) (hn : n < s.length) : 128 ≤ s[n] := by
  by_contra hlt
  have hascii := validUtf8_ascii (UInt8.not_le.mp hlt)
  have hvalid : ValidUtf8 (s.take (n + 1)) := by
    rw [List.take_succ_eq_append_getElem hn]
    exact h.valid.append hascii
  have := h.le_of_valid (n + 1) hn hvalid
  omega

end LongestValid

def longestValid (s : List UInt8) : ℕ :=
  Nat.findGreatest (fun n => ValidUtf8 (s.take n)) s.length

theorem longestValid_spec (s : List UInt8) : LongestValid s (longestValid s) where
  le_length := Nat.findGreatest_le _
  valid := by
    apply Nat.findGreatest_spec (P := fun n => ValidUtf8 (s.take n)) (Nat.zero_le _)
    exact validUtf8_nil
  le_of_valid _ hle hvalid := Nat.le_findGreatest hle hvalid

/-- Decoding from the left fails at byte `i`: it takes the longest valid prefix, skips the byte
after it and resumes. -/
inductive DecodingFails : List UInt8 → ℕ → Prop
  | here {s : List UInt8} {n : ℕ} : LongestValid s n → n < s.length → DecodingFails s n
  | later {s : List UInt8} {n i : ℕ} : LongestValid s n → n < s.length →
      DecodingFails (s.drop (n + 1)) i → DecodingFails s (n + 1 + i)

namespace LongestValid

variable {s : List UInt8} {n : ℕ}

theorem le_of_decodingFails (h : LongestValid s n) {i : ℕ} (hi : DecodingFails s i) :
    n ≤ i ∧ n < s.length := by
  cases hi with
  | here hn hlt =>
    obtain rfl := hn.unique h
    exact ⟨le_rfl, hlt⟩
  | later hn hlt _ =>
    obtain rfl := hn.unique h
    exact ⟨by omega, hlt⟩

/-- After the first failure decoding fails where that of the rest does. -/
theorem decodingFails_add_iff (h : LongestValid s n) (hlt : n < s.length) (i : ℕ) :
    DecodingFails s (n + 1 + i) ↔ DecodingFails (s.drop (n + 1)) i := by
  constructor
  · intro hi
    generalize hj : n + 1 + i = j at hi
    cases hi with
    | here hn _ =>
      have := hn.unique h
      omega
    | later hn _ hlater =>
      obtain rfl := hn.unique h
      rwa [Nat.add_left_cancel hj]
  · exact .later h hlt

end LongestValid

end AcsNext.Data
