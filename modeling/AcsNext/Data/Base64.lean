import Mathlib.Tactic

/-! The Base64 encoding of RFC 4648. -/
namespace AcsNext.Data

def base64Char (n : ℕ) : UInt8 :=
  if n < 26 then UInt8.ofNat (65 + n)
  else if n < 52 then UInt8.ofNat (71 + n)
  else if n < 62 then UInt8.ofNat (n - 4)
  else if n = 62 then 43 else 47

def base64Encode : List UInt8 → List UInt8
  | [] => []
  | [a] => [base64Char (a.toNat / 4), base64Char (a.toNat % 4 * 16), 61, 61]
  | [a, b] => [base64Char (a.toNat / 4), base64Char (a.toNat % 4 * 16 + b.toNat / 16),
      base64Char (b.toNat % 16 * 4), 61]
  | a :: b :: c :: rest => base64Char (a.toNat / 4) ::
      base64Char (a.toNat % 4 * 16 + b.toNat / 16) ::
      base64Char (b.toNat % 16 * 4 + c.toNat / 64) :: base64Char (c.toNat % 64) ::
      base64Encode rest

def base64EncodeUnpadded (b : List UInt8) : List UInt8 :=
  (base64Encode b).filter (· ≠ 61)

theorem base64Char_ne_pad {n : ℕ} (h : n < 64) : base64Char n ≠ 61 := by
  have hall : ∀ n < 64, base64Char n ≠ 61 := by decide
  exact hall n h

section Sextets

variable (a b c : UInt8)

theorem sextet_first_lt : a.toNat / 4 < 64 := by
  have ha := a.toNat_lt
  omega

theorem sextet_second_lt : a.toNat % 4 * 16 + b.toNat / 16 < 64 := by
  have hb := b.toNat_lt
  omega

theorem sextet_third_lt : b.toNat % 16 * 4 + c.toNat / 64 < 64 := by
  have hc := c.toNat_lt
  omega

theorem sextet_fourth_lt : c.toNat % 64 < 64 := Nat.mod_lt _ (by decide)

theorem sextet_second_last_lt : a.toNat % 4 * 16 < 64 := by omega

theorem sextet_third_last_lt : b.toNat % 16 * 4 < 64 := by omega

/-- Only the last group loses characters. -/
theorem base64EncodeUnpadded_cons (rest : List UInt8) :
    base64EncodeUnpadded (a :: b :: c :: rest) = base64Char (a.toNat / 4) ::
      base64Char (a.toNat % 4 * 16 + b.toNat / 16) ::
      base64Char (b.toNat % 16 * 4 + c.toNat / 64) :: base64Char (c.toNat % 64) ::
      base64EncodeUnpadded rest := by
  simp [base64EncodeUnpadded, base64Encode, base64Char_ne_pad (sextet_first_lt a),
    base64Char_ne_pad (sextet_second_lt a b), base64Char_ne_pad (sextet_third_lt b c),
    base64Char_ne_pad (sextet_fourth_lt c)]

theorem base64EncodeUnpadded_two : base64EncodeUnpadded [a, b] =
    [base64Char (a.toNat / 4), base64Char (a.toNat % 4 * 16 + b.toNat / 16),
      base64Char (b.toNat % 16 * 4)] := by
  simp [base64EncodeUnpadded, base64Encode, base64Char_ne_pad (sextet_first_lt a),
    base64Char_ne_pad (sextet_second_lt a b), base64Char_ne_pad (sextet_third_last_lt b)]

theorem base64EncodeUnpadded_one : base64EncodeUnpadded [a] =
    [base64Char (a.toNat / 4), base64Char (a.toNat % 4 * 16)] := by
  simp [base64EncodeUnpadded, base64Encode, base64Char_ne_pad (sextet_first_lt a),
    base64Char_ne_pad (sextet_second_last_lt a)]

end Sextets

theorem length_base64EncodeUnpadded_le (b : List UInt8) :
    (base64EncodeUnpadded b).length ≤ (base64Encode b).length := List.length_filter_le _ _

end AcsNext.Data
