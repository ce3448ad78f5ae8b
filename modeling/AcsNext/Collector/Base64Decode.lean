import AcsNext.Collector.ProcessSignal
import AcsNext.Data.Base64
import AcsNext.Data.CString
import AcsNext.Data.StringView

/-! The Base64 decoder. -/
namespace AcsNext.Collector
open AcsNext.Data

def base64Chars : Bytes :=
  (List.range 26).map (fun k => UInt8.ofNat (65 + k)) ++
    (List.range 26).map (fun k => UInt8.ofNat (97 + k)) ++
    (List.range 10).map (fun k => UInt8.ofNat (48 + k)) ++ [43, 47]

def isBase64 (c : UInt8) : Bool := isAlnum c || c == 43 || c == 47

/-- The position of a character in the alphabet as a byte, to which `npos` is cut as well. -/
def base64Find (c : UInt8) : UInt8 :=
  UInt8.ofNat ((findChar base64Chars c 0).getD (2 ^ 64 - 1))

/-- `char_array_3` of the four positions in `char_array_4`. -/
def charArray3 (c0 c1 c2 c3 : UInt8) : Bytes :=
  [(c0 <<< 2) + ((c1 &&& 0x30) >>> 4), ((c1 &&& 0xf) <<< 4) + ((c2 &&& 0x3c) >>> 2),
    ((c2 &&& 0x3) <<< 6) + c3]

/-- The loop over the characters: the part of `char_array_4` that is filled, and the bytes decoded
so far. The NUL after the last character ends it at the latest. -/
def decodeLoop (inLen : ℤ) (charArray4 ret : Bytes) : Bytes → Bytes × Bytes
  | [] => (charArray4, ret)
  | c :: rest =>
    if inLen ≠ 0 ∧ c ≠ 61 ∧ isBase64 c = true then
      match charArray4 with
      | [c0, c1, c2] => decodeLoop (inLen - 1) [] (ret ++ charArray3 (base64Find c0)
          (base64Find c1) (base64Find c2) (base64Find c)) rest
      | _ => decodeLoop (inLen - 1) (charArray4 ++ [c]) ret rest
    else (charArray4, ret)

def decodeTail (charArray4 ret : Bytes) : Bytes :=
  if charArray4.length = 0 then ret
  else
    let c := fun j => base64Find (charArray4.getD j 0)
    ret ++ (charArray3 (c 0) (c 1) (c 2) (c 3)).take (charArray4.length - 1)

def base64Decode (encodedString : Bytes) : Bytes :=
  -- the length as an `int`
  let inLen := (BitVec.ofNat 32 encodedString.length).toInt
  let read := decodeLoop inLen [] [] encodedString
  decodeTail read.1 read.2

theorem base64Find_base64Char {n : ℕ} (h : n < 64) : base64Find (base64Char n) = UInt8.ofNat n := by
  have hall : ∀ n < 64, base64Find (base64Char n) = UInt8.ofNat n := by decide +kernel
  exact hall n h

theorem isBase64_base64Char {n : ℕ} (h : n < 64) : isBase64 (base64Char n) = true := by
  have hall : ∀ n < 64, isBase64 (base64Char n) = true := by decide +kernel
  exact hall n h

section Groups

variable {w x y : ℕ}

/-- The bits that each of the masks keeps of a value of six bits. -/
theorem masks {n : ℕ} (h : n < 64) :
    UInt8.ofNat n <<< 2 = UInt8.ofNat (n * 4) ∧
    (UInt8.ofNat n &&& 0x30) >>> 4 = UInt8.ofNat (n / 16) ∧
    (UInt8.ofNat n &&& 0xf) <<< 4 = UInt8.ofNat (n % 16 * 16) ∧
    (UInt8.ofNat n &&& 0x3c) >>> 2 = UInt8.ofNat (n / 4) ∧
    (UInt8.ofNat n &&& 0x3) <<< 6 = UInt8.ofNat (n % 4 * 64) := by
  have hall : ∀ n < 64, UInt8.ofNat n <<< 2 = UInt8.ofNat (n * 4) ∧
      (UInt8.ofNat n &&& 0x30) >>> 4 = UInt8.ofNat (n / 16) ∧
      (UInt8.ofNat n &&& 0xf) <<< 4 = UInt8.ofNat (n % 16 * 16) ∧
      (UInt8.ofNat n &&& 0x3c) >>> 2 = UInt8.ofNat (n / 4) ∧
      (UInt8.ofNat n &&& 0x3) <<< 6 = UInt8.ofNat (n % 4 * 64) := by decide +kernel
  exact hall n h

theorem first_byte (hw : w < 64) (hx : x < 64) :
    (UInt8.ofNat w <<< 2) + ((UInt8.ofNat x &&& 0x30) >>> 4) = UInt8.ofNat (w * 4 + x / 16) := by
  rw [(masks hw).1, (masks hx).2.1, UInt8.ofNat_add]

theorem second_byte (hx : x < 64) (hy : y < 64) :
    ((UInt8.ofNat x &&& 0xf) <<< 4) + ((UInt8.ofNat y &&& 0x3c) >>> 2) =
      UInt8.ofNat (x % 16 * 16 + y / 4) := by
  rw [(masks hx).2.2.1, (masks hy).2.2.2.1, UInt8.ofNat_add]

theorem third_byte (hy : y < 64) (z : ℕ) :
    ((UInt8.ofNat y &&& 0x3) <<< 6) + UInt8.ofNat z = UInt8.ofNat (y % 4 * 64 + z) := by
  rw [(masks hy).2.2.2.2, UInt8.ofNat_add]

variable (a b c : UInt8)

theorem charArray3_sextets :
    charArray3 (UInt8.ofNat (a.toNat / 4)) (UInt8.ofNat (a.toNat % 4 * 16 + b.toNat / 16))
      (UInt8.ofNat (b.toNat % 16 * 4 + c.toNat / 64)) (UInt8.ofNat (c.toNat % 64)) = [a, b, c] := by
  have ha := a.toNat_lt
  have hb := b.toNat_lt
  have hc := c.toNat_lt
  have hfirst : a.toNat / 4 * 4 + (a.toNat % 4 * 16 + b.toNat / 16) / 16 = a.toNat := by omega
  have hsecond : (a.toNat % 4 * 16 + b.toNat / 16) % 16 * 16 +
      (b.toNat % 16 * 4 + c.toNat / 64) / 4 = b.toNat := by omega
  have hthird : (b.toNat % 16 * 4 + c.toNat / 64) % 4 * 64 + c.toNat % 64 = c.toNat := by omega
  rw [charArray3, first_byte (sextet_first_lt a) (sextet_second_lt a b),
    second_byte (sextet_second_lt a b) (sextet_third_lt b c), third_byte (sextet_third_lt b c),
    hfirst, hsecond, hthird, UInt8.ofNat_toNat, UInt8.ofNat_toNat, UInt8.ofNat_toNat]

/-- Whatever stands for the missing characters does not reach the bytes of a shorter group. -/
theorem charArray3_two (c3 : UInt8) :
    (charArray3 (UInt8.ofNat (a.toNat / 4)) (UInt8.ofNat (a.toNat % 4 * 16 + b.toNat / 16))
      (UInt8.ofNat (b.toNat % 16 * 4)) c3).take 2 = [a, b] := by
  have hb := b.toNat_lt
  have hfirst : a.toNat / 4 * 4 + (a.toNat % 4 * 16 + b.toNat / 16) / 16 = a.toNat := by omega
  have hsecond : (a.toNat % 4 * 16 + b.toNat / 16) % 16 * 16 + b.toNat % 16 * 4 / 4 =
      b.toNat := by omega
  rw [charArray3, first_byte (sextet_first_lt a) (sextet_second_lt a b),
    second_byte (sextet_second_lt a b) (sextet_third_last_lt b), hfirst, hsecond,
    UInt8.ofNat_toNat, UInt8.ofNat_toNat]
  rfl

theorem charArray3_one (c2 c3 : UInt8) :
    (charArray3 (UInt8.ofNat (a.toNat / 4)) (UInt8.ofNat (a.toNat % 4 * 16)) c2 c3).take 1 =
      [a] := by
  have hfirst : a.toNat / 4 * 4 + a.toNat % 4 * 16 / 16 = a.toNat := by omega
  rw [charArray3, first_byte (sextet_first_lt a) (sextet_second_last_lt a), hfirst,
    UInt8.ofNat_toNat]
  rfl

end Groups

section Loop

variable {inLen : ℤ} {n : ℕ}

theorem decodeLoop_cons (hlen : 0 < inLen) (hn : n < 64) {charArray4 : Bytes}
    (harray : charArray4.length < 3) (ret rest : Bytes) :
    decodeLoop inLen charArray4 ret (base64Char n :: rest) =
      decodeLoop (inLen - 1) (charArray4 ++ [base64Char n]) ret rest := by
  rw [decodeLoop, if_pos ⟨hlen.ne', base64Char_ne_pad hn, isBase64_base64Char hn⟩]
  rintro c0 c1 c2 rfl
  simp at harray

theorem decodeLoop_fourth (hlen : 0 < inLen) (hn : n < 64) (c0 c1 c2 : UInt8) (ret rest : Bytes) :
    decodeLoop inLen [c0, c1, c2] ret (base64Char n :: rest) =
      decodeLoop (inLen - 1) [] (ret ++ charArray3 (base64Find c0) (base64Find c1)
        (base64Find c2) (UInt8.ofNat n)) rest := by
  rw [decodeLoop, if_pos ⟨hlen.ne', base64Char_ne_pad hn, isBase64_base64Char hn⟩,
    base64Find_base64Char hn]

theorem decodeLoop_group (hlen : 4 ≤ inLen) (a b c : UInt8) (ret rest : Bytes) :
    decodeLoop inLen [] ret (base64Char (a.toNat / 4) ::
      base64Char (a.toNat % 4 * 16 + b.toNat / 16) ::
      base64Char (b.toNat % 16 * 4 + c.toNat / 64) :: base64Char (c.toNat % 64) :: rest) =
    decodeLoop (inLen - 4) [] (ret ++ [a, b, c]) rest := by
  have hcount : inLen - 1 - 1 - 1 - 1 = inLen - 4 := by ring
  rw [decodeLoop_cons (by omega) (sextet_first_lt a) (by decide),
    decodeLoop_cons (by omega) (sextet_second_lt a b) (by simp),
    decodeLoop_cons (by omega) (sextet_third_lt b c) (by simp)]
  simp only [List.nil_append, List.cons_append]
  rw [decodeLoop_fourth (by omega) (sextet_fourth_lt c), hcount,
    base64Find_base64Char (sextet_first_lt a), base64Find_base64Char (sextet_second_lt a b),
    base64Find_base64Char (sextet_third_lt b c), charArray3_sextets]

theorem decodeLoop_pad (charArray4 ret rest : Bytes) :
    decodeLoop inLen charArray4 ret (61 :: rest) = (charArray4, ret) := by
  simp [decodeLoop]

/-- A last group of three or two characters, whatever ends the loop after it. -/
theorem decodeTail_two (a b : UInt8) (ret : Bytes) :
    decodeTail [base64Char (a.toNat / 4), base64Char (a.toNat % 4 * 16 + b.toNat / 16),
      base64Char (b.toNat % 16 * 4)] ret = ret ++ [a, b] := by
  change ret ++ (charArray3 (base64Find _) (base64Find _) (base64Find _) (base64Find 0)).take 2 = _
  simp only [List.getD_cons_zero, List.getD_cons_succ]
  rw [base64Find_base64Char (sextet_first_lt a), base64Find_base64Char (sextet_second_lt a b),
    base64Find_base64Char (sextet_third_last_lt b), charArray3_two]

theorem decodeTail_one (a : UInt8) (ret : Bytes) :
    decodeTail [base64Char (a.toNat / 4), base64Char (a.toNat % 4 * 16)] ret = ret ++ [a] := by
  change ret ++ (charArray3 (base64Find _) (base64Find _) (base64Find 0) (base64Find 0)).take 1 = _
  simp only [List.getD_cons_zero, List.getD_cons_succ]
  rw [base64Find_base64Char (sextet_first_lt a), base64Find_base64Char (sextet_second_last_lt a),
    charArray3_one]

end Loop

/-- The loop and what follows it add the bytes `b` to those decoded before. -/
def Decodes (encoded ret b : Bytes) : Prop :=
  decodeTail (decodeLoop encoded.length [] ret encoded).1
    (decodeLoop encoded.length [] ret encoded).2 = ret ++ b

theorem decodes_cons {encoded ret rest : Bytes} (a b c : UInt8)
    (h : Decodes encoded (ret ++ [a, b, c]) rest) :
    Decodes (base64Char (a.toNat / 4) :: base64Char (a.toNat % 4 * 16 + b.toNat / 16) ::
      base64Char (b.toNat % 16 * 4 + c.toNat / 64) :: base64Char (c.toNat % 64) :: encoded) ret
      (a :: b :: c :: rest) := by
  have hcount : ((encoded.length + 1 + 1 + 1 + 1 : ℕ) : ℤ) - 4 = encoded.length := by
    push_cast
    ring
  unfold Decodes at h ⊢
  simp only [List.length_cons]
  rw [decodeLoop_group (by omega), hcount]
  simpa using h

theorem decodes_base64Encode (b ret : Bytes) : Decodes (base64Encode b) ret b := by
  induction b using base64Encode.induct generalizing ret with
  | case1 => simp [Decodes, base64Encode, decodeLoop, decodeTail]
  | case2 a =>
    unfold Decodes
    rw [base64Encode, decodeLoop_cons (by simp) (sextet_first_lt a) (by decide),
      decodeLoop_cons (by simp) (sextet_second_last_lt a) (by simp), decodeLoop_pad]
    exact decodeTail_one a ret
  | case3 a b =>
    unfold Decodes
    rw [base64Encode, decodeLoop_cons (by simp) (sextet_first_lt a) (by decide),
      decodeLoop_cons (by simp) (sextet_second_lt a b) (by simp),
      decodeLoop_cons (by simp) (sextet_third_last_lt b) (by simp), decodeLoop_pad]
    exact decodeTail_two a b ret
  | case4 a b c rest ih =>
    rw [base64Encode]
    exact decodes_cons a b c (ih _)

theorem decodes_base64EncodeUnpadded (b ret : Bytes) : Decodes (base64EncodeUnpadded b) ret b := by
  induction b using base64Encode.induct generalizing ret with
  | case1 => simp [Decodes, base64EncodeUnpadded, base64Encode, decodeLoop, decodeTail]
  | case2 a =>
    unfold Decodes
    rw [base64EncodeUnpadded_one, decodeLoop_cons (by simp) (sextet_first_lt a) (by decide),
      decodeLoop_cons (by simp) (sextet_second_last_lt a) (by simp)]
    exact decodeTail_one a ret
  | case3 a b =>
    unfold Decodes
    rw [base64EncodeUnpadded_two, decodeLoop_cons (by simp) (sextet_first_lt a) (by decide),
      decodeLoop_cons (by simp) (sextet_second_lt a b) (by simp),
      decodeLoop_cons (by simp) (sextet_third_last_lt b) (by simp)]
    exact decodeTail_two a b ret
  | case4 a b c rest ih =>
    rw [base64EncodeUnpadded_cons]
    exact decodes_cons a b c (ih _)

theorem base64Decode_of_decodes {encoded b : Bytes} (hlength : encoded.length < 2 ^ 31)
    (h : Decodes encoded [] b) : base64Decode encoded = b := by
  have hint : (BitVec.ofNat 32 encoded.length).toInt = encoded.length := by
    rw [BitVec.toInt_eq_toNat_of_lt]
    · rw [BitVec.toNat_ofNat, Nat.mod_eq_of_lt (by omega)]
    · rw [BitVec.toNat_ofNat, Nat.mod_eq_of_lt (by omega)]
      omega
  unfold base64Decode
  rw [hint]
  exact h

/-- The decoder inverts the encoding, padded or not. -/
theorem base64Decode_base64Encode (b : Bytes) (h : (base64Encode b).length < 2 ^ 31) :
    base64Decode (base64Encode b) = b ∧ base64Decode (base64EncodeUnpadded b) = b := by
  have hunpadded := length_base64EncodeUnpadded_le b
  exact ⟨base64Decode_of_decodes h (decodes_base64Encode b []),
    base64Decode_of_decodes (by omega) (decodes_base64EncodeUnpadded b [])⟩

/-- The text `M`, encoded as `TQ==`. -/
theorem base64Decode_letter :
    (base64Encode [77]).length < 2 ^ 31 ∧ base64Decode [84, 81, 61, 61] = [77] ∧
      base64Decode [84, 81] = [77] := by
  have h : (base64Encode [77]).length < 2 ^ 31 := by decide
  exact ⟨h, base64Decode_base64Encode [77] h⟩

end AcsNext.Collector
