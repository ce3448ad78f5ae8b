import Mathlib.Tactic

/-! The protobuf wire format, as far as a message of scalars, strings and sub-messages needs
it. Fields at their default value are left out. -/
namespace AcsNext.Data

namespace Proto

inductive WireType where
  | varint
  | lengthDelimited
deriving DecidableEq, Repr

def WireType.code : WireType → ℕ
  | .varint => 0
  | .lengthDelimited => 2

/-- Seven bits a byte, the lowest first; `fuel` bounds the number of bytes. -/
def varintBytes : ℕ → ℕ → List UInt8
  | 0, _ => []
  | fuel + 1, n =>
    if n < 128 then [UInt8.ofNat n]
    else UInt8.ofNat (n % 128 + 128) :: varintBytes fuel (n / 128)

/-- Ten groups of seven bits hold every 64-bit value. -/
def varint (n : BitVec 64) : List UInt8 := varintBytes 10 n.toNat

def tag (field : ℕ) (wireType : WireType) : List UInt8 :=
  varint (BitVec.ofNat 64 (field * 8 + wireType.code))

def lengthDelimited (field : ℕ) (payload : List UInt8) : List UInt8 :=
  tag field .lengthDelimited ++ varint (BitVec.ofNat 64 payload.length) ++ payload

def uint64Field (field : ℕ) (v : BitVec 64) : List UInt8 :=
  if v = 0 then [] else tag field .varint ++ varint v

def uint32Field (field : ℕ) (v : BitVec 32) : List UInt8 := uint64Field field (v.setWidth 64)

def int64Field (field : ℕ) (v : BitVec 64) : List UInt8 := uint64Field field v

/-- A negative value is sign-extended and takes ten bytes. -/
def int32Field (field : ℕ) (v : BitVec 32) : List UInt8 := uint64Field field (v.signExtend 64)

def stringField (field : ℕ) (v : List UInt8) : List UInt8 :=
  if v = [] then [] else lengthDelimited field v

/-- A sub-message is written if it is present, be it empty. -/
def messageField (field : ℕ) (v : Option (List UInt8)) : List UInt8 :=
  match v with
  | none => []
  | some payload => lengthDelimited field payload

def repeatedField (field : ℕ) (vs : List (List UInt8)) : List UInt8 :=
  vs.flatMap (lengthDelimited field)

theorem tag_of_lt {field : ℕ} {wireType : WireType} (h : field * 8 + wireType.code < 128) :
    tag field wireType = [UInt8.ofNat (field * 8 + wireType.code)] := by
  have hn : (BitVec.ofNat 64 (field * 8 + wireType.code)).toNat = field * 8 + wireType.code := by
    rw [BitVec.toNat_ofNat]
    apply Nat.mod_eq_of_lt
    omega
  unfold tag varint varintBytes
  rw [hn, if_pos h]

theorem mem_messageField {field : ℕ} (h : field < 16) {v : Option (List UInt8)}
    (hv : v.isSome = true) : UInt8.ofNat (field * 8 + 2) ∈ messageField field v := by
  obtain ⟨payload, rfl⟩ := Option.isSome_iff_exists.mp hv
  have htag : tag field .lengthDelimited = [UInt8.ofNat (field * 8 + 2)] := by
    apply tag_of_lt
    show field * 8 + 2 < 128
    omega
  unfold messageField lengthDelimited
  rw [htag]
  simp

end Proto

end AcsNext.Data
