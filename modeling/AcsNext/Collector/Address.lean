import Mathlib.Tactic

/-! Addresses and networks as the collector stores them: two 64-bit words that hold the
address bytes in network order, on a little-endian host. -/
namespace AcsNext.Collector

/-- `htobe64` and `be64toh` of a little-endian host. -/
def htonll (x : BitVec 64) : BitVec 64 :=
  x.extractLsb' 0 8 ++ x.extractLsb' 8 8 ++ x.extractLsb' 16 8 ++ x.extractLsb' 24 8 ++
    x.extractLsb' 32 8 ++ x.extractLsb' 40 8 ++ x.extractLsb' 48 8 ++ x.extractLsb' 56 8

def ntohll (x : BitVec 64) : BitVec 64 := htonll x

def htonl (x : BitVec 32) : BitVec 32 :=
  x.extractLsb' 0 8 ++ x.extractLsb' 8 8 ++ x.extractLsb' 16 8 ++ x.extractLsb' 24 8

def ntohl (x : BitVec 32) : BitVec 32 := htonl x

theorem getLsbD_htonll (x : BitVec 64) (i : ℕ) (hi : i < 64) :
    (htonll x).getLsbD i = x.getLsbD (8 * (7 - i / 8) + i % 8) := by
  simp only [htonll, BitVec.getLsbD_append, BitVec.getLsbD_extractLsb']
  interval_cases i <;> simp

inductive Family where
  | unknown
  | ipv4
  | ipv6
deriving DecidableEq, Repr

def Family.length : Family → ℕ
  | .ipv4 => 4
  | .ipv6 => 16
  | .unknown => 0

/-- `std::array<uint64_t, kU64MaxLen>`. -/
structure Words where
  w0 : BitVec 64
  w1 : BitVec 64
deriving DecidableEq, Repr

/-- Every constructor of the source leaves the bytes beyond the address length zero. -/
def Family.Pads : Family → Words → Prop
  | .unknown, data => data = ⟨0, 0⟩
  | .ipv4, data => data.w0 >>> 32 = 0 ∧ data.w1 = 0
  | .ipv6, _ => True

structure Address where
  data : Words
  family : Family
  padded : family.Pads data
deriving DecidableEq

namespace Address

def any (family : Family) : Address :=
  ⟨⟨0, 0⟩, family, by cases family <;> simp [Family.Pads]⟩

def null : Address := any .unknown

private theorem ipv4_padded (x : BitVec 32) : htonll (x.setWidth 64 <<< 32) >>> 32 = 0 := by
  apply BitVec.eq_of_getLsbD_eq
  intro i hi
  by_cases h : 32 + i < 64
  · rw [BitVec.getLsbD_ushiftRight, getLsbD_htonll _ _ h, BitVec.getLsbD_shiftLeft]
    have hlt : 8 * (7 - (32 + i) / 8) + (32 + i) % 8 < 32 := by omega
    simp [hlt]
  · rw [BitVec.getLsbD_ushiftRight, BitVec.getLsbD_of_ge _ _ (by omega)]
    simp

/-- From the four address bytes as a word in network byte order. -/
def ofIPv4 (ipv4 : BitVec 32) : Address :=
  ⟨⟨htonll ((ntohl ipv4).setWidth 64 <<< 32), 0⟩, .ipv4, ipv4_padded _, rfl⟩

def ofBytes (a b c d : BitVec 8) : Address := ofIPv4 (htonl (a ++ b ++ c ++ d))

/-- From the high and the low word, both in network byte order. -/
def ofIPv6 (high low : BitVec 64) : Address := ⟨⟨high, low⟩, .ipv6, trivial⟩

def length (a : Address) : ℕ := a.family.length

def isNull (a : Address) : Bool := a.data.w0 == 0 && a.data.w1 == 0

def toV6 (a : Address) : Address :=
  match a.family with
  | .ipv6 => a
  | .ipv4 => ofIPv6 0 (htonll (0x0000ffff00000000#64 ||| (ntohll a.data.w0 >>> 32)))
  | .unknown => null

def isCanonicalExternalIp (a : Address) : Bool :=
  match a.family with
  | .ipv4 => (a.data.w0 &&& htonll 0xffffffff00000000#64) == htonll 0xffffffff00000000#64
  | .ipv6 => a.data.w0 == 0xffffffffffffffff#64 && a.data.w1 == 0xffffffffffffffff#64
  | .unknown => false

/-- Bit `i` of the address in network order, the most significant bit of the first byte first. -/
def bit (a : Address) (i : ℕ) : Bool :=
  if i < 64 then (ntohll a.data.w0).getMsbD i else (ntohll a.data.w1).getMsbD (i - 64)

theorem eq_iff (a b : Address) : a = b ↔ a.family = b.family ∧ a.data = b.data := by
  constructor
  · intro h
    subst h
    exact ⟨rfl, rfl⟩
  · obtain ⟨da, fa, ha⟩ := a
    obtain ⟨db, fb, hb⟩ := b
    intro h
    obtain ⟨rfl, rfl⟩ := h
    rfl

end Address

def canonicalExternalIpv4Addr : Address := .ofBytes 255 255 255 255

def canonicalExternalIpv6Addr : Address := .ofIPv6 0xffffffffffffffff#64 0xffffffffffffffff#64

/-- The sentinel of a family; the null address stands in where the source has none. -/
def canonicalExternalAddr : Family → Address
  | .ipv4 => canonicalExternalIpv4Addr
  | .ipv6 => canonicalExternalIpv6Addr
  | .unknown => .null

end AcsNext.Collector
