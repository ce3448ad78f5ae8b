import AcsNext.Collector.Address

/-! Networks: an address, a prefix length, the masked prefix that keys compare, and a flag
telling a single address from a network. -/
namespace AcsNext.Collector

def lastMask (n : ℕ) : BitVec 64 := ~~~(0xffffffffffffffff#64 >>> n)

/-- The masked prefix as the constructor of `IPNet` fills it: whole words are copied, and
the last partial word is kept in host order. -/
def maskOf (data : Words) (bits : ℕ) : Words :=
  if 128 ≤ bits then data
  else if 64 ≤ bits then
    ⟨data.w0, if 0 < bits - 64 then ntohll data.w1 &&& lastMask (bits - 64) else 0⟩
  else ⟨if 0 < bits then ntohll data.w0 &&& lastMask bits else 0, 0⟩

structure IPNet where
  address : Address
  mask : Words
  bits : ℕ
  isAddr : Bool
  bits_le : bits ≤ 8 * address.length
  mask_eq : mask = maskOf address.data bits
deriving DecidableEq

namespace IPNet

/-- `IPNet(address, bits, is_addr)`: excess bits are clamped to the address length. -/
def new (address : Address) (bits : ℕ) (isAddr : Bool) : IPNet :=
  let bits := if 8 * address.length < bits then 8 * address.length else bits
  ⟨address, maskOf address.data bits, bits, isAddr, by dsimp only [bits]; split_ifs <;> omega, rfl⟩

def null : IPNet := new .null 0 false

def ofAddress (address : Address) : IPNet := new address (8 * address.length) true

def family (n : IPNet) : Family := n.address.family

def isNull (n : IPNet) : Bool := n.bits == 0 && n.address.isNull

/-- `net_mask_array`, with both words in host order. -/
def netMaskArray (n : IPNet) : Words :=
  if n.bits < 64 then ⟨lastMask n.bits, 0⟩
  else if n.bits = 128 then ⟨0xffffffffffffffff#64, 0xffffffffffffffff#64⟩
  else ⟨0xffffffffffffffff#64, lastMask (n.bits % 64)⟩

def contains (n : IPNet) (a : Address) : Bool :=
  if a.family ≠ n.family then false
  else if 128 ≤ n.bits then a.data.w0 == n.mask.w0 && a.data.w1 == n.mask.w1
  else if 64 ≤ n.bits then
    a.data.w0 == n.mask.w0 &&
      (n.bits - 64 == 0 || (ntohll a.data.w1 &&& lastMask (n.bits - 64)) == n.mask.w1)
  else n.bits == 0 || (ntohll a.data.w0 &&& lastMask n.bits) == n.mask.w0

/-- `operator==`: only the left side's flag selects what is compared. -/
protected def beq (a b : IPNet) : Bool :=
  if a.bits ≠ b.bits then false
  else if a.isAddr then decide (a.address = b.address)
  else decide (a.mask = b.mask)

instance : BEq IPNet := ⟨IPNet.beq⟩

theorem eq_iff (a b : IPNet) :
    a = b ↔ a.address = b.address ∧ a.bits = b.bits ∧ a.isAddr = b.isAddr := by
  constructor
  · intro h
    subst h
    exact ⟨rfl, rfl, rfl⟩
  · obtain ⟨aa, am, ab, af, hab, ham⟩ := a
    obtain ⟨ba, bm, bb, bf, hbb, hbm⟩ := b
    intro h
    obtain ⟨rfl, rfl, rfl⟩ := h
    dsimp only at ham hbm
    subst ham hbm
    rfl

theorem beq_iff (a b : IPNet) :
    (a == b) = true ↔ a.bits = b.bits ∧
      ((a.isAddr = true ∧ a.address = b.address) ∨ (a.isAddr = false ∧ a.mask = b.mask)) := by
  change a.beq b = true ↔ _
  unfold IPNet.beq
  by_cases hb : a.bits = b.bits <;> cases ha : a.isAddr <;> simp [hb]

theorem beq_self (n : IPNet) : (n == n) = true := by
  rw [beq_iff]
  cases n.isAddr <;> simp

theorem mask_congr {a b : IPNet} (ha : a.address = b.address) (hb : a.bits = b.bits) :
    a.mask = b.mask := by
  rw [a.mask_eq, b.mask_eq, ha, hb]

@[simp] theorem address_new (a : Address) (n : ℕ) (f : Bool) : (new a n f).address = a := rfl

@[simp] theorem isAddr_new (a : Address) (n : ℕ) (f : Bool) : (new a n f).isAddr = f := rfl

theorem bits_new (a : Address) (n : ℕ) (f : Bool) (h : n ≤ 8 * a.length) :
    (new a n f).bits = n := by
  simp only [new]
  split_ifs <;> omega

@[simp] theorem bits_ofAddress (a : Address) : (ofAddress a).bits = 8 * a.length :=
  bits_new a _ true le_rfl

theorem bits_le_128 (n : IPNet) : n.bits ≤ 128 := by
  have hle := n.bits_le
  unfold Address.length Family.length at hle
  split at hle <;> omega

end IPNet

def privateIPv4Networks : List IPNet :=
  [.new (.ofBytes 10 0 0 0) 8 false,
   .new (.ofBytes 100 64 0 0) 10 false,
   .new (.ofBytes 169 254 0 0) 16 false,
   .new (.ofBytes 172 16 0 0) 12 false,
   .new (.ofBytes 192 168 0 0) 16 false]

def privateIPv6Networks : List IPNet :=
  .new (.ofIPv6 (htonll 0xfd00000000000000#64) 0) 8 false ::
    privateIPv4Networks.map fun net => .new net.address.toV6 (net.bits + 96) false

def privateNetworks : Family → List IPNet
  | .ipv4 => privateIPv4Networks
  | .ipv6 => privateIPv6Networks
  | .unknown => []

def allPrivateNetworks : List IPNet := privateIPv4Networks ++ privateIPv6Networks

def Address.isPublic (a : Address) : Bool :=
  (privateNetworks a.family).all fun net => !net.contains a

end AcsNext.Collector
