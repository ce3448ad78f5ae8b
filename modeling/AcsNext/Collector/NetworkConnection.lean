import AcsNext.Collector.IPNet

/-! Endpoints and connections, with the equality and the hash under which unordered maps
store them. -/
namespace AcsNext.Collector

structure Endpoint where
  network : IPNet
  port : BitVec 16
deriving DecidableEq

namespace Endpoint

def null : Endpoint := ⟨.null, 0⟩

def ofAddress (address : Address) (port : BitVec 16) : Endpoint := ⟨.ofAddress address, port⟩

def address (e : Endpoint) : Address := e.network.address

protected def beq (a b : Endpoint) : Bool := a.port == b.port && a.network == b.network

instance : BEq Endpoint := ⟨Endpoint.beq⟩

theorem beq_iff (a b : Endpoint) :
    (a == b) = true ↔ a.port = b.port ∧ (a.network == b.network) = true := by
  change a.beq b = true ↔ _
  simp [Endpoint.beq]

theorem beq_self (e : Endpoint) : (e == e) = true := (beq_iff e e).mpr ⟨rfl, e.network.beq_self⟩

theorem eq_iff (a b : Endpoint) : a = b ↔ a.network = b.network ∧ a.port = b.port := by
  obtain ⟨an, ap⟩ := a
  obtain ⟨bn, bp⟩ := b
  simp

end Endpoint

inductive L4Proto where
  | unknown
  | tcp
  | udp
  | icmp
deriving DecidableEq, Repr

def L4Proto.toByte : L4Proto → BitVec 8
  | .unknown => 0
  | .tcp => 1
  | .udp => 2
  | .icmp => 3

/-- `static_cast<L4Proto>` on the codes of the enumeration. -/
def L4Proto.ofByte (b : BitVec 8) : L4Proto :=
  if b = 1 then .tcp else if b = 2 then .udp else if b = 3 then .icmp else .unknown

/-- The protocol and the role are packed in `flags`. -/
structure Connection where
  container : String
  localEp : Endpoint
  remote : Endpoint
  flags : BitVec 8
  flags_lt : flags < 8
deriving DecidableEq

namespace Connection

def packFlags (l4proto : L4Proto) (isServer : Bool) : BitVec 8 :=
  (l4proto.toByte <<< 1) ||| if isServer then 1 else 0

private theorem packFlags_lt (l4proto : L4Proto) (isServer : Bool) :
    packFlags l4proto isServer < 8 := by
  cases l4proto <;> cases isServer <;> decide

def new (container : String) (localEp remote : Endpoint) (l4proto : L4Proto) (isServer : Bool) :
    Connection :=
  ⟨container, localEp, remote, packFlags l4proto isServer, packFlags_lt l4proto isServer⟩

def isServer (c : Connection) : Bool := (c.flags &&& 1) != 0

def l4proto (c : Connection) : L4Proto := .ofByte (c.flags >>> 1)

protected def beq (a b : Connection) : Bool :=
  a.container == b.container && a.localEp == b.localEp && a.remote == b.remote &&
    a.flags == b.flags

instance : BEq Connection := ⟨Connection.beq⟩

theorem beq_iff (a b : Connection) :
    (a == b) = true ↔ a.container = b.container ∧ (a.localEp == b.localEp) = true ∧
      (a.remote == b.remote) = true ∧ a.flags = b.flags := by
  change a.beq b = true ↔ _
  simp [Connection.beq, and_assoc]

instance : ReflBEq Connection where
  rfl {c} := (beq_iff c c).mpr ⟨rfl, c.localEp.beq_self, c.remote.beq_self, rfl⟩

theorem eq_iff (a b : Connection) :
    a = b ↔ a.container = b.container ∧ a.localEp = b.localEp ∧ a.remote = b.remote ∧
      a.flags = b.flags := by
  obtain ⟨ac, al, ar, af, haf⟩ := a
  obtain ⟨bc, bl, br, bf, hbf⟩ := b
  simp

@[simp] theorem isServer_new (container : String) (l r : Endpoint) (p : L4Proto) (s : Bool) :
    (new container l r p s).isServer = s := by
  simp only [isServer, new]
  cases p <;> cases s <;> decide

private theorem packFlags_unpack (f : BitVec 8) (h : f < 8) :
    packFlags (.ofByte (f >>> 1)) ((f &&& 1) != 0) = f := by
  revert f
  decide

@[simp] theorem packFlags_eq (c : Connection) : packFlags c.l4proto c.isServer = c.flags :=
  packFlags_unpack c.flags c.flags_lt

theorem flags_eq_iff (a b : Connection) :
    a.flags = b.flags ↔ a.l4proto = b.l4proto ∧ a.isServer = b.isServer := by
  constructor
  · intro h
    simp only [l4proto, isServer, h, and_self]
  · intro he
    obtain ⟨hp, hs⟩ := he
    rw [← a.packFlags_eq, ← b.packFlags_eq, hp, hs]

end Connection

/-- `std::hash` on the types that keys are made of. -/
structure StdHash where
  u64 : BitVec 64 → BitVec 64
  u16 : BitVec 16 → BitVec 64
  u8 : BitVec 8 → BitVec 64
  string : String → BitVec 64

def combineHashes (seed hash : BitVec 64) : BitVec 64 :=
  seed ^^^ (hash + 0x9e3779b9#64 + (seed <<< 6) + (seed >>> 2))

/-- `HashAll` over the hashes of its arguments, from the last one back. -/
def hashAll (first : BitVec 64) : List (BitVec 64) → BitVec 64
  | [] => first
  | second :: rest => combineHashes first (hashAll second rest)

def Words.hash (std : StdHash) (w : Words) : BitVec 64 :=
  combineHashes (std.u64 w.w0) (std.u64 w.w1)

def IPNet.hash (std : StdHash) (n : IPNet) : BitVec 64 :=
  if n.isAddr then
    hashAll (n.address.data.hash std) [n.mask.hash std, std.u64 (BitVec.ofNat 64 n.bits)]
  else hashAll (n.mask.hash std) [std.u64 (BitVec.ofNat 64 n.bits)]

def Endpoint.hash (std : StdHash) (e : Endpoint) : BitVec 64 :=
  hashAll (e.network.hash std) [std.u16 e.port]

def Connection.hash (std : StdHash) (c : Connection) : BitVec 64 :=
  hashAll (std.string c.container) [c.localEp.hash std, c.remote.hash std, std.u8 c.flags]

def IPNet.SameFamily (a b : IPNet) : Prop := 0 < a.bits → a.family = b.family

def Endpoint.SameFamily (a b : Endpoint) : Prop := a.network.SameFamily b.network

def Connection.SameFamily (a b : Connection) : Prop :=
  a.localEp.SameFamily b.localEp ∧ a.remote.SameFamily b.remote

/-- Over the keys in `S`, equality is an equivalence that the hash and the families of the
networks respect. -/
structure KeyLaws {α : Type*} [BEq α] (S : Set α) (hash : StdHash → α → BitVec 64)
    (SameFamily : α → α → Prop) : Prop where
  refl : ∀ x ∈ S, (x == x) = true
  symm : ∀ x ∈ S, ∀ y ∈ S, (x == y) = true → (y == x) = true
  trans : ∀ x ∈ S, ∀ y ∈ S, ∀ z ∈ S, (x == y) = true → (y == z) = true → (x == z) = true
  hash_eq : ∀ std, ∀ x ∈ S, ∀ y ∈ S, (x == y) = true → hash std x = hash std y
  family_eq : ∀ x ∈ S, ∀ y ∈ S, (x == y) = true → SameFamily x y

/-- Networks of `S` with one masked prefix agree on the flag that selects what `operator==`
compares, and a prefix of at least one bit is of one family. -/
def FlagFixed (S : Set IPNet) : Prop :=
  ∀ x ∈ S, ∀ y ∈ S, x.bits = y.bits → x.mask = y.mask →
    x.isAddr = y.isAddr ∧ (x.isAddr = false → 0 < x.bits → x.family = y.family)

/-- A flag fixed by the prefix makes equality structural on addresses and equality of the
prefix on networks. -/
private theorem FlagFixed.beq_iff {S : Set IPNet} (hS : FlagFixed S) {x y : IPNet} (hx : x ∈ S)
    (hy : y ∈ S) :
    (x == y) = true ↔ x = y ∨
      (x.isAddr = false ∧ y.isAddr = false ∧ x.bits = y.bits ∧ x.mask = y.mask) := by
  rw [IPNet.beq_iff]
  constructor
  · intro h
    rcases h with ⟨hb, ⟨hflag, ha⟩ | ⟨hflag, hm⟩⟩
    · have hxy := (hS x hx y hy hb (IPNet.mask_congr ha hb)).1
      exact Or.inl ((IPNet.eq_iff x y).mpr ⟨ha, hb, hxy⟩)
    · have hxy := (hS x hx y hy hb hm).1
      exact Or.inr ⟨hflag, hxy ▸ hflag, hb, hm⟩
  · intro h
    rcases h with rfl | ⟨hflag, _, hb, hm⟩
    · exact (IPNet.beq_iff x x).mp x.beq_self
    · exact ⟨hb, Or.inr ⟨hflag, hm⟩⟩

private theorem FlagFixed.keyLaws {S : Set IPNet} (hS : FlagFixed S) :
    KeyLaws S IPNet.hash IPNet.SameFamily where
  refl x _ := x.beq_self
  symm x hx y hy hxy := by
    rw [hS.beq_iff hx hy] at hxy
    rw [hS.beq_iff hy hx]
    rcases hxy with rfl | ⟨hxf, hyf, hb, hm⟩
    · exact Or.inl rfl
    · exact Or.inr ⟨hyf, hxf, hb.symm, hm.symm⟩
  trans x hx y hy z hz hxy hyz := by
    rw [hS.beq_iff hx hy] at hxy
    rw [hS.beq_iff hy hz] at hyz
    rw [hS.beq_iff hx hz]
    rcases hxy with rfl | ⟨hxf, hyf, hb, hm⟩
    · exact hyz
    · rcases hyz with rfl | ⟨_, hzf, hb', hm'⟩
      · exact Or.inr ⟨hxf, hyf, hb, hm⟩
      · exact Or.inr ⟨hxf, hzf, hb.trans hb', hm.trans hm'⟩
  hash_eq std x hx y hy hxy := by
    rcases (hS.beq_iff hx hy).mp hxy with rfl | ⟨hxf, hyf, hb, hm⟩
    · rfl
    · simp [IPNet.hash, hxf, hyf, hb, hm]
  family_eq x hx y hy hxy hpos := by
    rcases (hS.beq_iff hx hy).mp hxy with rfl | ⟨hxf, _, hb, hm⟩
    · rfl
    · exact (hS x hx y hy hb hm).2 hxf hpos

/-- Two networks that differ in the flag alone hash differently under a constant `std::hash`. -/
private theorem hash_ne_of_flag (x y : IPNet) (hx : x.isAddr = false) (hy : y.isAddr = true) :
    ∃ std, x.hash std ≠ y.hash std := by
  refine ⟨⟨fun _ => 0, fun _ => 0, fun _ => 0, fun _ => 0⟩, ?_⟩
  simp only [IPNet.hash, hx, hy, Words.hash, if_true, Bool.false_eq_true, if_false]
  decide

private theorem KeyLaws.flagFixed {S : Set IPNet} (h : KeyLaws S IPNet.hash IPNet.SameFamily) :
    FlagFixed S := by
  have hflag (x : IPNet) (hx : x ∈ S) (y : IPNet) (hy : y ∈ S) (hb : x.bits = y.bits)
      (hm : x.mask = y.mask) (hxf : x.isAddr = false) : y.isAddr = false := by
    by_contra hyf
    have hxy : (x == y) = true := (IPNet.beq_iff x y).mpr ⟨hb, Or.inr ⟨hxf, hm⟩⟩
    obtain ⟨std, hne⟩ := hash_ne_of_flag x y hxf (by simpa using hyf)
    exact hne (h.hash_eq std x hx y hy hxy)
  intro x hx y hy hb hm
  constructor
  · cases hxf : x.isAddr with
    | false => exact (hflag x hx y hy hb hm hxf).symm
    | true =>
      cases hyf : y.isAddr with
      | true => rfl
      | false => simp [hflag y hy x hx hb.symm hm.symm hyf] at hxf
  · intro hxf hpos
    exact h.family_eq x hx y hy ((IPNet.beq_iff x y).mpr ⟨hb, Or.inr ⟨hxf, hm⟩⟩) hpos

private theorem KeyLaws.endpoint {S : Set IPNet} (h : KeyLaws S IPNet.hash IPNet.SameFamily) :
    KeyLaws {e : Endpoint | e.network ∈ S} Endpoint.hash Endpoint.SameFamily where
  refl e _ := e.beq_self
  symm a ha b hb hab := by
    rw [Endpoint.beq_iff] at hab ⊢
    exact ⟨hab.1.symm, h.symm _ ha _ hb hab.2⟩
  trans a ha b hb c hc hab hbc := by
    rw [Endpoint.beq_iff] at hab hbc ⊢
    exact ⟨hab.1.trans hbc.1, h.trans _ ha _ hb _ hc hab.2 hbc.2⟩
  hash_eq std a ha b hb hab := by
    rw [Endpoint.beq_iff] at hab
    simp only [Endpoint.hash, hab.1, h.hash_eq std _ ha _ hb hab.2]
  family_eq a ha b hb hab := h.family_eq _ ha _ hb ((Endpoint.beq_iff a b).mp hab).2

private theorem KeyLaws.connection {E : Set Endpoint}
    (h : KeyLaws E Endpoint.hash Endpoint.SameFamily) :
    KeyLaws {c : Connection | c.localEp ∈ E ∧ c.remote ∈ E} Connection.hash
      Connection.SameFamily where
  refl c hc := (Connection.beq_iff c c).mpr ⟨rfl, h.refl _ hc.1, h.refl _ hc.2, rfl⟩
  symm a ha b hb hab := by
    rw [Connection.beq_iff] at hab ⊢
    obtain ⟨hc, hl, hr, hf⟩ := hab
    exact ⟨hc.symm, h.symm _ ha.1 _ hb.1 hl, h.symm _ ha.2 _ hb.2 hr, hf.symm⟩
  trans a ha b hb c hc hab hbc := by
    rw [Connection.beq_iff] at hab hbc ⊢
    obtain ⟨hk, hl, hr, hf⟩ := hab
    obtain ⟨hk', hl', hr', hf'⟩ := hbc
    exact ⟨hk.trans hk', h.trans _ ha.1 _ hb.1 _ hc.1 hl hl',
      h.trans _ ha.2 _ hb.2 _ hc.2 hr hr', hf.trans hf'⟩
  hash_eq std a ha b hb hab := by
    obtain ⟨hk, hl, hr, hf⟩ := (Connection.beq_iff a b).mp hab
    simp only [Connection.hash, hk, hf, h.hash_eq std _ ha.1 _ hb.1 hl,
      h.hash_eq std _ ha.2 _ hb.2 hr]
  family_eq a ha b hb hab := by
    obtain ⟨_, hl, hr, _⟩ := (Connection.beq_iff a b).mp hab
    exact ⟨h.family_eq _ ha.1 _ hb.1 hl, h.family_eq _ ha.2 _ hb.2 hr⟩

/-- Networks, and endpoints and connections over them, are lawful keys exactly when the
masked prefix fixes the flag and the family. -/
theorem key_laws_iff (S : Set IPNet) :
    (KeyLaws S IPNet.hash IPNet.SameFamily ∧
      KeyLaws {e : Endpoint | e.network ∈ S} Endpoint.hash Endpoint.SameFamily ∧
      KeyLaws {c : Connection | c.localEp.network ∈ S ∧ c.remote.network ∈ S} Connection.hash
        Connection.SameFamily) ↔ FlagFixed S := by
  constructor
  · exact fun h => h.1.flagFixed
  · intro hS
    have hnet := hS.keyLaws
    exact ⟨hnet, hnet.endpoint, hnet.endpoint.connection⟩

end AcsNext.Collector
