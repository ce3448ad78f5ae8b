import AcsNext.Data.CString
import AcsNext.Collector.NRadixLookup

/-! Configured networks: how `IPNet::parse` reads an address or a network, and what the result
matches once it is in a radix tree. -/
namespace AcsNext.Collector
open AcsNext.Data

def slash : UInt8 := 47

section Parse

-- what `getaddrinfo` reads from a C string when only numeric hosts are allowed
variable (getaddrinfo : List UInt8 → Option Address)

def Address.parse (addressString : List UInt8) : Option Address :=
  getaddrinfo (cString addressString)

/-- The prefix length; none where `stol` throws. It is narrowed to an `unsigned int`. -/
def prefixLengthOf : List UInt8 → Option ℕ
  | [] => some 0
  | _ :: prefixString => (stol prefixString).map fun n => (n % 2 ^ 32).toNat

def IPNet.parse (ipnetString : List UInt8) : Option IPNet := do
  let prefixLength ← prefixLengthOf (ipnetString.dropWhile (· != slash))
  let address ← Address.parse getaddrinfo (ipnetString.takeWhile (· != slash))
  some (.new address prefixLength (prefixLength != 0))

/-- The texts of addresses and networks: an address, or an address and a prefix length in
decimal digits that the address has. -/
inductive NetText : List UInt8 → Address → Option ℕ → Prop
  | address {s : List UInt8} {a : Address} (haddress : getaddrinfo s = some a) : NetText s a none
  | network {s digits : List UInt8} {a : Address} (haddress : getaddrinfo s = some a)
      (hne : digits ≠ []) (hdigits : ∀ b ∈ digits, isDigit b = true)
      (hvalue : decimalValue digits ≤ 8 * a.length) :
      NetText (s ++ slash :: digits) a (some (decimalValue digits))

/-- What a numeric address is written with. -/
def NumericTexts : Prop := ∀ s a, getaddrinfo s = some a → slash ∉ s ∧ 0 ∉ s

end Parse

def matchesNet (net : IPNet) (x : Address) : Bool :=
  !((NRadixTree.ofList [net]).findAddress x).isNull

/-- A text is accepted exactly when it says something, and the result is what it says: a network
of the given length around the address, or the one address. -/
structure MeansText (getaddrinfo : List UInt8 → Option Address) (s : List UInt8) : Prop where
  accepted : (IPNet.parse getaddrinfo s).isSome = true ↔ ∃ a n, NetText getaddrinfo s a n
  address : ∀ a n net, NetText getaddrinfo s a n → IPNet.parse getaddrinfo s = some net →
    net.address = a
  network : ∀ a n net, NetText getaddrinfo s a (some n) → IPNet.parse getaddrinfo s = some net →
    1 ≤ n → net.bits = n ∧ ∀ x, net.contains x = true ↔
      x.family = a.family ∧ ∀ i < n, x.bit i = a.bit i
  single : ∀ a net, NetText getaddrinfo s a none → IPNet.parse getaddrinfo s = some net →
    ∀ x, matchesNet net x = true ↔ x = a

variable {getaddrinfo : List UInt8 → Option Address} {s a p : List UInt8}

theorem bne_of_not_mem {x : UInt8} (h : x ∉ s) : ∀ b ∈ s, (b != x) = true := by
  intro b hb
  rw [bne_iff_ne]
  rintro rfl
  exact h hb

theorem cut_of_not_mem {x : UInt8} (h : x ∉ s) :
    s.takeWhile (· != x) = s ∧ s.dropWhile (· != x) = [] := by
  have htake : (s ++ []).takeWhile (· != x) = s ++ [] :=
    List.takeWhile_append_of_pos (bne_of_not_mem h)
  have hdrop : (s ++ []).dropWhile (· != x) = [] :=
    List.dropWhile_append_of_pos (bne_of_not_mem h)
  rw [List.append_nil] at htake hdrop
  exact ⟨htake, hdrop⟩

theorem cString_eq (h : 0 ∉ s) : cString s = s := (cut_of_not_mem h).1

theorem parse_of_no_slash (getaddrinfo : List UInt8 → Option Address) (h : slash ∉ s) :
    IPNet.parse getaddrinfo s = (getaddrinfo (cString s)).map fun address =>
      IPNet.new address 0 false := by
  obtain ⟨htake, hdrop⟩ := cut_of_not_mem h
  unfold IPNet.parse Address.parse
  rw [htake, hdrop]
  cases getaddrinfo (cString s) <;> rfl

theorem takeWhile_before_slash (h : slash ∉ a) :
    (a ++ slash :: p).takeWhile (· != slash) = a := by
  rw [List.takeWhile_append_of_pos (bne_of_not_mem h), List.takeWhile_cons_of_neg (by simp),
    List.append_nil]

theorem dropWhile_before_slash (h : slash ∉ a) :
    (a ++ slash :: p).dropWhile (· != slash) = slash :: p := by
  rw [List.dropWhile_append_of_pos (bne_of_not_mem h), List.dropWhile_cons_of_neg (by simp)]

theorem parse_of_slash (getaddrinfo : List UInt8 → Option Address) (h : slash ∉ a) :
    IPNet.parse getaddrinfo (a ++ slash :: p) =
      (stol p).bind fun n => (getaddrinfo (cString a)).map fun address =>
        IPNet.new address (n % 2 ^ 32).toNat ((n % 2 ^ 32).toNat != 0) := by
  unfold IPNet.parse Address.parse
  have hlength : prefixLengthOf (slash :: p) = (stol p).map fun n => (n % 2 ^ 32).toNat := rfl
  rw [takeWhile_before_slash h, dropWhile_before_slash h, hlength]
  cases stol p <;> cases getaddrinfo (cString a) <;> rfl

/-- The address of a network is before the first slash, and the digits are what follows. -/
theorem NetText.of_slash (h : NumericTexts getaddrinfo) (hslash : slash ∉ a) {address : Address}
    {n : Option ℕ} (htext : NetText getaddrinfo (a ++ slash :: p) address n) :
    getaddrinfo a = some address ∧ p ≠ [] ∧ (∀ b ∈ p, isDigit b = true) ∧
      decimalValue p ≤ 8 * address.length ∧ n = some (decimalValue p) := by
  generalize hs : a ++ slash :: p = s at htext
  cases htext with
  | address haddress =>
    have hno := (h _ _ haddress).1
    rw [← hs] at hno
    simp at hno
  | network haddress hne hdigits hvalue =>
    have hno := (h _ _ haddress).1
    have hbefore := congrArg (List.takeWhile (· != slash)) hs
    have hafter := congrArg (List.dropWhile (· != slash)) hs
    rw [takeWhile_before_slash hslash, takeWhile_before_slash hno] at hbefore
    rw [dropWhile_before_slash hslash, dropWhile_before_slash hno, List.cons.injEq] at hafter
    rw [hbefore, hafter.2]
    exact ⟨haddress, hne, hdigits, hvalue, rfl⟩

theorem NetText.of_no_slash (hslash : slash ∉ s) {address : Address} {n : Option ℕ}
    (htext : NetText getaddrinfo s address n) : getaddrinfo s = some address ∧ n = none := by
  cases htext with
  | address haddress => exact ⟨haddress, rfl⟩
  | network haddress hne hdigits hvalue => simp at hslash

theorem parse_network (h : NumericTexts getaddrinfo) {address : Address}
    (haddress : getaddrinfo a = some address) (hne : p ≠ [])
    (hdigits : ∀ b ∈ p, isDigit b = true) (hvalue : decimalValue p ≤ 8 * address.length) :
    IPNet.parse getaddrinfo (a ++ slash :: p) =
      some (.new address (decimalValue p) (decimalValue p != 0)) := by
  obtain ⟨hslash, hnul⟩ := h a address haddress
  have hlength : address.length ≤ 16 := by
    unfold Address.length Family.length
    split <;> omega
  have hnarrow : ((decimalValue p : ℤ) % 2 ^ 32).toNat = decimalValue p := by omega
  rw [parse_of_slash getaddrinfo hslash, stol_digits hne hdigits (by omega), cString_eq hnul, haddress,
    Option.bind_some, Option.map_some, hnarrow]

theorem contains_new {address : Address} {n : ℕ} {isAddr : Bool} (hn : n ≤ 8 * address.length)
    (x : Address) : (IPNet.new address n isAddr).contains x = true ↔
      x.family = address.family ∧ ∀ i < n, x.bit i = address.bit i := by
  by_cases hf : x.family = address.family
  · rw [(IPNet.new address n isAddr).contains_iff x hf, IPNet.bits_new address n isAddr hn]
    exact (and_iff_right hf).symm
  · have hfam : x.family ≠ (IPNet.new address n isAddr).family := hf
    simp [IPNet.contains, hfam, hf]

/-- A network without bits is not inserted. -/
theorem matchesNet_of_zero {net : IPNet} (h : net.bits = 0) (x : Address) :
    matchesNet net x = false := by
  have hinsert : NRadixTree.empty.insert net = none := by
    unfold NRadixTree.insert
    rw [dif_pos (by omega), ite_self]
  have hempty : NRadixTree.ofList [net] = .empty := by
    unfold NRadixTree.ofList
    rw [List.foldl_cons, List.foldl_nil, hinsert, Option.getD_none]
  have hnull : NRadixTree.empty.findAddress x = .null := by
    rcases NRadixTree.empty.find_cases (.ofAddress x) with heq | ⟨hmem, -⟩
    · exact heq
    · have hall : NRadixTree.empty.getAll = [] := rfl
      rw [hall] at hmem
      cases hmem
  unfold matchesNet
  rw [hempty, hnull]
  rfl

/-- The text before the first slash is no numeric address, or what follows it is no number. -/
def Unreadable (getaddrinfo : List UInt8 → Option Address) (s : List UInt8) : Prop :=
  getaddrinfo (cString (s.takeWhile (· != slash))) = none ∨
    ∃ p, s.dropWhile (· != slash) = slash :: p ∧ stol p = none

theorem unreadable_of_no_slash (h : slash ∉ s) :
    Unreadable getaddrinfo s ↔ getaddrinfo (cString s) = none := by
  obtain ⟨htake, hdrop⟩ := cut_of_not_mem h
  unfold Unreadable
  rw [htake, hdrop]
  simp

theorem unreadable_of_slash (h : slash ∉ a) :
    Unreadable getaddrinfo (a ++ slash :: p) ↔
      getaddrinfo (cString a) = none ∨ stol p = none := by
  unfold Unreadable
  rw [takeWhile_before_slash h, dropWhile_before_slash h]
  simp

theorem meansText_of_none (hparse : IPNet.parse getaddrinfo s = none)
    (hno : ∀ address n, ¬ NetText getaddrinfo s address n) : MeansText getaddrinfo s := by
  constructor
  · rw [hparse]
    simp [hno]
  · exact fun address n _ htext => absurd htext (hno address n)
  · exact fun address n _ htext => absurd htext (hno address (some n))
  · exact fun address _ htext => absurd htext (hno address none)

/-- Without a slash only refusals are right: a lone address becomes a network without bits. -/
theorem meansText_iff_of_no_slash (h : NumericTexts getaddrinfo) (hslash : slash ∉ s) :
    MeansText getaddrinfo s ↔ getaddrinfo (cString s) = none := by
  constructor
  · intro hmeans
    cases hread : getaddrinfo (cString s) with
    | none => rfl
    | some address =>
      have hparse := parse_of_no_slash getaddrinfo hslash
      rw [hread, Option.map_some] at hparse
      have hsome : (IPNet.parse getaddrinfo s).isSome = true := by rw [hparse, Option.isSome_some]
      obtain ⟨written, n, htext⟩ := hmeans.accepted.mp hsome
      obtain ⟨-, rfl⟩ := htext.of_no_slash hslash
      have hfound := (hmeans.single written _ htext hparse written).mpr rfl
      have hbits : (IPNet.new address 0 false).bits = 0 :=
        IPNet.bits_new address 0 false (Nat.zero_le _)
      rw [matchesNet_of_zero hbits] at hfound
      cases hfound
  · intro hread
    apply meansText_of_none
    · rw [parse_of_no_slash getaddrinfo hslash, hread, Option.map_none]
    · intro address n htext
      obtain ⟨haddress, -⟩ := htext.of_no_slash hslash
      rw [cString_eq (h s address haddress).2, haddress] at hread
      cases hread

theorem meansText_network (h : NumericTexts getaddrinfo) (hslash : slash ∉ a) {address : Address}
    {n : ℕ} (htext : NetText getaddrinfo (a ++ slash :: p) address (some n)) :
    MeansText getaddrinfo (a ++ slash :: p) := by
  obtain ⟨haddress, hne, hdigits, hvalue, -⟩ := htext.of_slash h hslash
  have hparse := parse_network h haddress hne hdigits hvalue
  -- a text says one thing only
  have hsame {address' : Address} {n' : Option ℕ}
      (htext' : NetText getaddrinfo (a ++ slash :: p) address' n') :
      address' = address ∧ n' = some (decimalValue p) := by
    obtain ⟨haddress', -, -, -, hn'⟩ := htext'.of_slash h hslash
    rw [haddress] at haddress'
    exact ⟨(Option.some.inj haddress').symm, hn'⟩
  constructor
  · rw [hparse]
    simp only [Option.isSome_some, true_iff]
    exact ⟨address, some n, htext⟩
  · intro address' n' net htext' hnet
    rw [hparse] at hnet
    rw [← Option.some.inj hnet, (hsame htext').1]
    rfl
  · intro address' n' net htext' hnet _
    obtain ⟨rfl, hn'⟩ := hsame htext'
    rw [hparse] at hnet
    rw [← Option.some.inj hnet, Option.some.inj hn']
    exact ⟨IPNet.bits_new _ _ _ hvalue, contains_new hvalue⟩
  · intro address' net htext' _
    cases (hsame htext').2

/-- With a slash the text is read as it is meant if it is a network in digits, and else exactly
if it is refused. -/
theorem meansText_iff_of_slash (h : NumericTexts getaddrinfo) (hslash : slash ∉ a) :
    MeansText getaddrinfo (a ++ slash :: p) ↔
      (∃ address n, NetText getaddrinfo (a ++ slash :: p) address (some n)) ∨
        getaddrinfo (cString a) = none ∨ stol p = none := by
  have hparse := parse_of_slash getaddrinfo (p := p) hslash
  constructor
  · intro hmeans
    cases hstol : stol p with
    | none => exact Or.inr (Or.inr rfl)
    | some n =>
      cases hread : getaddrinfo (cString a) with
      | none => exact Or.inr (Or.inl rfl)
      | some address =>
        rw [hstol, hread, Option.bind_some, Option.map_some] at hparse
        have hsome : (IPNet.parse getaddrinfo (a ++ slash :: p)).isSome = true := by
          rw [hparse, Option.isSome_some]
        obtain ⟨written, n, htext⟩ := hmeans.accepted.mp hsome
        obtain ⟨-, -, -, -, rfl⟩ := htext.of_slash h hslash
        exact Or.inl ⟨written, _, htext⟩
  · rintro (⟨address, n, htext⟩ | hread | hstol)
    · exact meansText_network h hslash htext
    · apply meansText_of_none
      · rw [hparse, hread]
        exact Option.bind_fun_none (stol p)
      · intro address n htext
        obtain ⟨haddress, -⟩ := htext.of_slash h hslash
        rw [cString_eq (h a address haddress).2, haddress] at hread
        cases hread
    · apply meansText_of_none
      · rw [hparse, hstol, Option.bind_none]
      · intro address n htext
        obtain ⟨-, hne, hdigits, hvalue, -⟩ := htext.of_slash h hslash
        have hlength : address.length ≤ 16 := by
          unfold Address.length Family.length
          split <;> omega
        rw [stol_digits hne hdigits (by omega)] at hstol
        cases hstol

/-- A text is read as it is meant exactly if it is an address with a prefix length in digits, or
is unreadable and refused. In particular a lone address never is, nor is a number with blanks, a
sign or a tail, or one that the address is too short for. -/
theorem configured_network_means_text_iff (h : NumericTexts getaddrinfo) :
    MeansText getaddrinfo s ↔
      (∃ address n, NetText getaddrinfo s address (some n)) ∨ Unreadable getaddrinfo s := by
  by_cases hslash : slash ∈ s
  · obtain ⟨a, p, rfl, ha⟩ := List.eq_append_cons_of_mem hslash
    rw [meansText_iff_of_slash h ha, unreadable_of_slash ha]
  · rw [meansText_iff_of_no_slash h hslash, unreadable_of_no_slash hslash]
    constructor
    · exact Or.inr
    · rintro (⟨address, n, htext⟩ | hread)
      · cases (htext.of_no_slash hslash).2
      · exact hread

def readsOneAddress (s : List UInt8) : Option Address :=
  if s = [49, 48, 46, 49, 46, 50, 46, 51] then some (.ofBytes 10 1 2 3) else none

theorem numericTexts_readsOneAddress : NumericTexts readsOneAddress := by
  intro s a hread
  unfold readsOneAddress at hread
  split_ifs at hread with hs
  rw [hs]
  decide

/-- 10.1.2.3/16 is read as it is meant. -/
theorem configured_network_means_text_slash16 :
    MeansText readsOneAddress [49, 48, 46, 49, 46, 50, 46, 51, 47, 49, 54] :=
  (configured_network_means_text_iff numericTexts_readsOneAddress).mpr (Or.inl
    ⟨.ofBytes 10 1 2 3, decimalValue [49, 54], NetText.network
      (s := [49, 48, 46, 49, 46, 50, 46, 51]) rfl (by decide) (by decide +kernel)
      (by decide)⟩)

/-- 10.1.2.3 alone is accepted and matches nothing, and 10.1.2.3/+8x is accepted as a network of
eight bits. -/
theorem configured_network_misread :
    (∃ net, IPNet.parse readsOneAddress [49, 48, 46, 49, 46, 50, 46, 51] = some net ∧
      NetText readsOneAddress [49, 48, 46, 49, 46, 50, 46, 51] (.ofBytes 10 1 2 3) none ∧
      matchesNet net (.ofBytes 10 1 2 3) = false) ∧
    IPNet.parse readsOneAddress [49, 48, 46, 49, 46, 50, 46, 51, 47, 43, 56, 120] =
      some (.new (.ofBytes 10 1 2 3) 8 true) ∧
    ¬ MeansText readsOneAddress [49, 48, 46, 49, 46, 50, 46, 51] ∧
    ¬ MeansText readsOneAddress [49, 48, 46, 49, 46, 50, 46, 51, 47, 43, 56, 120] := by
  have hlone : ¬ MeansText readsOneAddress [49, 48, 46, 49, 46, 50, 46, 51] := by
    rw [meansText_iff_of_no_slash numericTexts_readsOneAddress (by decide)]
    decide
  have htail : ¬ MeansText readsOneAddress ([49, 48, 46, 49, 46, 50, 46, 51] ++
      slash :: [43, 56, 120]) := by
    rw [meansText_iff_of_slash numericTexts_readsOneAddress (by decide)]
    rintro (⟨address, n, htext⟩ | hread | hstol)
    · have hdigits := (htext.of_slash numericTexts_readsOneAddress (by decide)).2.2.1
      exact absurd (hdigits 43 (by decide)) (by decide)
    · exact absurd hread (by decide)
    · exact absurd hstol (by decide)
  refine ⟨⟨.new (.ofBytes 10 1 2 3) 0 false, rfl, .address rfl, ?_⟩, rfl, hlone, htail⟩
  exact matchesNet_of_zero rfl _

end AcsNext.Collector
