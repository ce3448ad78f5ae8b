import Mathlib.Data.List.GetD
import AcsNext.Collector.ControlMessages
import AcsNext.Collector.NetworkProto

/-! Network lists on the wire: what `EndpointToProto` writes for a network is what
`readNetworks` reads, and bytes that nothing wrote still give networks. -/
namespace AcsNext.Collector
open AcsNext.Data

theorem getLsbD_word32 (bytes : List (BitVec 8)) {j : ℕ} (hj : j < 32) :
    (word32 bytes).getLsbD j = (bytes.getD (j / 8) 0).getLsbD (j % 8) := by
  unfold word32
  simp only [BitVec.getLsbD_append]
  by_cases h8 : j < 8
  · rw [show j / 8 = 0 by omega, show j % 8 = j by omega]
    simp [h8]
  · by_cases h16 : j < 16
    · rw [show j / 8 = 1 by omega, show j % 8 = j - 8 by omega]
      simp [h8, show j - 8 < 8 by omega]
    · by_cases h24 : j < 24
      · rw [show j / 8 = 2 by omega, show j % 8 = j - 8 - 8 by omega]
        simp [h8, show ¬ j - 8 < 8 by omega, show j - 8 - 8 < 8 by omega]
      · rw [show j / 8 = 3 by omega, show j % 8 = j - 8 - 8 - 8 by omega]
        simp [h8, show ¬ j - 8 < 8 by omega, show ¬ j - 8 - 8 < 8 by omega]

theorem getLsbD_word64 (bytes : List (BitVec 8)) {j : ℕ} (hj : j < 64) :
    (word64 bytes).getLsbD j = (bytes.getD (j / 8) 0).getLsbD (j % 8) := by
  unfold word64
  rw [BitVec.getLsbD_append]
  by_cases h32 : j < 32
  · simp only [h32, if_true]
    exact getLsbD_word32 bytes h32
  · have hindex : 4 + (j - 32) / 8 = j / 8 := by omega
    have hmod : (j - 32) % 8 = j % 8 := by omega
    simp only [h32, if_false]
    rw [getLsbD_word32 _ (by omega), hmod, List.getD_eq_getElem?_getD, List.getElem?_drop, hindex,
      List.getD_eq_getElem?_getD]

theorem byte_ofMemory (family : Family) (bytes : List (BitVec 8)) {i : ℕ}
    (hi : i < family.length) : (Address.ofMemory family bytes).data.byte i = bytes.getD i 0 := by
  apply BitVec.eq_of_getLsbD_eq
  intro j hj
  unfold Words.byte
  rw [BitVec.getLsbD_extractLsb', decide_eq_true hj, Bool.true_and]
  cases family with
  | unknown => cases hi
  | ipv4 =>
    have hi : i < 4 := hi
    have hword : (Address.ofMemory .ipv4 bytes).data.get (i / 8) = (word32 bytes).setWidth 64 := by
      rw [Words.get, if_pos (by omega)]
      rfl
    rw [hword, BitVec.getLsbD_setWidth, getLsbD_word32 _ (by omega),
      show (8 * (i % 8) + j) / 8 = i by omega, show (8 * (i % 8) + j) % 8 = j by omega]
    simp [show 8 * (i % 8) + j < 64 by omega]
  | ipv6 =>
    have hi : i < 16 := hi
    by_cases h8 : i < 8
    · have hword : (Address.ofMemory .ipv6 bytes).data.get (i / 8) = word64 bytes := by
        rw [Words.get, if_pos (by omega)]
        rfl
      rw [hword, getLsbD_word64 _ (by omega), show (8 * (i % 8) + j) / 8 = i by omega,
        show (8 * (i % 8) + j) % 8 = j by omega]
    · have hword : (Address.ofMemory .ipv6 bytes).data.get (i / 8) = word64 (bytes.drop 8) := by
        rw [Words.get, if_neg (by omega)]
        rfl
      rw [hword, getLsbD_word64 _ (by omega), List.getD_eq_getElem?_getD, List.getElem?_drop,
        show 8 + (8 * (i % 8) + j) / 8 = i by omega, show (8 * (i % 8) + j) % 8 = j by omega,
        List.getD_eq_getElem?_getD]

theorem family_ofMemory (family : Family) (bytes : List (BitVec 8)) :
    (Address.ofMemory family bytes).family = family := by
  cases family <;> rfl

@[simp] theorem Address.length_bytes (a : Address) : a.bytes.length = a.length := by
  rw [Address.bytes, List.length_map, List.length_range]

theorem bytes_ofMemory {family : Family} {bytes : List (BitVec 8)}
    (h : family.length ≤ bytes.length) :
    (Address.ofMemory family bytes).bytes = bytes.take family.length := by
  have hlength : (Address.ofMemory family bytes).length = family.length := by
    rw [Address.length, family_ofMemory]
  apply List.ext_getElem
  · rw [Address.length_bytes, hlength, List.length_take, min_eq_left h]
  · intro i hi _
    rw [Address.length_bytes, hlength] at hi
    simp only [Address.bytes, List.getElem_map, List.getElem_range, List.getElem_take]
    rw [byte_ofMemory family bytes hi, List.getD_eq_getElem _ _ (by omega)]

theorem ofMemory_bytes (a : Address) (rest : List (BitVec 8)) :
    Address.ofMemory a.family (a.bytes ++ rest) = a := by
  have hlength : a.family.length = a.bytes.length := a.length_bytes.symm
  apply Address.bytes_inj (family_ofMemory _ _)
  rw [bytes_ofMemory (by rw [List.length_append]; omega), hlength, List.take_left]

/-- The clamp makes the sign of a `char` irrelevant: a prefix length from 128 on is cut to the
length of the address, whether it is sign-extended or not. -/
theorem new_signExtend (a : Address) (b : BitVec 8) (isAddr : Bool) :
    IPNet.new a (b.signExtend 64).toNat isAddr = IPNet.new a b.toNat isAddr := by
  have hlength : a.length ≤ 16 := by
    unfold Address.length Family.length
    split <;> omega
  by_cases hmsb : b.msb = true
  · have hlow : 128 ≤ b.toNat := by
      rw [BitVec.msb_eq_decide, decide_eq_true_eq] at hmsb
      exact hmsb
    have hlow' : 128 ≤ (b.signExtend 64).toNat := by
      rw [BitVec.toNat_signExtend, BitVec.toNat_setWidth, if_pos hmsb]
      omega
    rw [IPNet.eq_iff]
    refine ⟨rfl, ?_, rfl⟩
    simp only [IPNet.new]
    split_ifs <;> omega
  · have hsame : (b.signExtend 64).toNat = b.toNat := by
      rw [BitVec.toNat_signExtend, BitVec.toNat_setWidth, if_neg hmsb]
      have := b.isLt
      omega
    rw [hsame]

theorem length_readNetworks (networks : List (BitVec 8)) (family : Family) :
    (readNetworks networks family).length = networks.length / (family.length + 1) := by
  unfold readNetworks
  rw [List.length_map, List.length_range]

theorem family_of_mem_readNetworks {networks : List (BitVec 8)} {family : Family} {net : IPNet}
    (h : net ∈ readNetworks networks family) : net.family = family := by
  unfold readNetworks at h
  obtain ⟨i, -, rfl⟩ := List.mem_map.mp h
  exact family_ofMemory family _

theorem readNetworks_append {family : Family} {tuple : List (BitVec 8)}
    (h : tuple.length = family.length + 1) (rest : List (BitVec 8)) :
    readNetworks (tuple ++ rest) family =
      IPNet.new (.ofMemory family (tuple ++ rest)) (tuple.getD family.length 0).toNat false ::
        readNetworks rest family := by
  have hcount : (tuple ++ rest).length / (family.length + 1) =
      rest.length / (family.length + 1) + 1 := by
    rw [List.length_append, h, Nat.add_div_left _ (Nat.succ_pos _)]
  have hlast : (tuple ++ rest).getD family.length 0 = tuple.getD family.length 0 :=
    List.getD_append _ _ _ _ (by omega)
  unfold readNetworks
  dsimp only
  rw [hcount, List.range_succ_eq_map, List.map_cons, List.map_map, List.cons.injEq]
  constructor
  · rw [Nat.mul_zero, List.drop_zero, new_signExtend, Nat.add_sub_cancel, hlast]
  · apply List.map_congr_left
    intro i _
    have hdrop : (tuple ++ rest).drop ((family.length + 1) * (i + 1)) =
        rest.drop ((family.length + 1) * i) := by
      rw [Nat.mul_succ, Nat.add_comm, ← h, List.drop_append]
      simp
    simp only [Function.comp_apply, Nat.succ_eq_add_one, hdrop]

/-- The bytes that `EndpointToProto` writes for the network of an endpoint. -/
def ipNetworkOf (endpoint : Endpoint) : List (BitVec 8) :=
  ((endpointToProto endpoint).map NetworkAddress.ipNetwork).getD []

theorem ipNetworkOf_eq {endpoint : Endpoint} (h : 1 ≤ endpoint.network.bits) :
    ipNetworkOf endpoint =
      endpoint.network.address.bytes ++ [BitVec.ofNat 8 endpoint.network.bits] := by
  have hnull : endpoint.isNull = false := by
    have hne : (endpoint.network.bits == 0) = false := by simp; omega
    rw [Endpoint.isNull, IPNet.isNull, hne, Bool.false_and, Bool.and_false]
  unfold ipNetworkOf endpointToProto
  rw [hnull, if_neg Bool.false_ne_true, Option.map_some, Option.getD_some]
  exact if_pos h

/-- Networks of one family are read back in their order, whatever the ports of their endpoints. -/
theorem readNetworks_ipNetworkOf {family : Family} {endpoints : List Endpoint}
    (h : ∀ e ∈ endpoints, e.network.family = family ∧ 1 ≤ e.network.bits) :
    readNetworks (endpoints.flatMap ipNetworkOf) family =
      endpoints.map fun e => IPNet.new e.network.address e.network.bits false := by
  induction endpoints with
  | nil =>
    unfold readNetworks
    simp
  | cons e rest ih =>
    obtain ⟨hfamily, hbits⟩ := h e List.mem_cons_self
    have htail := ih fun e' he' => h e' (List.mem_cons_of_mem _ he')
    have hbytes : e.network.address.bytes.length = family.length := by
      rw [Address.length_bytes, Address.length, ← hfamily]
      rfl
    have htuple : (ipNetworkOf e).length = family.length + 1 := by
      rw [ipNetworkOf_eq hbits, List.length_append, hbytes, List.length_singleton]
    have hbyte : ((ipNetworkOf e).getD family.length 0).toNat = e.network.bits := by
      have hle := e.network.bits_le_128
      rw [ipNetworkOf_eq hbits, ← hbytes, List.getD_append_right _ _ _ _ le_rfl, Nat.sub_self]
      exact (BitVec.toNat_ofNat _ _).trans (Nat.mod_eq_of_lt (by omega))
    have haddress : Address.ofMemory family (ipNetworkOf e ++ rest.flatMap ipNetworkOf) =
        e.network.address := by
      rw [ipNetworkOf_eq hbits, List.append_assoc, ← hfamily]
      exact ofMemory_bytes e.network.address _
    rw [List.flatMap_cons, readNetworks_append htuple, htail, haddress, hbyte, List.map_cons]

/-- Reading is the inverse of writing on every list of networks with bits, and any bytes that fill
whole tuples are read as that many networks of the family, none longer than its addresses. -/
theorem network_list_round_trip (family : Family) :
    (∀ endpoints : List Endpoint,
      (∀ e ∈ endpoints, e.network.family = family ∧ 1 ≤ e.network.bits) →
      (readNetworks (endpoints.flatMap ipNetworkOf) family).map (fun net => (net.address, net.bits)) =
        endpoints.map fun e => (e.network.address, e.network.bits)) ∧
    ∀ networks : List (BitVec 8), family.length + 1 ∣ networks.length →
      (readNetworks networks family).length = networks.length / (family.length + 1) ∧
      ∀ net ∈ readNetworks networks family, net.family = family ∧ net.bits ≤ 8 * family.length := by
  constructor
  · intro endpoints h
    rw [readNetworks_ipNetworkOf h, List.map_map]
    apply List.map_congr_left
    intro e _
    have hbits := IPNet.bits_new e.network.address e.network.bits false e.network.bits_le
    simp only [Function.comp_apply, IPNet.address_new, hbits]
  · intro networks _
    refine ⟨length_readNetworks networks family, fun net hnet => ?_⟩
    have hfamily := family_of_mem_readNetworks hnet
    have hle := net.bits_le
    rw [Address.length] at hle
    rw [← hfamily]
    exact ⟨rfl, hle⟩

/-- fd00::1/128 and fd00::/8: the byte of the longest prefix is negative as a `char`. -/
def fullAndShort : List Endpoint :=
  [⟨.new (.ofIPv6 (htonll 0xfd00000000000000#64) (htonll 1#64)) 128 true, 443⟩,
   ⟨.new (.ofIPv6 (htonll 0xfd00000000000000#64) 0) 8 false, 0⟩]

theorem network_list_round_trip_fullAndShort :
    (readNetworks (fullAndShort.flatMap ipNetworkOf) .ipv6).map IPNet.bits = [128, 8] ∧
      ∀ net ∈ readNetworks (List.replicate 34 0xff#8) .ipv6, net.bits ≤ 128 := by
  have hread := (network_list_round_trip .ipv6).1 fullAndShort (by decide)
  have hany := (network_list_round_trip .ipv6).2 (List.replicate 34 0xff#8) (by decide)
  have hbits := congrArg (List.map Prod.snd) hread
  rw [List.map_map, List.map_map] at hbits
  exact ⟨hbits, fun net hnet => (hany.2 net hnet).2⟩

end AcsNext.Collector
