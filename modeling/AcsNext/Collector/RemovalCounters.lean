import AcsNext.Data.Runs
import AcsNext.Collector.ConnTracker

/-! The counters of removed connections and endpoints, over every interleaving of updates
and fetches. -/
namespace AcsNext.Collector
open AcsNext.Data

/-- `size()` of a container. -/
def sizeT {K V : Type*} [BEq K] (m : AssocMap K V) : BitVec 64 := BitVec.ofNat 64 m.size

def erased {T : Type*} [BEq T] (state : StatusMap T) (clearInactive : Bool) : ℕ :=
  if clearInactive then state.entries.countP fun e => !e.2.isActive else 0

/-- A tracker, its two counters as `int64_t` words, and how many entries have in fact been
erased from each map. -/
structure CountedTracker where
  tracker : ConnectionTracker
  netConnInactive : BitVec 64
  netCepInactive : BitVec 64
  connsRemoved : ℕ
  cepsRemoved : ℕ

inductive TrackerCall where
  | updateConnection (conn : RawConnection) (timestamp : ℤ) (added : Bool)
  | update (allConns : List RawConnection) (allListenEndpoints : List ContainerEndpoint)
      (timestamp : ℤ)
  | fetchConnState (normalize clearInactive : Bool)
  | fetchEndpointState (normalize clearInactive : Bool)
  | updateIgnoredL4ProtoPortPairs (pairs : Finset (L4Proto × BitVec 16))
  | updateIgnoredNetworks (networkList : List IPNet)

namespace CountedTracker

/-- Any tracker, from which nothing has been removed yet. -/
def start (t : ConnectionTracker) : CountedTracker := ⟨t, 0, 0, 0, 0⟩

variable (s : CountedTracker)

def fetchConnState (normalize clearInactive : Bool) : CountedTracker :=
  let stateSize := sizeT s.tracker.connState
  let t := (s.tracker.fetchConnState normalize clearInactive).2
  { s with
    tracker := t
    netConnInactive := s.netConnInactive + (stateSize - sizeT t.connState)
    connsRemoved := s.connsRemoved + erased s.tracker.connState clearInactive }

/-- The size sampled before the fetch is that of the connections. -/
def fetchEndpointState (normalize clearInactive : Bool) : CountedTracker :=
  let stateSize := sizeT s.tracker.connState
  let t := (s.tracker.fetchEndpointState normalize clearInactive).2
  { s with
    tracker := t
    netCepInactive := s.netCepInactive + (stateSize - sizeT t.endpointState)
    cepsRemoved := s.cepsRemoved + erased s.tracker.endpointState clearInactive }

def call : TrackerCall → CountedTracker
  | .updateConnection conn timestamp added =>
    { s with tracker := s.tracker.updateConnection conn timestamp added }
  | .update allConns allListenEndpoints timestamp =>
    { s with tracker := s.tracker.update allConns allListenEndpoints timestamp }
  | .fetchConnState normalize clearInactive => s.fetchConnState normalize clearInactive
  | .fetchEndpointState normalize clearInactive => s.fetchEndpointState normalize clearInactive
  | .updateIgnoredL4ProtoPortPairs pairs =>
    { s with tracker := s.tracker.updateIgnoredL4ProtoPortPairs pairs }
  | .updateIgnoredNetworks networkList =>
    { s with tracker := s.tracker.updateIgnoredNetworks networkList }

/-- Each counter, read as an `int64_t`, is the number of entries removed from its map. -/
def Exact : Prop :=
  s.netConnInactive.toInt = s.connsRemoved ∧ s.netCepInactive.toInt = s.cepsRemoved

/-- The maps have one size when the endpoints are fetched, and the number of removed entries
fits the counter. -/
def SizesAgree : TrackerCall → Prop
  | .fetchConnState _ clearInactive =>
    s.connsRemoved + erased s.tracker.connState clearInactive < 2 ^ 63
  | .fetchEndpointState _ clearInactive =>
    sizeT s.tracker.connState = sizeT s.tracker.endpointState ∧
      s.cepsRemoved + erased s.tracker.endpointState clearInactive < 2 ^ 63
  | _ => True

end CountedTracker

def cleared {T : Type*} [BEq T] (state : StatusMap T) (clearInactive : Bool) : StatusMap T :=
  if clearInactive then state.filter fun _ s => s.isActive else state

theorem connState_fetchConnState (t : ConnectionTracker) (normalize clearInactive : Bool) :
    (t.fetchConnState normalize clearInactive).2.connState = cleared t.connState clearInactive :=
  rfl

theorem endpointState_fetchEndpointState (t : ConnectionTracker)
    (normalize clearInactive : Bool) :
    (t.fetchEndpointState normalize clearInactive).2.endpointState =
      cleared t.endpointState clearInactive :=
  rfl

theorem size_cleared {T : Type*} [BEq T] (state : StatusMap T) (clearInactive : Bool) :
    state.size = (cleared state clearInactive).size + erased state clearInactive := by
  unfold cleared erased
  cases clearInactive with
  | false => rfl
  | true => exact state.size_filter fun _ s => s.isActive

theorem sizeT_sub_cleared {T : Type*} [BEq T] (state : StatusMap T) (clearInactive : Bool) :
    sizeT state - sizeT (cleared state clearInactive) =
      BitVec.ofNat 64 (erased state clearInactive) := by
  have hword : sizeT state =
      sizeT (cleared state clearInactive) + BitVec.ofNat 64 (erased state clearInactive) := by
    unfold sizeT
    rw [size_cleared state clearInactive, BitVec.ofNat_add]
  rw [hword, BitVec.add_comm]
  exact BitVec.add_sub_cancel _ _

theorem toInt_ofNat_eq_iff (n : ℕ) : (BitVec.ofNat 64 n).toInt = n ↔ n < 2 ^ 63 := by
  rw [BitVec.toInt_ofNat']
  constructor
  · intro h
    have hlt := Int.bmod_lt (x := (n : ℤ)) (m := 2 ^ 64) (by norm_num)
    omega
  · intro h
    exact Int.bmod_eq_of_le (by omega) (by omega)

theorem eq_ofNat_of_toInt {c : BitVec 64} {n : ℕ} (h : c.toInt = n) : c = BitVec.ofNat 64 n := by
  rw [← BitVec.ofInt_toInt (x := c), h]
  exact BitVec.ofInt_natCast 64 n

/-- An exact counter stays exact when what is added is the number of new removals, and that
number still fits. -/
theorem toInt_add_eq_iff {c d : BitVec 64} {n k : ℕ} (hc : c.toInt = n) :
    (c + d).toInt = (n + k : ℕ) ↔ d = BitVec.ofNat 64 k ∧ n + k < 2 ^ 63 := by
  have hword := eq_ofNat_of_toInt hc
  constructor
  · intro h
    have hsum := eq_ofNat_of_toInt h
    have hfits : (BitVec.ofNat 64 (n + k)).toInt = (n + k : ℕ) := by rwa [← hsum]
    rw [hword, BitVec.ofNat_add] at hsum
    exact ⟨(BitVec.add_right_inj _).mp hsum, (toInt_ofNat_eq_iff _).mp hfits⟩
  · intro h
    obtain ⟨rfl, hlt⟩ := h
    rw [hword, ← BitVec.ofNat_add]
    exact (toInt_ofNat_eq_iff _).mpr hlt

namespace CountedTracker

variable (s : CountedTracker)

private theorem exact_fetchConnState_iff (h : s.Exact) (normalize clearInactive : Bool) :
    (s.fetchConnState normalize clearInactive).Exact ↔
      s.connsRemoved + erased s.tracker.connState clearInactive < 2 ^ 63 := by
  obtain ⟨hconn, hcep⟩ := h
  simp only [Exact, fetchConnState, connState_fetchConnState]
  rw [and_iff_left hcep, toInt_add_eq_iff hconn]
  exact and_iff_right (sizeT_sub_cleared _ _)

private theorem exact_fetchEndpointState_iff (h : s.Exact) (normalize clearInactive : Bool) :
    (s.fetchEndpointState normalize clearInactive).Exact ↔
      sizeT s.tracker.connState = sizeT s.tracker.endpointState ∧
        s.cepsRemoved + erased s.tracker.endpointState clearInactive < 2 ^ 63 := by
  obtain ⟨hconn, hcep⟩ := h
  simp only [Exact, fetchEndpointState, endpointState_fetchEndpointState]
  rw [and_iff_right hconn, toInt_add_eq_iff hcep]
  refine and_congr_left fun _ => ?_
  -- the number of erased endpoints is the difference to the size of the endpoints themselves
  rw [← sizeT_sub_cleared, BitVec.sub_eq_iff_eq_add, BitVec.sub_add_cancel]

theorem exact_call_iff (h : s.Exact) (c : TrackerCall) :
    (s.call c).Exact ↔ s.SizesAgree c := by
  cases c with
  | fetchConnState normalize clearInactive =>
    exact s.exact_fetchConnState_iff h normalize clearInactive
  | fetchEndpointState normalize clearInactive =>
    exact s.exact_fetchEndpointState_iff h normalize clearInactive
  | updateConnection conn timestamp added => exact iff_true_intro h
  | update allConns allListenEndpoints timestamp => exact iff_true_intro h
  | updateIgnoredL4ProtoPortPairs pairs => exact iff_true_intro h
  | updateIgnoredNetworks networkList => exact iff_true_intro h

/-- Both counters are exact in every state of a run exactly when the two maps have one size
at every fetch of the endpoints (and the counts fit). -/
theorem removal_counters_iff (t : ConnectionTracker) (calls : List TrackerCall) :
    Always call (fun _ s => s.Exact) (start t) calls ↔
      EveryStep call SizesAgree (start t) calls :=
  always_iff_everyStep ⟨rfl, rfl⟩ (fun _ c hl => exact_call_iff _ hl c) calls

def webEndpoint : ContainerEndpoint :=
  ⟨"web", .ofAddress (.any .ipv4) 8080, .tcp, none, rfl⟩

/-- One listening endpoint and no connection: fetching the endpoints removes nothing, yet the
counter goes to -1. -/
theorem cep_counter_wraps_webEndpoint :
    ((start .empty).call (.update [] [webEndpoint] 7)).call (.fetchEndpointState true true) =
      ⟨ConnectionTracker.empty.update [] [webEndpoint] 7, 0, -1, 0, 0⟩ ∧
    ¬ Always call (fun _ s => s.Exact) (start .empty)
      [.update [] [webEndpoint] 7, .fetchEndpointState true true] := by
  have hstate : ((start .empty).call (.update [] [webEndpoint] 7)).call
      (.fetchEndpointState true true) =
        ⟨ConnectionTracker.empty.update [] [webEndpoint] 7, 0, -1, 0, 0⟩ := rfl
  refine ⟨hstate, ?_⟩
  intro h
  have hlast := h.last
  change Exact (((start .empty).call (.update [] [webEndpoint] 7)).call
    (.fetchEndpointState true true)) at hlast
  rw [hstate] at hlast
  exact absurd hlast.2 (by decide)

end CountedTracker

end AcsNext.Collector
