import AcsNext.Data.Epochs
import AcsNext.Collector.RateLimitInt64

/-! Runs of the rate limiter: its cache and buckets stay within their bounds, and between two
flushes each key is limited by epochs. -/
namespace AcsNext.Collector
open AcsNext.Data

def ClockReadings.constant (t : ℤ) (ht : 0 < t) : ClockReadings := ⟨t, t, t, ht, le_rfl, le_rfl⟩

/-- A call of `Allow`, with the time that the clock shows during it. -/
structure AllowCall where
  key : Bytes
  time : ℤ
  pos : 0 < time
  lt : time < 2 ^ 63

def AllowCall.clock (call : AllowCall) : ClockReadings := .constant call.time call.pos

namespace Int64Cache

def answer (c : Int64Cache) (call : AllowCall) : Bool := (c.allow call.key call.clock).1

def next (c : Int64Cache) (call : AllowCall) : Int64Cache :=
  (c.allow call.key call.clock).2

def requestsOf (key : Bytes) : Int64Cache → List AllowCall → List (ℤ × Bool)
  | _, [] => []
  | c, call :: rest =>
    (if call.key = key then [(call.time, c.answer call)] else []) ++
      requestsOf key (c.next call) rest

def Unflushed : Int64Cache → List AllowCall → Prop :=
  EveryStep next fun c call => c.flushes call.key = false

/-- The run has just begun, or its last call has flushed the cache. -/
def StartsAnew (c : Int64Cache) (calls : List AllowCall) : Prop :=
  calls = [] ∨ ∃ before call, calls = before ++ [call] ∧
    (before.foldl next c).flushes call.key = true

end Int64Cache

/-- One burst for each period that has begun between two calls for the same key is no overflow. -/
def AllowCall.FitsAfter (l : Int64Limiter) (earlier later : AllowCall) : Prop :=
  earlier.key = later.key →
    l.burstSize * ((later.time - earlier.time) / l.refillTime + 1) < 2 ^ 63

namespace Int64Cache

variable {c : Int64Cache}

structure CacheBounds (c : Int64Cache) (earlier : List AllowCall) : Prop where
  size_le : c.cache.size ≤ c.capacity
  tokens : ∀ key b, c.cache.find? key = some b → 0 ≤ b.tokens ∧ b.tokens ≤ c.limiter.burstSize
  last : ∀ key b, c.cache.find? key = some b →
    ∃ call ∈ earlier, call.key = key ∧ b.lastTime = call.time

theorem capacity_next (c : Int64Cache) (call : AllowCall) :
    (c.next call).capacity = c.capacity ∧ (c.next call).limiter = c.limiter := by
  unfold next allow
  split_ifs <;> exact ⟨rfl, rfl⟩

theorem size_assign_le {K V : Type*} [BEq K] (m : AssocMap K V) (k : K) (v : V) :
    (m.assign k v).size ≤ if m.contains k then m.size else m.size + 1 := by
  unfold AssocMap.assign
  split_ifs with hk
  · have hkeys := congrArg List.length (m.keys_set k v)
    rw [AssocMap.keys, AssocMap.keys, List.length_map, List.length_map] at hkeys
    exact le_of_eq hkeys
  · rw [AssocMap.size, AssocMap.entries_insert, if_neg hk, List.length_append,
      List.length_singleton]
    exact le_rfl

section Step

variable {earlier : List AllowCall} {call : AllowCall}

theorem bucketBounds_bucket (h : CacheBounds c earlier)
    (hsorted : ∀ e ∈ earlier, e.time ≤ call.time) :
    BucketBounds c.limiter.toTimeLimiter call.time (c.bucket call.key) := by
  unfold bucket
  cases hfind : c.cache.find? call.key with
  | none => exact bucketBounds_new call.pos.le
  | some b =>
    obtain ⟨hnonneg, hle⟩ := h.tokens _ b hfind
    obtain ⟨e, he, -, hlast⟩ := h.last _ b hfind
    have hpos := e.pos
    have htime := hsorted e he
    refine ⟨hnonneg, hle, ?_, ?_⟩
    · rw [Option.getD_some, hlast]
      exact hpos.le
    · rw [Option.getD_some, hlast]
      exact htime

/-- A bucket in use has the clock of an earlier call of its key. -/
theorem CacheBounds.exists_lastTime (h : CacheBounds c earlier) {key : Bytes}
    (hused : (c.bucket key).lastTime ≠ 0) :
    ∃ e ∈ earlier, e.key = key ∧ (c.bucket key).lastTime = e.time := by
  unfold bucket at hused ⊢
  cases hfind : c.cache.find? key with
  | none =>
    rw [hfind] at hused
    exact absurd rfl hused
  | some b => exact h.last key b hfind

theorem fits_bucket (h : CacheBounds c earlier) (hsorted : ∀ e ∈ earlier, e.time ≤ call.time)
    (hfits : ∀ e ∈ earlier, e.FitsAfter c.limiter call) :
    c.limiter.Fits (c.bucket call.key) call.clock := by
  have hburst : (c.limiter.burstSize : ℤ) < 2 ^ 63 := by exact_mod_cast c.limiter.burst_lt
  unfold Int64Limiter.Fits TimeLimiter.refillCount
  by_cases hnew : (c.bucket call.key).lastTime = 0
  · have hfill : (c.limiter.inUse (c.bucket call.key) call.clock).lastTime = call.time := by
      rw [Int64Limiter.inUse, if_pos hnew]
      rfl
    rw [hfill]
    simpa [AllowCall.clock, ClockReadings.constant] using hburst
  · rw [Int64Limiter.inUse, if_neg hnew]
    obtain ⟨e, he, hkey, hlast⟩ := h.exists_lastTime hnew
    have htime := hsorted e he
    rw [hlast]
    change (c.limiter.burstSize : ℤ) * ((call.time - e.time).tdiv c.limiter.refillTime + 1) < _
    rw [Int.tdiv_eq_ediv_of_nonneg (by omega)]
    exact hfits e he hkey

/-- Where nothing overflows, the code does what exact arithmetic does. -/
theorem allow_limiter_eq (h : CacheBounds c earlier) (hsorted : ∀ e ∈ earlier, e.time ≤ call.time)
    (hfits : ∀ e ∈ earlier, e.FitsAfter c.limiter call) :
    c.limiter.allow (c.bucket call.key) call.clock =
      c.limiter.toTimeLimiter.allow (c.bucket call.key) call.clock :=
  Int64Limiter.allow_eq (bucketBounds_bucket h hsorted) (fits_bucket h hsorted hfits) call.lt

theorem cacheBounds_next (h : CacheBounds c earlier) (hsorted : ∀ e ∈ earlier, e.time ≤ call.time)
    (hfits : ∀ e ∈ earlier, e.FitsAfter c.limiter call) :
    CacheBounds (c.next call) (earlier ++ [call]) := by
  have hbounds := bucketBounds_bucket h hsorted
  have hallow := bucketBounds_allow call.clock hbounds
  have hlast := lastTime_allow call.clock hbounds
  rw [← allow_limiter_eq h hsorted hfits] at hallow hlast
  unfold next allow
  by_cases hflush : c.flushes call.key = true
  · rw [if_pos hflush]
    exact ⟨Nat.zero_le _, fun key b hb => absurd hb (by simp), fun key b hb => absurd hb (by simp)⟩
  · rw [if_neg hflush]
    have hbucket (key : Bytes) (b : TokenBucket)
        (hb : (c.cache.assign call.key
          (c.limiter.allow (c.bucket call.key) call.clock).2).find? key = some b) :
        key = call.key ∧ b = (c.limiter.allow (c.bucket call.key) call.clock).2 ∨
          c.cache.find? key = some b := by
      rw [AssocMap.find?_assign] at hb
      split_ifs at hb with hkey
      · exact Or.inl ⟨(eq_of_beq hkey).symm, (Option.some.inj hb).symm⟩
      · exact Or.inr hb
    refine ⟨?_, ?_, ?_⟩
    · refine le_trans (size_assign_le _ _ _) ?_
      simp only [flushes, Bool.and_eq_true, decide_eq_true_eq, not_and, not_lt,
        Bool.not_eq_true'] at hflush
      have hsize := h.size_le
      show (if c.cache.contains call.key = true then c.cache.size else c.cache.size + 1) ≤
        c.capacity
      split_ifs with hnew
      · exact hsize
      · exact hflush (by simpa using hnew)
    · intro key b hb
      rcases hbucket key b hb with ⟨-, rfl⟩ | hold
      · exact ⟨hallow.tokens_nonneg, hallow.tokens_le⟩
      · exact h.tokens key b hold
    · intro key b hb
      rcases hbucket key b hb with ⟨rfl, rfl⟩ | hold
      · rcases hlast with hset | ⟨hused, hkept⟩
        · exact ⟨call, by simp, rfl, hset⟩
        · obtain ⟨e, he, hkey, htime⟩ := h.exists_lastTime hused
          exact ⟨e, List.mem_append_left _ he, hkey, hkept.trans htime⟩
      · obtain ⟨e, he, hkey, htime⟩ := h.last key b hold
        exact ⟨e, List.mem_append_left _ he, hkey, htime⟩

end Step

theorem limiter_run (c : Int64Cache) (calls : List AllowCall) :
    (calls.foldl next c).capacity = c.capacity ∧ (calls.foldl next c).limiter = c.limiter := by
  induction calls generalizing c with
  | nil => exact ⟨rfl, rfl⟩
  | cons call rest ih =>
    obtain ⟨hcapacity, hlimiter⟩ := capacity_next c call
    rw [List.foldl_cons, (ih (c.next call)).1, (ih (c.next call)).2, hcapacity, hlimiter]
    exact ⟨rfl, rfl⟩

/-- No call of the list comes before an earlier one or too long after one of its own key. -/
def InOrder (l : Int64Limiter) (calls : List AllowCall) : Prop :=
  calls.Pairwise fun a b => a.time ≤ b.time ∧ a.FitsAfter l b

theorem cacheBounds_run (hempty : c.cache = ∅) {calls : List AllowCall}
    (horder : InOrder c.limiter calls) : CacheBounds (calls.foldl next c) calls := by
  induction calls using List.reverseRecOn with
  | nil =>
    refine ⟨?_, ?_, ?_⟩
    · rw [List.foldl_nil, hempty]
      exact Nat.zero_le _
    · intro key b hb
      rw [List.foldl_nil, hempty] at hb
      cases hb
    · intro key b hb
      rw [List.foldl_nil, hempty] at hb
      cases hb
  | append_singleton calls call ih =>
    unfold InOrder at horder
    rw [List.pairwise_append] at horder
    obtain ⟨hcalls, -, hcall⟩ := horder
    rw [List.foldl_append]
    have hlimiter := (limiter_run c calls).2
    apply cacheBounds_next (ih hcalls)
    · intro e he
      exact (hcall e he call List.mem_cons_self).1
    · intro e he
      rw [hlimiter]
      exact (hcall e he call List.mem_cons_self).2

end Int64Cache

section Epochs

variable {l : TimeLimiter} {b : TokenBucket} {ep : Option EpochCount} {t : ℤ}

/-- The bucket holds what the epoch has left. -/
def Tracks (l : TimeLimiter) (b : TokenBucket) : Option EpochCount → Prop
  | none => b = .new
  | some ep => 0 < ep.start ∧ b.lastTime = ep.start ∧ 0 < ep.admitted ∧
      ep.admitted ≤ l.burstSize ∧ b.tokens = (l.burstSize : ℤ) - ep.admitted

/-- An epoch with as many arrivals as it has admitted. -/
def toEpoch (ep : EpochCount) : Epoch Unit := ⟨ep.start, List.replicate ep.admitted ()⟩

theorem accounts_of_tracks (h : Tracks l b ep) : Accounts l b (ep.map toEpoch) := by
  cases ep with
  | none => exact h
  | some ep =>
    obtain ⟨hstart, hlast, hpos, hle, htokens⟩ := h
    have hlength : (toEpoch ep).arrivals.length = ep.admitted := List.length_replicate
    refine ⟨hstart, hlast, ?_, ?_⟩
    · rw [← List.length_pos_iff, hlength]
      exact hpos
    · rw [hlength]
      omega

theorem length_currentArrivals_toEpoch (l : TimeLimiter) (ep : Option EpochCount) (ht : 0 < t) :
    (currentArrivals l (ep.map toEpoch) (.constant t ht)).length =
      admittedAt l.refillTime ep t := by
  cases ep with
  | none => rfl
  | some ep =>
    show (if t - ep.start < l.refillTime then List.replicate ep.admitted () else []).length =
      if t - ep.start < l.refillTime then ep.admitted else 0
    split_ifs
    · exact List.length_replicate
    · rfl

theorem start_nextEpoch_toEpoch (l : TimeLimiter) (ep : Option EpochCount) (ht : 0 < t)
    (ok : Bool) :
    (epochAfter l.refillTime ep (t, ok)).map EpochCount.start =
      some (nextEpoch l (ep.map toEpoch) (.constant t ht) ()).start := by
  cases ep <;> rfl

theorem admittedAt_le_of_tracks (h : Tracks l b ep) :
    admittedAt l.refillTime ep t ≤ l.burstSize := by
  cases ep with
  | none => exact Nat.zero_le _
  | some ep =>
    show (if t - ep.start < l.refillTime then ep.admitted else 0) ≤ l.burstSize
    split_ifs
    · exact h.2.2.2.1
    · exact Nat.zero_le _

theorem allow_of_tracks (h : Tracks l b ep) (ht : 0 < t) (hep : ∀ e, ep = some e → e.start ≤ t) :
    (l.allow b (.constant t ht)).1 = decide (admittedAt l.refillTime ep t < l.burstSize) ∧
      Tracks l (l.allow b (.constant t ht)).2
        (epochAfter l.refillTime ep (t, (l.allow b (.constant t ht)).1)) := by
  have hburst := l.burst_pos
  have hmono : ∀ e, ep.map toEpoch = some e → e.start ≤ (ClockReadings.constant t ht).first := by
    intro e he
    obtain ⟨d, hd, rfl⟩ := Option.map_eq_some_iff.mp he
    exact hep d hd
  obtain ⟨hanswer, hstart, hlast, -, htokens⟩ := allow_of_accounts (accounts_of_tracks h) hmono ()
  have hcurrent := length_currentArrivals_toEpoch l ep ht
  have hle := admittedAt_le_of_tracks (t := t) h
  have hsame := start_nextEpoch_toEpoch l ep ht (l.allow b (.constant t ht)).1
  have hlength : (nextEpoch l (ep.map toEpoch) (.constant t ht) ()).arrivals.length =
      admittedAt l.refillTime ep t + 1 := by
    show (currentArrivals l (ep.map toEpoch) (.constant t ht) ++ [()]).length = _
    rw [List.length_append, hcurrent, List.length_singleton]
  rw [hcurrent] at hanswer
  refine ⟨hanswer, ?_⟩
  obtain ⟨e, he, hestart⟩ := Option.map_eq_some_iff.mp hsame
  have hadmitted : e.admitted =
      admittedAt l.refillTime ep t + (l.allow b (.constant t ht)).1.toNat := by
    obtain rfl := Option.some.inj he
    rfl
  rw [hlength] at htokens
  rw [he]
  rw [hanswer] at hadmitted
  rw [← hestart] at hstart hlast
  by_cases hlt : admittedAt l.refillTime ep t < l.burstSize
  · rw [decide_eq_true hlt, Bool.toNat_true] at hadmitted
    refine ⟨hstart, hlast, by omega, by omega, ?_⟩
    rw [htokens, hadmitted]
    push_cast
    omega
  · rw [decide_eq_false hlt, Bool.toNat_false] at hadmitted
    refine ⟨hstart, hlast, by omega, by omega, ?_⟩
    rw [htokens, hadmitted]
    push_cast
    omega

end Epochs

namespace Int64Cache

variable {c : Int64Cache} {calls : List AllowCall}

theorem requestsOf_append (key : Bytes) (c : Int64Cache) (calls later : List AllowCall) :
    requestsOf key c (calls ++ later) =
      requestsOf key c calls ++ requestsOf key (calls.foldl next c) later := by
  induction calls generalizing c with
  | nil => rfl
  | cons call rest ih =>
    rw [List.cons_append, requestsOf, requestsOf, ih, List.append_assoc, List.foldl_cons]

theorem mem_requestsOf {key : Bytes} {request : ℤ × Bool} (h : request ∈ requestsOf key c calls) :
    ∃ call ∈ calls, request.1 = call.time := by
  induction calls generalizing c with
  | nil => cases h
  | cons call rest ih =>
    rw [requestsOf, List.mem_append] at h
    rcases h with h | h
    · split_ifs at h
      · exact ⟨call, List.mem_cons_self, by rw [List.mem_singleton.mp h]⟩
      · cases h
    · obtain ⟨later, hlater, heq⟩ := ih h
      exact ⟨later, List.mem_cons_of_mem _ hlater, heq⟩

theorem sorted_requestsOf (key : Bytes) (hsorted : (calls.map AllowCall.time).Pairwise (· ≤ ·)) :
    ((requestsOf key c calls).map Prod.fst).Pairwise (· ≤ ·) := by
  induction calls generalizing c with
  | nil => exact List.Pairwise.nil
  | cons call rest ih =>
    rw [List.map_cons, List.pairwise_cons] at hsorted
    have hrest := ih (c := c.next call) hsorted.2
    rw [requestsOf]
    split_ifs
    · rw [List.singleton_append, List.map_cons, List.pairwise_cons]
      refine ⟨fun t ht => ?_, hrest⟩
      obtain ⟨request, hrequest, rfl⟩ := List.mem_map.mp ht
      obtain ⟨later, hlater, heq⟩ := mem_requestsOf hrequest
      rw [heq]
      exact hsorted.1 _ (List.mem_map_of_mem hlater)
    · exact hrest

/-- A call that does not flush the cache is answered by the epoch of its key, and the bucket
follows the epoch. -/
theorem tracks_next {ep : Option EpochCount} {before : List AllowCall} {call : AllowCall}
    (hbounds : CacheBounds c before) (hsorted : ∀ e ∈ before, e.time ≤ call.time)
    (hfits : ∀ e ∈ before, e.FitsAfter c.limiter call) (hkept : c.flushes call.key = false)
    (htracks : Tracks c.limiter.toTimeLimiter (c.bucket call.key) ep)
    (hep : ∀ e, ep = some e → e.start ≤ call.time) :
    c.answer call = decide (admittedAt c.limiter.refillTime ep call.time < c.limiter.burstSize) ∧
      Tracks (c.next call).limiter.toTimeLimiter ((c.next call).bucket call.key)
        (epochAfter c.limiter.refillTime ep (call.time, c.answer call)) := by
  obtain ⟨hanswer, hlimiter, hbucket⟩ := allow_of_not_flushes call.clock hkept
  change (c.next call).limiter = c.limiter at hlimiter
  have hexact := allow_limiter_eq hbounds hsorted hfits
  obtain ⟨hdecide, hnext⟩ := allow_of_tracks htracks call.pos hep
  have hok : c.answer call =
      decide (admittedAt c.limiter.refillTime ep call.time < c.limiter.burstSize) := by
    rw [hexact] at hanswer
    exact hanswer.trans hdecide
  refine ⟨hok, ?_⟩
  have hb : (c.next call).bucket call.key =
      (c.limiter.toTimeLimiter.allow (c.bucket call.key) call.clock).2 := by
    rw [← hexact]
    exact (hbucket call.key).trans (if_pos rfl)
  rw [hlimiter, hb, hok, ← hdecide]
  exact hnext

/-- As long as the cache is not flushed, each key is limited by its epochs. -/
theorem limited_requestsOf (key : Bytes) {ep : Option EpochCount} {before : List AllowCall}
    (hbounds : CacheBounds c before) (horder : InOrder c.limiter (before ++ calls))
    (hflush : Unflushed c calls)
    (htracks : Tracks c.limiter.toTimeLimiter (c.bucket key) ep)
    (hep : ∀ e, ep = some e → ∀ call ∈ calls, e.start ≤ call.time) :
    Limited c.limiter.refillTime c.limiter.burstSize ep (requestsOf key c calls) := by
  induction calls generalizing c ep before with
  | nil => exact everyStep_nil
  | cons call rest ih =>
    have hpairs := horder
    unfold InOrder at hpairs
    rw [List.pairwise_append, List.pairwise_cons] at hpairs
    obtain ⟨-, ⟨hlater, -⟩, hearlier⟩ := hpairs
    have hsorted : ∀ e ∈ before, e.time ≤ call.time := fun e he =>
      (hearlier e he call List.mem_cons_self).1
    have hfits : ∀ e ∈ before, e.FitsAfter c.limiter call := fun e he =>
      (hearlier e he call List.mem_cons_self).2
    unfold Unflushed at hflush
    rw [everyStep_cons] at hflush
    obtain ⟨hkept, hflush⟩ := hflush
    obtain ⟨-, hlimiter, hbucket⟩ := allow_of_not_flushes call.clock hkept
    change (c.next call).limiter = c.limiter at hlimiter
    have hbounds' := cacheBounds_next hbounds hsorted hfits
    have horder' : InOrder (c.next call).limiter ((before ++ [call]) ++ rest) := by
      rw [hlimiter, List.append_assoc]
      exact horder
    rw [requestsOf]
    by_cases hkey : call.key = key
    · subst hkey
      have hbefore : ∀ e, ep = some e → e.admitted ≤ c.limiter.burstSize ∧ e.start ≤ call.time := by
        rintro e rfl
        exact ⟨htracks.2.2.2.1, hep e rfl call List.mem_cons_self⟩
      obtain ⟨hok, hnext⟩ := tracks_next hbounds hsorted hfits hkept htracks
        fun e he => (hbefore e he).2
      have hrest := ih hbounds' horder' hflush hnext fun e he later hmem =>
        le_trans (epochAfter_le c.limiter.burst_pos hbefore hok he).2 (hlater later hmem).1
      rw [hlimiter] at hrest
      rw [if_pos rfl, List.singleton_append]
      unfold Limited
      rw [everyStep_cons]
      exact ⟨hok, hrest⟩
    · have hb : (c.next call).bucket key = c.bucket key :=
        (hbucket key).trans (if_neg (Ne.symm hkey))
      have htracks' : Tracks (c.next call).limiter.toTimeLimiter ((c.next call).bucket key) ep := by
        rw [hlimiter, hb]
        exact htracks
      have hrest := ih hbounds' horder' hflush htracks'
        fun e he later hmem => hep e he later (List.mem_cons_of_mem _ hmem)
      rw [if_neg hkey, List.nil_append]
      rw [hlimiter] at hrest
      exact hrest

theorem bucket_of_startsAnew (hempty : c.cache = ∅) (h : c.StartsAnew calls) (key : Bytes) :
    (calls.foldl next c).bucket key = .new := by
  have hcache : (calls.foldl next c).cache = ∅ := by
    rcases h with rfl | ⟨before, call, rfl, hflush⟩
    · exact hempty
    · rw [List.foldl_append, List.foldl_cons, List.foldl_nil, next, allow, if_pos hflush]
  unfold bucket
  rw [hcache]
  rfl

/-- What a stretch of calls between two flushes gives for one key. -/
theorem limited_of_startsAnew {before during : List AllowCall} (hempty : c.cache = ∅)
    (hanew : c.StartsAnew before) (hflush : Unflushed (before.foldl next c) during)
    (horder : InOrder c.limiter (before ++ during)) (key : Bytes) :
    Limited c.limiter.refillTime c.limiter.burstSize none
      (requestsOf key (before.foldl next c) during) := by
  have hlimiter := (limiter_run c before).2
  have hbounds := cacheBounds_run hempty (List.pairwise_append.mp horder).1
  have htracks : Tracks (before.foldl next c).limiter.toTimeLimiter
      ((before.foldl next c).bucket key) none :=
    bucket_of_startsAnew hempty hanew key
  rw [← hlimiter] at horder
  have hlimited := limited_requestsOf key hbounds horder hflush htracks (by simp)
  rw [hlimiter] at hlimited
  exact hlimited

/-- The answer to a call is read off the epoch of its key. -/
theorem answer_eq_false_iff {before earlier : List AllowCall} {call : AllowCall}
    (hempty : c.cache = ∅) (hanew : c.StartsAnew before)
    (hflush : Unflushed (before.foldl next c) (earlier ++ [call]))
    (horder : InOrder c.limiter (before ++ (earlier ++ [call]))) :
    (earlier.foldl next (before.foldl next c)).answer call = false ↔
      c.limiter.burstSize ≤ admittedAt c.limiter.refillTime
        (Data.epochOf c.limiter.refillTime (requestsOf call.key (before.foldl next c) earlier))
        call.time := by
  have hlimited := limited_of_startsAnew hempty hanew hflush horder call.key
  rw [requestsOf_append] at hlimited
  have hlast : requestsOf call.key (earlier.foldl next (before.foldl next c)) [call] =
      [(call.time, (earlier.foldl next (before.foldl next c)).answer call)] := by
    rw [requestsOf, if_pos rfl]
    rfl
  rw [hlast] at hlimited
  unfold Limited at hlimited
  rw [everyStep_append_singleton] at hlimited
  have hanswer := hlimited.2
  dsimp only at hanswer
  rw [hanswer, decide_eq_false_iff_not, not_lt]
  rfl

/-- Whatever is called and when, as long as one burst for each period that has begun between two
calls of a key is no overflow: the cache stays within its capacity and every bucket within its
burst; between two flushes a call is refused exactly when the burst of its key's epoch is used up,
so that a window of some periods sees at most one burst more than these periods; and a bucket in
use gives exactly the tokens it has. -/
theorem rate_limiter_discipline (capacity : ℕ) (l : Int64Limiter) (calls : List AllowCall)
    (hsorted : (calls.map AllowCall.time).Pairwise (· ≤ ·))
    (hfits : calls.Pairwise fun a b => a.key = b.key →
      l.burstSize * ((b.time - a.time) / l.refillTime + 1) < 2 ^ 63) :
    let c : Int64Cache := ⟨capacity, l, ∅⟩
    (∀ before, before <+: calls →
      (before.foldl next c).cache.size ≤ capacity ∧
      ∀ key b, (before.foldl next c).cache.find? key = some b →
        0 ≤ b.tokens ∧ b.tokens ≤ l.burstSize) ∧
    (∀ before during after, calls = before ++ during ++ after → c.StartsAnew before →
      Unflushed (before.foldl next c) during →
      (∀ earlier call later, during = earlier ++ call :: later →
        ((earlier.foldl next (before.foldl next c)).answer call = false ↔
          l.burstSize ≤ admittedAt l.refillTime
            (Data.epochOf l.refillTime (requestsOf call.key (before.foldl next c) earlier))
            call.time)) ∧
      ∀ (key : Bytes) (x : ℤ) (m : ℕ), (admittedWithin x (x + m * l.refillTime)
        (requestsOf key (before.foldl next c) during)).length ≤ (m + 1) * l.burstSize) ∧
    ∀ (b : TokenBucket) (n t : ℤ) (ht : 0 < t), b.lastTime ≠ 0 →
      ((l.allowN b n (.constant t ht)).1 = true ↔ n ≤ l.tokens b t) := by
  intro c
  have horder : InOrder l calls := (List.pairwise_map.mp hsorted).and hfits
  refine ⟨?_, ?_, fun b n t ht hused => l.allowN_iff_le_tokens hused n rfl⟩
  · intro before hbefore
    have hbounds := cacheBounds_run (c := c) rfl (horder.sublist hbefore.sublist)
    obtain ⟨hcapacity, hlimiter⟩ := limiter_run c before
    refine ⟨le_of_le_of_eq hbounds.size_le hcapacity, fun key b hb => ?_⟩
    have htokens := hbounds.tokens key b hb
    rw [hlimiter] at htokens
    exact htokens
  · intro before during after hcalls hanew hflush
    have hduring : InOrder l (before ++ during) := by
      rw [hcalls] at horder
      exact horder.sublist (List.sublist_append_left _ _)
    refine ⟨fun earlier call later hsplit => ?_, fun key x m => ?_⟩
    · have hinitial : earlier ++ [call] <+: during := ⟨later, by rw [hsplit]; simp⟩
      exact answer_eq_false_iff rfl hanew (fun b d hb => hflush b d (hb.trans hinitial))
        (hduring.sublist ((List.append_sublist_append_left before).mpr hinitial.sublist))
    · have htimes : (during.map AllowCall.time).Pairwise (· ≤ ·) := by
        rw [hcalls, List.append_assoc, List.map_append, List.map_append] at hsorted
        exact hsorted.sublist ((List.sublist_append_left _ _).trans (List.sublist_append_right _ _))
      exact length_admittedWithin_le l.refill_pos l.burst_pos
        (limited_of_startsAnew rfl hanew hflush hduring key) (by simp)
        (sorted_requestsOf key htimes) x m

/-- One call in ten seconds for each key, and room for one key. -/
def narrowLimiter : Int64Limiter :=
  { TimeLimiter.new 1 10 (by decide) (by decide) with
    burst_lt := by decide
    refill_lt := by decide }

/-- Two calls for a key, and one for another that flushes the cache. -/
def shortRun : List AllowCall :=
  [⟨[97], 5, by decide, by decide⟩, ⟨[97], 7, by decide, by decide⟩,
    ⟨[98], 8, by decide, by decide⟩]

theorem rate_limiter_discipline_shortRun :
    (shortRun.foldl next ⟨1, narrowLimiter, ∅⟩).cache.size ≤ 1 ∧
    ((shortRun.take 1).foldl next ⟨1, narrowLimiter, ∅⟩).answer
      ⟨[97], 7, by decide, by decide⟩ = false ∧
    (admittedWithin 5 10000005 (requestsOf [97] ⟨1, narrowLimiter, ∅⟩ (shortRun.take 2))).length ≤
      2 := by
  obtain ⟨hbounds, hepochs, -⟩ :=
    rate_limiter_discipline 1 narrowLimiter shortRun (by decide) (by decide)
  obtain ⟨hrefused, hwindow⟩ := hepochs [] (shortRun.take 2) (shortRun.drop 2) rfl (Or.inl rfl)
    (by unfold Unflushed; decide)
  refine ⟨(hbounds shortRun (List.prefix_refl _)).1, ?_, hwindow [97] 5 1⟩
  exact (hrefused (shortRun.take 1) ⟨[97], 7, by decide, by decide⟩ [] rfl).mpr (by decide)

/-- A burst of three eighths of what an `int64_t` can hold, each second. -/
def wideLimiter : Int64Limiter :=
  { TimeLimiter.new (3 * 2 ^ 60) 1 (by decide) (by decide) with
    burst_lt := by decide
    refill_lt := by decide }

/-- Two calls for a key, two seconds apart. -/
def wideRun : List AllowCall :=
  [⟨[97], 1000000, by decide, by decide⟩, ⟨[97], 3000000, by decide, by decide⟩]

/-- Two bursts fit, but the tokens that are left in the bucket do not fit on top of them: the
second call is refused, though no call of its epoch was allowed, and the bucket is below zero. -/
theorem rate_limiter_overflows_wideRun :
    (wideRun.map AllowCall.time).Pairwise (· ≤ ·) ∧
    (wideRun.Pairwise fun a b => a.key = b.key →
      wideLimiter.burstSize * ((b.time - a.time) / wideLimiter.refillTime) < (2 ^ 63 : ℤ)) ∧
    Unflushed ⟨1, wideLimiter, ∅⟩ wideRun ∧
    requestsOf [97] ⟨1, wideLimiter, ∅⟩ wideRun = [(1000000, true), (3000000, false)] ∧
    admittedAt wideLimiter.refillTime
      (Data.epochOf wideLimiter.refillTime [(1000000, true)]) 3000000 = 0 ∧
    (wideRun.foldl next ⟨1, wideLimiter, ∅⟩).bucket [97] = ⟨-7 * 2 ^ 60 - 1, 3000000⟩ := by
  refine ⟨by decide, by decide, ?_, by decide, by decide, by decide⟩
  unfold Unflushed
  decide

end Int64Cache

end AcsNext.Collector
