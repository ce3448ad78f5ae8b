import AcsNext.Data.AssocMap
import AcsNext.Collector.ProcessSignal

/-! Rate limiting of process signals: a bucket of tokens for each key. -/
namespace AcsNext.Collector

open AcsNext.Data

/-- Times are microseconds; `lastTime` is zero as long as the bucket was never filled. -/
structure TokenBucket where
  tokens : ℤ
  lastTime : ℤ
deriving DecidableEq, Repr

def TokenBucket.new : TokenBucket := ⟨0, 0⟩

/-- The clock as one call of the limiter may read it: for the first filling, for the count of
refills and for the filling after them. -/
structure ClockReadings where
  first : ℤ
  second : ℤ
  third : ℤ
  first_pos : 0 < first
  first_le : first ≤ second
  second_le : second ≤ third
deriving DecidableEq

/-- The limiter in exact arithmetic; that of the code is `Int64Limiter`, which agrees with it as
long as nothing overflows. -/
structure TimeLimiter where
  burstSize : ℕ
  refillTime : ℤ
  burst_pos : 0 < burstSize
  refill_pos : 0 < refillTime
deriving DecidableEq

namespace TimeLimiter

/-- The refill time is given in seconds. -/
def new (burstSize refillTime : ℕ) (hb : 0 < burstSize) (hr : 0 < refillTime) : TimeLimiter :=
  ⟨burstSize, refillTime * 1000000, hb, by positivity⟩

variable (l : TimeLimiter)

def fillBucket (now : ℤ) : TokenBucket := ⟨l.burstSize, now⟩

def refillCount (b : TokenBucket) (now : ℤ) : ℤ := (now - b.lastTime).tdiv l.refillTime

def refilled (b : TokenBucket) (clock : ClockReadings) : TokenBucket :=
  let b := if b.lastTime = 0 then l.fillBucket clock.first else b
  let refill := l.refillCount b clock.second
  let b : TokenBucket := ⟨b.tokens + refill * l.burstSize, b.lastTime + refill * l.refillTime⟩
  if l.burstSize ≤ b.tokens then l.fillBucket clock.third else b

def allowN (b : TokenBucket) (n : ℤ) (clock : ClockReadings) : Bool × TokenBucket :=
  let b := l.refilled b clock
  if b.tokens < n then (false, b) else (true, ⟨b.tokens - n, b.lastTime⟩)

def allow (b : TokenBucket) (clock : ClockReadings) : Bool × TokenBucket := l.allowN b 1 clock

end TimeLimiter

structure RateLimitCache where
  capacity : ℕ
  limiter : TimeLimiter
  cache : AssocMap Bytes TokenBucket

namespace RateLimitCache

/-- Ten duplicates of an event in thirty minutes. -/
def default : RateLimitCache :=
  ⟨4096, .new 10 (30 * 60) (by norm_num) (by norm_num), ∅⟩

variable (c : RateLimitCache)

/-- Whether the key is new and one too many. -/
def flushes (key : Bytes) : Bool := !c.cache.contains key && decide (c.capacity < c.cache.size + 1)

def bucket (key : Bytes) : TokenBucket := (c.cache.find? key).getD .new

def allow (key : Bytes) (clock : ClockReadings) : Bool × RateLimitCache :=
  if c.flushes key then (true, { c with cache := ∅ })
  else
    let allowed := c.limiter.allow (c.bucket key) clock
    (allowed.1, { c with cache := c.cache.assign key allowed.2 })

variable {c}

/-- Unless the cache is flushed, only the bucket of the key changes. -/
theorem allow_of_not_flushes {key : Bytes} (clock : ClockReadings) (h : c.flushes key = false) :
    (c.allow key clock).1 = (c.limiter.allow (c.bucket key) clock).1 ∧
    (c.allow key clock).2.limiter = c.limiter ∧
    ∀ q, (c.allow key clock).2.bucket q =
      if q = key then (c.limiter.allow (c.bucket key) clock).2 else c.bucket q := by
  unfold allow
  rw [if_neg (by rw [h]; exact Bool.false_ne_true)]
  refine ⟨rfl, rfl, fun q => ?_⟩
  unfold bucket
  rw [AssocMap.find?_assign]
  by_cases hq : q = key
  · simp [hq]
  · simp [hq, Ne.symm hq]

end RateLimitCache

/-- The time since a key's bucket was last filled: its start and what arrived in it. -/
structure Epoch (A : Type*) where
  start : ℤ
  arrivals : List A

section Epochs

variable {A : Type*} (l : TimeLimiter)

/-- The arrivals of the epoch that is current at the time of a further one. -/
def currentArrivals (ep : Option (Epoch A)) (clock : ClockReadings) : List A :=
  match ep with
  | none => []
  | some ep => if clock.second - ep.start < l.refillTime then ep.arrivals else []

/-- The epoch after a further arrival: it goes on until the refill time is over. -/
def nextEpoch (ep : Option (Epoch A)) (clock : ClockReadings) (a : A) : Epoch A where
  start :=
    match ep with
    | none => clock.third
    | some ep => if clock.second - ep.start < l.refillTime then ep.start else clock.third
  arrivals := currentArrivals l ep clock ++ [a]

/-- The bucket holds what the arrivals of the epoch have left of a full one. -/
def Accounts (b : TokenBucket) (ep : Option (Epoch A)) : Prop :=
  match ep with
  | none => b = .new
  | some ep => 0 < ep.start ∧ b.lastTime = ep.start ∧ ep.arrivals ≠ [] ∧
      b.tokens = max 0 ((l.burstSize : ℤ) - ep.arrivals.length)

variable {l} {b : TokenBucket} {ep : Option (Epoch A)} {clock : ClockReadings}

/-- What the arrivals of an epoch and the empty list have, the current arrivals have. -/
theorem currentArrivals_of {Q : List A → Prop} (hnil : Q [])
    (h : ∀ e, ep = some e → Q e.arrivals) : Q (currentArrivals l ep clock) := by
  unfold currentArrivals
  cases ep with
  | none => exact hnil
  | some ep =>
    show Q (if clock.second - ep.start < l.refillTime then ep.arrivals else [])
    split_ifs
    · exact h ep rfl
    · exact hnil

theorem nextEpoch_start_pos (h : Accounts l b ep) (clock : ClockReadings) (a : A) :
    0 < (nextEpoch l ep clock a).start := by
  have hthird : 0 < clock.third := by
    have := clock.first_pos
    have := clock.first_le
    have := clock.second_le
    omega
  unfold nextEpoch
  cases ep with
  | none => exact hthird
  | some ep =>
    show 0 < if clock.second - ep.start < l.refillTime then ep.start else clock.third
    split_ifs
    · exact h.1
    · exact hthird

theorem nextEpoch_start_le (h : ∀ e, ep = some e → e.start ≤ clock.third) (a : A) :
    (nextEpoch l ep clock a).start ≤ clock.third := by
  unfold nextEpoch
  cases ep with
  | none => exact le_refl _
  | some ep =>
    show (if clock.second - ep.start < l.refillTime then ep.start else clock.third) ≤ clock.third
    split_ifs
    · exact h ep rfl
    · exact le_refl _

/-- Within the epoch the bucket is left alone; after it, and at first, it is filled anew. -/
theorem refilled_of_accounts (h : Accounts l b ep) (hmono : ∀ e, ep = some e → e.start ≤ clock.first)
    (a : A) :
    l.refilled b clock = ⟨max 0 ((l.burstSize : ℤ) - (currentArrivals l ep clock).length),
      (nextEpoch l ep clock a).start⟩ := by
  have hburst := l.burst_pos
  have hrefill := l.refill_pos
  have hfirst := clock.first_le
  cases ep with
  | none =>
    obtain rfl : b = .new := h
    have hcount : 0 ≤ (clock.second - clock.first).tdiv l.refillTime :=
      Int.tdiv_nonneg (by omega) (by omega)
    have hfull : (l.burstSize : ℤ) ≤
        l.burstSize + (clock.second - clock.first).tdiv l.refillTime * l.burstSize := by
      have : 0 ≤ (clock.second - clock.first).tdiv l.refillTime * (l.burstSize : ℤ) := by
        positivity
      omega
    simp [TimeLimiter.refilled, TimeLimiter.refillCount, TimeLimiter.fillBucket, TokenBucket.new,
      nextEpoch, currentArrivals, hfull]
  | some ep =>
    obtain ⟨hstart, hlast, harrivals, htokens⟩ := h
    have hle : ep.start ≤ clock.first := hmono ep rfl
    have hne : b.lastTime ≠ 0 := by omega
    by_cases hcur : clock.second - ep.start < l.refillTime
    · -- no refill, and the bucket is not full
      have hcount : l.refillCount b clock.second = 0 := by
        unfold TimeLimiter.refillCount
        rw [hlast]
        exact Int.tdiv_eq_zero_of_lt (by omega) hcur
      have hlen : 0 < ep.arrivals.length := List.length_pos_iff.mpr harrivals
      have hnotfull : ¬ (l.burstSize : ℤ) ≤ b.tokens := by omega
      have hsame : l.refilled b clock = b := by
        unfold TimeLimiter.refilled
        simp only [if_neg hne, hcount, zero_mul, add_zero, if_neg hnotfull]
      have hb : b = ⟨max 0 ((l.burstSize : ℤ) - ep.arrivals.length), ep.start⟩ := by
        rw [← htokens, ← hlast]
      rw [hsame, hb]
      simp [nextEpoch, currentArrivals, hcur]
    · have hcount : 1 ≤ l.refillCount b clock.second := by
        unfold TimeLimiter.refillCount
        rw [hlast, Int.tdiv_eq_ediv_of_nonneg (by omega), Int.le_ediv_iff_mul_le hrefill]
        omega
      have hfull : (l.burstSize : ℤ) ≤ b.tokens + l.refillCount b clock.second * l.burstSize := by
        have : (1 : ℤ) * l.burstSize ≤ l.refillCount b clock.second * l.burstSize :=
          mul_le_mul_of_nonneg_right hcount (by omega)
        omega
      simp [TimeLimiter.refilled, hne, hfull, nextEpoch, currentArrivals, hcur,
        TimeLimiter.fillBucket]

/-- The limiter lets the first `burstSize` arrivals of an epoch pass and no others. -/
theorem allow_of_accounts (h : Accounts l b ep) (hmono : ∀ e, ep = some e → e.start ≤ clock.first)
    (a : A) :
    (l.allow b clock).1 = decide ((currentArrivals l ep clock).length < l.burstSize) ∧
      Accounts l (l.allow b clock).2 (some (nextEpoch l ep clock a)) := by
  have hburst := l.burst_pos
  have hrefilled := refilled_of_accounts h hmono a
  have hpos := nextEpoch_start_pos h clock a
  have hlen : (nextEpoch l ep clock a).arrivals.length =
      (currentArrivals l ep clock).length + 1 := by
    simp [nextEpoch]
  have hne : (nextEpoch l ep clock a).arrivals ≠ [] := by
    simp [nextEpoch]
  unfold TimeLimiter.allow TimeLimiter.allowN
  rw [hrefilled]
  by_cases hlt : (currentArrivals l ep clock).length < l.burstSize
  · have htokens : ¬ max 0 ((l.burstSize : ℤ) - (currentArrivals l ep clock).length) < 1 := by
      omega
    simp only [htokens, if_false]
    refine ⟨by simp [hlt], hpos, rfl, hne, ?_⟩
    rw [hlen]
    push_cast
    omega
  · have htokens : max 0 ((l.burstSize : ℤ) - (currentArrivals l ep clock).length) < 1 := by
      omega
    simp only [htokens, if_true]
    refine ⟨by simp [hlt], hpos, rfl, hne, ?_⟩
    rw [hlen]
    push_cast
    omega

end Epochs

end AcsNext.Collector
