import AcsNext.Collector.RateLimit

/-! The rate limiter in the arithmetic of the code, `int64_t`, and when it is exact. -/
namespace AcsNext.Collector
open AcsNext.Data

/-- What an `int64_t` keeps of a value, in two's complement. -/
def int64 (x : ℤ) : ℤ := x.bmod (2 ^ 64)

theorem int64_of_lt {x : ℤ} (hle : -2 ^ 63 ≤ x) (hlt : x < 2 ^ 63) : int64 x = x := by
  apply Int.bmod_eq_of_le
  · norm_num at hle ⊢
    exact hle
  · norm_num at hlt ⊢
    exact hlt

structure Int64Limiter extends TimeLimiter where
  burst_lt : burstSize < 2 ^ 63
  refill_lt : refillTime < 2 ^ 63

namespace Int64Limiter

variable (l : Int64Limiter)

def refillCount (b : TokenBucket) (now : ℤ) : ℤ := (int64 (now - b.lastTime)).tdiv l.refillTime

def refilled (b : TokenBucket) (clock : ClockReadings) : TokenBucket :=
  let b := if b.lastTime = 0 then l.fillBucket clock.first else b
  let refill := l.refillCount b clock.second
  let b : TokenBucket := ⟨int64 (b.tokens + int64 (refill * l.burstSize)),
    int64 (b.lastTime + int64 (refill * l.refillTime))⟩
  if l.burstSize ≤ b.tokens then l.fillBucket clock.third else b

def allowN (b : TokenBucket) (n : ℤ) (clock : ClockReadings) : Bool × TokenBucket :=
  let b := l.refilled b clock
  if b.tokens < n then (false, b) else (true, ⟨int64 (b.tokens - n), b.lastTime⟩)

def allow (b : TokenBucket) (clock : ClockReadings) : Bool × TokenBucket := l.allowN b 1 clock

def tokens (b : TokenBucket) (now : ℤ) : ℤ :=
  min l.burstSize (int64 (b.tokens + int64 (l.refillCount b now * l.burstSize)))

/-- A bucket in use has as many tokens as can be taken from it, overflow or not. -/
theorem allowN_iff_le_tokens {b : TokenBucket} (hused : b.lastTime ≠ 0) (n : ℤ)
    {clock : ClockReadings} {now : ℤ} (hnow : clock.second = now) :
    (l.allowN b n clock).1 = true ↔ n ≤ l.tokens b now := by
  subst hnow
  unfold allowN refilled tokens TimeLimiter.fillBucket
  simp only [if_neg hused]
  split_ifs with hfull hempty hempty <;> simp only [false_iff, true_iff] <;>
    dsimp only at hempty <;> omega

end Int64Limiter

structure Int64Cache where
  capacity : ℕ
  limiter : Int64Limiter
  cache : AssocMap Bytes TokenBucket

namespace Int64Cache

variable (c : Int64Cache)

def flushes (key : Bytes) : Bool := !c.cache.contains key && decide (c.capacity < c.cache.size + 1)

def bucket (key : Bytes) : TokenBucket := (c.cache.find? key).getD .new

def allow (key : Bytes) (clock : ClockReadings) : Bool × Int64Cache :=
  if c.flushes key then (true, { c with cache := ∅ })
  else
    let allowed := c.limiter.allow (c.bucket key) clock
    (allowed.1, { c with cache := c.cache.assign key allowed.2 })

variable {c}

theorem allow_of_not_flushes {key : Bytes} (clock : ClockReadings) (h : c.flushes key = false) :
    (c.allow key clock).1 = (c.limiter.allow (c.bucket key) clock).1 ∧
    (c.allow key clock).2.limiter = c.limiter ∧
    ∀ q, (c.allow key clock).2.bucket q =
      if q = key then (c.limiter.allow (c.bucket key) clock).2 else c.bucket q := by
  unfold allow
  rw [if_neg (by rw [h]; exact Bool.false_ne_true)]
  refine ⟨rfl, rfl, fun q => ?_⟩
  unfold bucket
  rw [AssocMap.find?_assign]
  by_cases hq : q = key
  · simp [hq]
  · simp [hq, Ne.symm hq]

end Int64Cache

/-- A bucket as it is at a time. -/
structure BucketBounds (l : TimeLimiter) (now : ℤ) (b : TokenBucket) : Prop where
  tokens_nonneg : 0 ≤ b.tokens
  tokens_le : b.tokens ≤ l.burstSize
  last_nonneg : 0 ≤ b.lastTime
  last_le : b.lastTime ≤ now

section Bounds

variable {l : TimeLimiter} {b : TokenBucket} {now t : ℤ}

theorem bucketBounds_new (hnow : 0 ≤ now) : BucketBounds l now .new :=
  ⟨le_rfl, Int.natCast_nonneg _, le_rfl, hnow⟩

theorem bucketBounds_fill (ht : 0 < t) (hnow : t ≤ now) : BucketBounds l now (l.fillBucket t) :=
  ⟨Int.natCast_nonneg _, le_rfl, ht.le, hnow⟩

/-- Whole periods are counted, so the bucket's clock does not run ahead. -/
theorem refillCount_bounds (h : BucketBounds l t b) :
    0 ≤ l.refillCount b t ∧ b.lastTime + l.refillCount b t * l.refillTime ≤ t := by
  have hrefill := l.refill_pos
  have hlast := h.last_le
  unfold TimeLimiter.refillCount
  rw [Int.tdiv_eq_ediv_of_nonneg (by omega)]
  have hmul := Int.ediv_mul_le (t - b.lastTime) hrefill.ne'
  exact ⟨Int.ediv_nonneg (by omega) hrefill.le, by omega⟩

theorem bucketBounds_refilled {clock : ClockReadings} (h : BucketBounds l clock.second b) :
    BucketBounds l clock.third (l.refilled b clock) := by
  have hpos := clock.first_pos
  have hfirst := clock.first_le
  have hsecond := clock.second_le
  have hstart : BucketBounds l clock.second
      (if b.lastTime = 0 then l.fillBucket clock.first else b) := by
    split_ifs
    · exact bucketBounds_fill hpos hfirst
    · exact h
  unfold TimeLimiter.refilled
  dsimp only
  generalize (if b.lastTime = 0 then l.fillBucket clock.first else b) = d at hstart
  obtain ⟨hcount, hlast⟩ := refillCount_bounds hstart
  split_ifs with hfull
  · exact bucketBounds_fill (by omega) le_rfl
  · have htokens := hstart.tokens_nonneg
    have hstarted := hstart.last_nonneg
    have hrefill := l.refill_pos
    refine ⟨?_, by dsimp only at hfull ⊢; omega, ?_, by dsimp only; omega⟩
    · exact add_nonneg htokens (mul_nonneg hcount (Int.natCast_nonneg _))
    · exact add_nonneg hstarted (mul_nonneg hcount hrefill.le)

theorem bucketBounds_allow (clock : ClockReadings) (h : BucketBounds l clock.second b) :
    BucketBounds l clock.third (l.allow b clock).2 := by
  have hrefilled := bucketBounds_refilled h
  unfold TimeLimiter.allow TimeLimiter.allowN
  dsimp only
  split_ifs with hempty
  · exact hrefilled
  · obtain ⟨hnonneg, hle, hlast, hnow⟩ := hrefilled
    exact ⟨by dsimp only; omega, by dsimp only; omega, hlast, hnow⟩

theorem lastTime_refilled {clock : ClockReadings} (h : BucketBounds l clock.second b) :
    (l.refilled b clock).lastTime = clock.third ∨
      b.lastTime ≠ 0 ∧ (l.refilled b clock).lastTime = b.lastTime := by
  unfold TimeLimiter.refilled
  dsimp only
  by_cases hnew : b.lastTime = 0
  · have hfill := refillCount_bounds (l := l) (bucketBounds_fill clock.first_pos clock.first_le)
    have hfull : (l.burstSize : ℤ) ≤ (l.fillBucket clock.first).tokens +
        l.refillCount (l.fillBucket clock.first) clock.second * l.burstSize :=
      le_add_of_nonneg_right (mul_nonneg hfill.1 (Int.natCast_nonneg _))
    rw [if_pos hnew, if_pos hfull]
    exact Or.inl rfl
  · rw [if_neg hnew]
    obtain ⟨hcount, -⟩ := refillCount_bounds h
    split_ifs with hfull
    · exact Or.inl rfl
    · -- a bucket that is not full had no refill
      have hzero : l.refillCount b clock.second = 0 := by
        by_contra hne
        have hone : 1 ≤ l.refillCount b clock.second := by omega
        have hburst : (1 : ℤ) * l.burstSize ≤ l.refillCount b clock.second * l.burstSize :=
          mul_le_mul_of_nonneg_right hone (Int.natCast_nonneg _)
        have htokens := h.tokens_nonneg
        omega
      rw [hzero]
      exact Or.inr ⟨hnew, by simp⟩

/-- A call sets the bucket's clock or, if it was set before, leaves it alone. -/
theorem lastTime_allow (clock : ClockReadings) (h : BucketBounds l clock.second b) :
    (l.allow b clock).2.lastTime = clock.third ∨
      b.lastTime ≠ 0 ∧ (l.allow b clock).2.lastTime = b.lastTime := by
  have hlast := lastTime_refilled h
  unfold TimeLimiter.allow TimeLimiter.allowN
  dsimp only
  split_ifs
  · exact hlast
  · exact hlast

/-- Nothing overflows as long as one burst for each period that has begun fits. -/
theorem refill_fits_int64 (ht : t < 2 ^ 63) (h : BucketBounds l t b)
    (hfits : l.burstSize * (l.refillCount b t + 1) < 2 ^ 63) :
    l.refillCount b t * l.burstSize < 2 ^ 63 ∧
      b.tokens + l.refillCount b t * l.burstSize < 2 ^ 63 ∧
      b.lastTime + l.refillCount b t * l.refillTime < 2 ^ 63 := by
  obtain ⟨hcount, hlast⟩ := refillCount_bounds h
  have hle := h.tokens_le
  have hexpand : (l.burstSize : ℤ) * (l.refillCount b t + 1) =
      l.refillCount b t * l.burstSize + l.burstSize := by ring
  exact ⟨by omega, by omega, by omega⟩

end Bounds

namespace Int64Limiter

variable {l : Int64Limiter} {b : TokenBucket} {clock : ClockReadings}

/-- The bucket that a call refills: a new one is filled first. -/
def inUse (l : Int64Limiter) (b : TokenBucket) (clock : ClockReadings) : TokenBucket :=
  if b.lastTime = 0 then l.fillBucket clock.first else b

/-- One burst for each period that has begun since the bucket was last filled is no overflow. -/
def Fits (l : Int64Limiter) (b : TokenBucket) (clock : ClockReadings) : Prop :=
  l.burstSize * (l.toTimeLimiter.refillCount (l.inUse b clock) clock.second + 1) < 2 ^ 63

theorem bucketBounds_inUse (h : BucketBounds l.toTimeLimiter clock.second b) :
    BucketBounds l.toTimeLimiter clock.second (l.inUse b clock) := by
  unfold inUse
  split_ifs
  · exact bucketBounds_fill clock.first_pos clock.first_le
  · exact h

/-- Where nothing overflows, the limiter does what exact arithmetic does. -/
theorem refilled_eq (h : BucketBounds l.toTimeLimiter clock.second b) (hfits : l.Fits b clock)
    (hclock : clock.second < 2 ^ 63) : l.refilled b clock = l.toTimeLimiter.refilled b clock := by
  have hbounds := bucketBounds_inUse h
  obtain ⟨hmul, htokens, hlast⟩ := refill_fits_int64 hclock hbounds hfits
  obtain ⟨hcount, -⟩ := refillCount_bounds hbounds
  unfold refilled TimeLimiter.refilled
  dsimp only
  unfold inUse at hbounds hmul htokens hlast hcount
  generalize (if b.lastTime = 0 then l.fillBucket clock.first else b) = d at *
  have hburst : (0 : ℤ) ≤ l.burstSize := Int.natCast_nonneg _
  have hrefill := l.refill_pos
  have htokens_nonneg := hbounds.tokens_nonneg
  have hlast_nonneg := hbounds.last_nonneg
  have hlast_le := hbounds.last_le
  have hsame : l.refillCount d clock.second = l.toTimeLimiter.refillCount d clock.second := by
    unfold refillCount TimeLimiter.refillCount
    rw [int64_of_lt (by omega) (by omega)]
  have hmul_nonneg := mul_nonneg hcount hburst
  have htime_nonneg := mul_nonneg hcount hrefill.le
  have htime : int64 (l.toTimeLimiter.refillCount d clock.second * l.refillTime) =
      l.toTimeLimiter.refillCount d clock.second * l.refillTime :=
    int64_of_lt (by omega) (by omega)
  rw [hsame, htime, int64_of_lt (by omega) hmul, int64_of_lt (by omega) htokens,
    int64_of_lt (by omega) hlast]

theorem allow_eq (h : BucketBounds l.toTimeLimiter clock.second b) (hfits : l.Fits b clock)
    (hclock : clock.second < 2 ^ 63) : l.allow b clock = l.toTimeLimiter.allow b clock := by
  have hburst : (l.burstSize : ℤ) < 2 ^ 63 := by exact_mod_cast l.burst_lt
  have hle := (bucketBounds_refilled h).tokens_le
  unfold allow allowN TimeLimiter.allow TimeLimiter.allowN
  rw [refilled_eq h hfits hclock]
  dsimp only
  by_cases hempty : (l.toTimeLimiter.refilled b clock).tokens < 1
  · rw [if_pos hempty, if_pos hempty]
  · rw [if_neg hempty, if_neg hempty, int64_of_lt (by omega) (by omega)]

/-- A limiter whose burst is at most half of its period in microseconds never overflows. -/
theorem fits_of_two_mul_le (hburst : 2 * (l.burstSize : ℤ) ≤ l.refillTime)
    (h : BucketBounds l.toTimeLimiter clock.second b) (hclock : clock.second < 2 ^ 63) :
    l.Fits b clock := by
  have hlt := l.refill_lt
  obtain ⟨hcount, hlast⟩ := refillCount_bounds (bucketBounds_inUse h)
  have hstarted := (bucketBounds_inUse h).last_nonneg
  unfold Fits
  generalize l.toTimeLimiter.refillCount (l.inUse b clock) clock.second = count at *
  have hmul : count * (2 * (l.burstSize : ℤ)) ≤ count * l.refillTime :=
    mul_le_mul_of_nonneg_left hburst hcount
  have hexpand : 2 * ((l.burstSize : ℤ) * (count + 1)) =
      count * (2 * (l.burstSize : ℤ)) + 2 * l.burstSize := by ring
  omega

end Int64Limiter

/-- The limiter of process signals is exact at all times that the clock can show. -/
theorem allow_default_eq (l : Int64Limiter) (hl : l.toTimeLimiter = RateLimitCache.default.limiter)
    {b : TokenBucket} {clock : ClockReadings} (h : BucketBounds l.toTimeLimiter clock.second b)
    (hclock : clock.second < 2 ^ 63) : l.allow b clock = l.toTimeLimiter.allow b clock := by
  have hburst : 2 * (l.burstSize : ℤ) ≤ l.refillTime := by
    rw [hl]
    decide
  exact Int64Limiter.allow_eq h (Int64Limiter.fits_of_two_mul_le hburst h hclock) hclock

end AcsNext.Collector
