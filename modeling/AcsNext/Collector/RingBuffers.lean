import AcsNext.Data.FloatRounding

/-! The size of the kernel's ring buffers under a limit on their total. -/
namespace AcsNext.Collector
open AcsNext.Data

/-- The conversion of an `unsigned int` to `float`. -/
def toFloat (k : ℕ) : ℚ := roundBits 24 k

/-- The quotient of two floats. Those met here are far from underflow and overflow. -/
def divFloat (x y : ℚ) : ℚ := roundBits 24 (x / y)

/-- `std::ceil`, converted to `unsigned int`: undefined from 2 ^ 32 on. -/
def ceilUnsigned (x : ℚ) : Option ℕ := if ⌈x⌉₊ < 2 ^ 32 then some ⌈x⌉₊ else none

/-- What `GetSinspBufferSize` reads of the configuration and of the host. -/
structure SinspBufferConfig where
  sinspBufferSize : BitVec 32
  sinspTotalBufferSize : BitVec 32
  sinspCpuPerBuffer : BitVec 32
  numPossibleCPUs : BitVec 32
deriving DecidableEq

/-- The size of one ring buffer; `none` is undefined behaviour. The truncated binary logarithm of
an `unsigned int` is that of the integers. -/
def getSinspBufferSize (c : SinspBufferConfig) : Option ℕ :=
  if c.sinspTotalBufferSize = 0 then some c.sinspBufferSize.toNat
  else if c.sinspCpuPerBuffer = 0 then some c.sinspBufferSize.toNat
  else if c.numPossibleCPUs = 0 then some c.sinspBufferSize.toNat
  else do
    let nBuffers ← ceilUnsigned
      (divFloat (toFloat c.numPossibleCPUs.toNat) (toFloat c.sinspCpuPerBuffer.toNat))
    let maxBufferSize ← ceilUnsigned
      (divFloat (toFloat c.sinspTotalBufferSize.toNat) (toFloat nBuffers))
    let exponent := max 14 (Nat.log 2 maxBufferSize)
    some (min c.sinspBufferSize.toNat (2 ^ exponent))

/-- The buffers that the driver allocates, one for each group of CPUs. -/
def SinspBufferConfig.buffers (c : SinspBufferConfig) : ℕ :=
  ⌈(c.numPossibleCPUs.toNat : ℚ) / c.sinspCpuPerBuffer.toNat⌉₊

theorem toFloat_of_le {k : ℕ} (hpos : 0 < k) (hle : k ≤ 2 ^ 24) : toFloat k = k :=
  roundBits_natCast (by decide) hpos hle

section Quotient

variable {total n : ℕ}

theorem divFloat_toFloat_le (htotal : 0 < total) (hn : 0 < n) (hle : n ≤ 2 ^ 24) :
    n * divFloat (toFloat total) (toFloat n) ≤ total * (1 + 1 / 2 ^ 24) ^ 2 := by
  have htotal' : (0 : ℚ) < total := by exact_mod_cast htotal
  have hn' : (0 : ℚ) < n := by exact_mod_cast hn
  have hdividend : toFloat total ≤ total * (1 + 1 / 2 ^ 24) := roundBits_le htotal'
  have hpos : 0 < toFloat total / n := div_pos (roundBits_pos (by decide) htotal') hn'
  have hquot : divFloat (toFloat total) n ≤ toFloat total / n * (1 + 1 / 2 ^ 24) :=
    roundBits_le hpos
  rw [toFloat_of_le hn hle]
  calc n * divFloat (toFloat total) n
      ≤ n * (toFloat total / n * (1 + 1 / 2 ^ 24)) := by gcongr
    _ = toFloat total * (1 + 1 / 2 ^ 24) := by
        rw [← mul_assoc, mul_div_cancel₀ _ hn'.ne']
    _ ≤ total * (1 + 1 / 2 ^ 24) * (1 + 1 / 2 ^ 24) := by gcongr
    _ = total * (1 + 1 / 2 ^ 24) ^ 2 := by ring

theorem le_divFloat_toFloat (htotal : 0 < total) (hn : 0 < n) (hle : n ≤ 2 ^ 24) :
    total * (1 - 1 / 2 ^ 24) ^ 2 ≤ n * divFloat (toFloat total) (toFloat n) := by
  have htotal' : (0 : ℚ) < total := by exact_mod_cast htotal
  have hn' : (0 : ℚ) < n := by exact_mod_cast hn
  have hdividend : total * (1 - 1 / 2 ^ 24) ≤ toFloat total := le_roundBits htotal'
  have hpos : 0 < toFloat total / n := div_pos (roundBits_pos (by decide) htotal') hn'
  have hquot : toFloat total / n * (1 - 1 / 2 ^ 24) ≤ divFloat (toFloat total) n :=
    le_roundBits hpos
  have hunit : (0 : ℚ) ≤ 1 - 1 / 2 ^ 24 := by norm_num
  rw [toFloat_of_le hn hle]
  calc (total : ℚ) * (1 - 1 / 2 ^ 24) ^ 2
      = total * (1 - 1 / 2 ^ 24) * (1 - 1 / 2 ^ 24) := by ring
    _ ≤ toFloat total * (1 - 1 / 2 ^ 24) := by gcongr
    _ = n * (toFloat total / n * (1 - 1 / 2 ^ 24)) := by
        rw [← mul_assoc, mul_div_cancel₀ _ hn'.ne']
    _ ≤ n * divFloat (toFloat total) n := by gcongr

theorem divFloat_toFloat_pos (htotal : 0 < total) (hn : 0 < n) :
    0 < divFloat (toFloat total) (toFloat n) := by
  have htotal' : (0 : ℚ) < total := by exact_mod_cast htotal
  have hn' : (0 : ℚ) < n := by exact_mod_cast hn
  have hquot := div_pos (roundBits_pos (p := 24) (by decide) htotal')
    (roundBits_pos (p := 24) (by decide) hn')
  exact roundBits_pos (by decide) hquot

/-- A buffer of the computed size for each group overruns the limit by the rounding up and by at
most 512 bytes. -/
theorem mul_ceil_divFloat_le (htotal : 0 < total) (hlt : total < 2 ^ 32) (hn : 0 < n)
    (hle : n ≤ 2 ^ 24) :
    n * ⌈divFloat (toFloat total) (toFloat n)⌉₊ ≤ total + n + 512 := by
  have hlt' : (total : ℚ) < 2 ^ 32 := by exact_mod_cast hlt
  have hn' : (0 : ℚ) < n := by exact_mod_cast hn
  have hbound := divFloat_toFloat_le htotal hn hle
  set x := divFloat (toFloat total) (toFloat n) with hx
  have hpos : 0 < x := divFloat_toFloat_pos htotal hn
  have hceil := Nat.ceil_lt_add_one hpos.le
  have hsum : ((n * ⌈x⌉₊ : ℕ) : ℚ) < (total + n + 512 + 1 : ℕ) := by
    push_cast
    calc (n : ℚ) * ⌈x⌉₊ < n * (x + 1) := mul_lt_mul_of_pos_left hceil hn'
      _ = n * x + n := by ring
      _ ≤ total * (1 + 1 / 2 ^ 24) ^ 2 + n := by gcongr
      _ < total + n + 512 + 1 := by
        have hsquare : ((1 : ℚ) + 1 / 2 ^ 24) ^ 2 = 1 + (2 / 2 ^ 24 + 1 / 2 ^ 48) := by norm_num
        rw [hsquare, mul_add, mul_one]
        have hsmall : (total : ℚ) * (2 / 2 ^ 24 + 1 / 2 ^ 48) <
            2 ^ 32 * (2 / 2 ^ 24 + 1 / 2 ^ 48) := by gcongr
        norm_num at hsmall ⊢
        linarith
  exact Nat.lt_add_one_iff.mp (by exact_mod_cast hsum)

/-- A buffer of the computed size for each group misses the limit by less than 512 bytes. -/
theorem lt_mul_ceil_divFloat (htotal : 0 < total) (hlt : total < 2 ^ 32) (hn : 0 < n)
    (hle : n ≤ 2 ^ 24) :
    total < n * ⌈divFloat (toFloat total) (toFloat n)⌉₊ + 512 := by
  have hlt' : (total : ℚ) < 2 ^ 32 := by exact_mod_cast hlt
  have hbound := le_divFloat_toFloat htotal hn hle
  have hceil := Nat.le_ceil (divFloat (toFloat total) (toFloat n))
  have hsum : (total : ℚ) < (n * ⌈divFloat (toFloat total) (toFloat n)⌉₊ + 512 : ℕ) := by
    push_cast
    calc (total : ℚ) = total * (1 - 1 / 2 ^ 24) ^ 2 + total * (2 / 2 ^ 24 - 1 / 2 ^ 48) := by ring
      _ < n * divFloat (toFloat total) (toFloat n) + 512 := by
        have hsmall : (total : ℚ) * (2 / 2 ^ 24 - 1 / 2 ^ 48) <
            2 ^ 32 * (2 / 2 ^ 24 - 1 / 2 ^ 48) := by
          apply mul_lt_mul_of_pos_right hlt'
          norm_num
        norm_num at hsmall hbound ⊢
        linarith
      _ ≤ n * ⌈divFloat (toFloat total) (toFloat n)⌉₊ + 512 := by gcongr
  exact_mod_cast hsum

/-- From 2 ^ 31 on the floats are 256 apart. -/
theorem toFloat_eq (hlow : 2 ^ 31 ≤ total) (hlt : total < 2 ^ 32) :
    toFloat total = roundHalfEven (total / 256) * 256 := by
  have hlog : Nat.log 2 total = 31 := by
    apply Nat.log_eq_of_pow_le_of_lt_pow hlow
    exact hlt
  have hulp : ulp 24 total = 256 := by
    rw [ulp, Int.log_natCast, hlog]
    norm_num
  rw [toFloat, roundBits, hulp]

theorem toFloat_lt_iff (hlow : 2 ^ 31 ≤ total) (hlt : total < 2 ^ 32) :
    toFloat total ≤ 2 ^ 32 - 1 ↔ total < 2 ^ 32 - 128 := by
  have hnearest := abs_le.mp (abs_roundHalfEven_sub ((total : ℚ) / 256))
  rw [toFloat_eq hlow hlt]
  constructor
  · intro hle
    by_contra hge
    rcases (not_lt.mp hge).lt_or_eq with hmore | heq
    · have hmore' : (4294967169 : ℚ) ≤ total := by exact_mod_cast hmore
      have hround : ((2 ^ 24 - 1 : ℤ) : ℚ) < roundHalfEven ((total : ℚ) / 256) := by
        push_cast
        linarith
      have hround' : (2 ^ 24 : ℤ) ≤ roundHalfEven ((total : ℚ) / 256) := by
        have := Int.cast_lt.mp hround
        omega
      have hround'' : (2 ^ 24 : ℚ) ≤ roundHalfEven ((total : ℚ) / 256) := by exact_mod_cast hround'
      linarith
    · -- halfway between two floats, of which the upper one is even
      have hhalf : (total : ℚ) / 256 = ((2 ^ 24 - 1 : ℤ) : ℚ) + 1 / 2 := by
        rw [← heq]
        norm_num
      rw [hhalf, roundHalfEven_add_half (by norm_num)] at hle
      norm_num at hle
  · intro hless
    have hless' : (total : ℚ) < 4294967168 := by exact_mod_cast hless
    have hround : (roundHalfEven ((total : ℚ) / 256) : ℚ) < ((2 ^ 24 : ℤ) : ℚ) := by
      push_cast
      linarith
    have hround' : roundHalfEven ((total : ℚ) / 256) ≤ 2 ^ 24 - 1 := by
      have := Int.cast_lt.mp hround
      omega
    have hround'' : (roundHalfEven ((total : ℚ) / 256) : ℚ) ≤ 2 ^ 24 - 1 := by
      exact_mod_cast hround'
    linarith

/-- The size is out of range for a single buffer and the largest limits only. -/
theorem ceilUnsigned_eq_none_iff (htotal : 0 < total) (hlt : total < 2 ^ 32) (hn : 0 < n)
    (hle : n ≤ 2 ^ 24) :
    ceilUnsigned (divFloat (toFloat total) (toFloat n)) = none ↔ n = 1 ∧ 2 ^ 32 - 128 ≤ total := by
  have hover := mul_ceil_divFloat_le htotal hlt hn hle
  have hnone : ceilUnsigned (divFloat (toFloat total) (toFloat n)) = none ↔
      2 ^ 32 ≤ ⌈divFloat (toFloat total) (toFloat n)⌉₊ := by
    unfold ceilUnsigned
    split_ifs with h
    · simpa using h
    · simpa using h
  rw [hnone]
  by_cases hlarge : n = 1 ∧ 2 ^ 31 ≤ total
  · obtain ⟨rfl, hlow⟩ := hlarge
    have hone : toFloat 1 = 1 := by simpa using toFloat_of_le one_pos (by decide)
    have htotal' : (0 : ℚ) < total := by exact_mod_cast htotal
    have hkept : divFloat (toFloat total) (toFloat 1) = toFloat total := by
      rw [hone, divFloat, div_one]
      exact roundBits_roundBits (by decide) htotal'
    rw [hkept]
    have hceil : 2 ^ 32 ≤ ⌈toFloat total⌉₊ ↔ ¬ toFloat total ≤ 2 ^ 32 - 1 := by
      rw [← not_lt, not_iff_not, Nat.lt_iff_le_pred (by norm_num), Nat.ceil_le]
      norm_num
    rw [hceil, toFloat_lt_iff hlow hlt]
    simp
  · constructor
    · intro hge
      exfalso
      have hmul := Nat.mul_le_mul_left n hge
      rcases Nat.lt_or_ge n 2 with hone | htwo
      · obtain rfl : n = 1 := by omega
        apply hlarge
        omega
      · omega
    · intro h
      exact absurd ⟨h.1, by omega⟩ hlarge

end Quotient

theorem toNat_pos_of_ne_zero {x : BitVec 32} (h : x ≠ 0) : 0 < x.toNat :=
  Nat.pos_of_ne_zero fun hzero => h (BitVec.eq_of_toNat_eq hzero)

theorem limit_bounds {maximum : ℕ} (hpos : maximum ≠ 0) (hlt : maximum < 2 ^ 32) :
    max 14 (Nat.log 2 maximum) < 32 ∧ maximum < 2 * 2 ^ max 14 (Nat.log 2 maximum) ∧
      (2 ^ 14 < 2 ^ max 14 (Nat.log 2 maximum) →
        2 ^ max 14 (Nat.log 2 maximum) ≤ maximum) := by
  have hlog : Nat.log 2 maximum < 32 := Nat.log_lt_of_lt_pow hpos hlt
  refine ⟨by omega, ?_, fun hmore => ?_⟩
  · have hsucc : maximum < 2 ^ (Nat.log 2 maximum + 1) := Nat.lt_pow_succ_log_self one_lt_two _
    have hmono : 2 ^ Nat.log 2 maximum ≤ 2 ^ max 14 (Nat.log 2 maximum) :=
      Nat.pow_le_pow_right two_pos (le_max_right _ _)
    rw [pow_succ] at hsucc
    omega
  · have hexp : 14 < max 14 (Nat.log 2 maximum) := (Nat.pow_lt_pow_iff_right one_lt_two).mp hmore
    have hmax : max 14 (Nat.log 2 maximum) = Nat.log 2 maximum := by omega
    rw [hmax]
    exact Nat.pow_log_le_self 2 hpos

theorem ceilUnsigned_buffers {c : SinspBufferConfig} (hper : c.sinspCpuPerBuffer ≠ 0)
    (hcpus : c.numPossibleCPUs ≠ 0) (hfew : c.numPossibleCPUs.toNat < 2 ^ 24) :
    0 < c.buffers ∧ c.buffers ≤ 2 ^ 24 ∧
      ceilUnsigned (divFloat (toFloat c.numPossibleCPUs.toNat)
        (toFloat c.sinspCpuPerBuffer.toNat)) = some c.buffers := by
  have hper' : 0 < c.sinspCpuPerBuffer.toNat := toNat_pos_of_ne_zero hper
  have hcpus' : 0 < c.numPossibleCPUs.toNat := toNat_pos_of_ne_zero hcpus
  have hcount : ⌈divFloat (toFloat c.numPossibleCPUs.toNat)
      (toFloat c.sinspCpuPerBuffer.toNat)⌉₊ = c.buffers := by
    rw [toFloat_of_le hcpus' hfew.le]
    exact ceil_roundBits_div_roundBits (by decide) hcpus' hfew hper'
  have hpos : 0 < c.buffers := by
    apply Nat.ceil_pos.mpr
    positivity
  have hle : c.buffers ≤ c.numPossibleCPUs.toNat := by
    apply Nat.ceil_le.mpr
    apply div_le_self (by positivity)
    exact_mod_cast hper'
  refine ⟨hpos, by omega, ?_⟩
  rw [ceilUnsigned, hcount, if_pos (by omega)]

/-- For every configuration of a host with fewer than 2 ^ 24 CPUs: the size is undefined for a
single buffer under a limit of almost 4 GiB only. Else it is the configured size or a smaller
power of two, no less than four pages; with the smaller one, twice the buffers would not fit; and
unless it is the least size, the buffers overrun the limit by at most 512 bytes and one more
for each. -/
theorem getSinspBufferSize_bounds (c : SinspBufferConfig) (htotal : c.sinspTotalBufferSize ≠ 0)
    (hper : c.sinspCpuPerBuffer ≠ 0) (hcpus : c.numPossibleCPUs ≠ 0)
    (hfew : c.numPossibleCPUs.toNat < 2 ^ 24) :
    (getSinspBufferSize c = none ↔
      c.buffers = 1 ∧ 2 ^ 32 - 128 ≤ c.sinspTotalBufferSize.toNat) ∧
    ∀ size ∈ getSinspBufferSize c,
      size ≤ c.sinspBufferSize.toNat ∧
      (size < c.sinspBufferSize.toNat → (∃ e, 14 ≤ e ∧ e < 32 ∧ size = 2 ^ e) ∧
        c.sinspTotalBufferSize.toNat < c.buffers * (2 * size) + 512) ∧
      (2 ^ 14 < size →
        c.buffers * size ≤ c.sinspTotalBufferSize.toNat + c.buffers + 512) := by
  have htotal' : 0 < c.sinspTotalBufferSize.toNat := toNat_pos_of_ne_zero htotal
  have hlt : c.sinspTotalBufferSize.toNat < 2 ^ 32 := c.sinspTotalBufferSize.isLt
  obtain ⟨hpos, hle, hbuffers⟩ := ceilUnsigned_buffers hper hcpus hfew
  have hnone := ceilUnsigned_eq_none_iff htotal' hlt hpos hle
  have hover := mul_ceil_divFloat_le htotal' hlt hpos hle
  have hunder := lt_mul_ceil_divFloat htotal' hlt hpos hle
  have hmaximum := Nat.ceil_pos.mpr (divFloat_toFloat_pos htotal' hpos)
  unfold getSinspBufferSize
  rw [if_neg htotal, if_neg hper, if_neg hcpus, hbuffers, ← hnone]
  dsimp only [bind, Option.bind_some]
  unfold ceilUnsigned
  generalize ⌈divFloat (toFloat c.sinspTotalBufferSize.toNat) (toFloat c.buffers)⌉₊ = maximum
    at hover hunder hmaximum ⊢
  split_ifs with hdefined
  · obtain ⟨hexp, htwice, hleast⟩ := limit_bounds hmaximum.ne' hdefined
    have hpages : 14 ≤ max 14 (Nat.log 2 maximum) := le_max_left _ _
    dsimp only [Option.bind_some]
    generalize max 14 (Nat.log 2 maximum) = e at hexp hpages htwice hleast ⊢
    refine ⟨by simp, fun size hsize => ?_⟩
    obtain rfl : min c.sinspBufferSize.toNat (2 ^ e) = size := by simpa using hsize
    refine ⟨min_le_left _ _, fun hless => ?_, fun hmore => ?_⟩
    · have hlimited : min c.sinspBufferSize.toNat (2 ^ e) = 2 ^ e := by omega
      have hmul : c.buffers * maximum ≤ c.buffers * (2 * 2 ^ e) :=
        Nat.mul_le_mul_left _ htwice.le
      rw [hlimited]
      exact ⟨⟨e, hpages, hexp, rfl⟩, by omega⟩
    · have hpower : 2 ^ e ≤ maximum := hleast (hmore.trans_le (min_le_right _ _))
      have hmul : c.buffers * min c.sinspBufferSize.toNat (2 ^ e) ≤ c.buffers * maximum :=
        Nat.mul_le_mul_left _ ((min_le_right _ _).trans hpower)
      omega
  · simp

-- the limit is rounded up to a float, and the buffer with it
example : getSinspBufferSize ⟨2 ^ 31, 2 ^ 29 - 1, 1, 1⟩ = some (2 ^ 29) := by decide +kernel

/-- A host with 150 CPUs, a buffer of 8 MiB for each, and a limit of 512 MiB. -/
def manyCpus : SinspBufferConfig := ⟨8 * 1024 * 1024, 512 * 1024 * 1024, 1, 150⟩

theorem getSinspBufferSize_bounds_manyCpus :
    getSinspBufferSize manyCpus = some (2 * 1024 * 1024) ∧
      512 * 1024 * 1024 < manyCpus.buffers * (2 * (2 * 1024 * 1024)) + 512 ∧
      manyCpus.buffers * (2 * 1024 * 1024) ≤ 512 * 1024 * 1024 + manyCpus.buffers + 512 := by
  have hsize : getSinspBufferSize manyCpus = some (2 * 1024 * 1024) := by decide +kernel
  have hbounds := getSinspBufferSize_bounds manyCpus (by decide) (by decide) (by decide) (by decide)
  obtain ⟨-, hless, hmore⟩ := hbounds.2 _ hsize
  exact ⟨hsize, (hless (by decide)).2, hmore (by decide)⟩

end AcsNext.Collector
