import Mathlib.Algebra.Order.Round
import Mathlib.Data.Int.Log
import Mathlib.Data.Rat.Floor
import Mathlib.Tactic.FieldSimp
import Mathlib.Tactic.Linarith
import Mathlib.Tactic.LinearCombination
import Mathlib.Tactic.Positivity
import Mathlib.Tactic.Ring

/-! Positive rationals rounded to a number of significant bits: to the nearest, with ties to the
even one, and with exponents that are not bounded. -/
namespace AcsNext.Data

/-- The nearest integer; halfway between two, the even one. -/
def roundHalfEven (x : ℚ) : ℤ :=
  if Int.fract x = 1 / 2 ∧ ⌊x⌋ % 2 = 0 then ⌊x⌋ else round x

theorem abs_roundHalfEven_sub (x : ℚ) : |(roundHalfEven x : ℚ) - x| ≤ 1 / 2 := by
  unfold roundHalfEven
  split_ifs with htie
  · have hfract := Int.self_sub_floor x
    rw [htie.1] at hfract
    rw [abs_sub_comm, hfract]
    norm_num
  · rw [abs_sub_comm]
    exact abs_sub_round x

@[simp] theorem roundHalfEven_intCast (k : ℤ) : roundHalfEven (k : ℚ) = k := by
  simp [roundHalfEven]

theorem roundHalfEven_add_half {k : ℤ} (hk : k % 2 = 1) :
    roundHalfEven ((k : ℚ) + 1 / 2) = k + 1 := by
  have hfloor : ⌊(k : ℚ) + 1 / 2⌋ = k := by
    apply Int.floor_eq_iff.mpr
    constructor <;> linarith
  have hround : round ((k : ℚ) + 1 / 2) = k + 1 := by
    rw [round_eq]
    apply Int.floor_eq_iff.mpr
    push_cast
    constructor <;> linarith
  rw [roundHalfEven, hfloor, hround, if_neg]
  omega

section Bits

variable (p : ℕ)

/-- The distance of neighbours with `p` significant bits from the power of two below `x` on. -/
def ulp (x : ℚ) : ℚ := 2 ^ (Int.log 2 x + 1 - p)

def roundBits (x : ℚ) : ℚ := roundHalfEven (x / ulp p x) * ulp p x

variable {p} {x : ℚ}

theorem ulp_pos (p : ℕ) (x : ℚ) : 0 < ulp p x := by
  exact zpow_pos two_pos _

theorem two_pow_mul_ulp (p : ℕ) (x : ℚ) : 2 ^ p * ulp p x = 2 ^ (Int.log 2 x + 1) := by
  unfold ulp
  rw [← zpow_natCast, ← zpow_add₀ two_ne_zero]
  congr 1
  ring

/-- The bits of the quotient by the distance are those before the point. -/
theorem div_ulp_bounds (hx : 0 < x) : 2 ^ p ≤ 2 * (x / ulp p x) ∧ x / ulp p x < 2 ^ p := by
  have hpos := ulp_pos p x
  have hlow : (2 : ℚ) ^ Int.log 2 x ≤ x := Int.zpow_log_le_self one_lt_two hx
  have hhigh : x < (2 : ℚ) ^ (Int.log 2 x + 1) := Int.lt_zpow_succ_log_self one_lt_two x
  have hscale := two_pow_mul_ulp p x
  have hdouble : (2 : ℚ) ^ (Int.log 2 x + 1) = 2 * 2 ^ Int.log 2 x := by
    rw [zpow_add_one₀ two_ne_zero, mul_comm]
  constructor
  · rw [← mul_div_assoc, le_div_iff₀ hpos, hscale, hdouble]
    linarith
  · rw [div_lt_iff₀ hpos, hscale]
    exact hhigh

/-- The relative error is half a unit in the last place. -/
theorem abs_roundBits_sub (hx : 0 < x) : |roundBits p x - x| ≤ x / 2 ^ p := by
  have hpos := ulp_pos p x
  have hnearest := abs_roundHalfEven_sub (x / ulp p x)
  have hbits := (div_ulp_bounds (p := p) hx).1
  have hfactor : roundBits p x - x = (roundHalfEven (x / ulp p x) - x / ulp p x) * ulp p x := by
    rw [roundBits, sub_mul, div_mul_cancel₀ x hpos.ne']
  calc |roundBits p x - x|
      = |(roundHalfEven (x / ulp p x) : ℚ) - x / ulp p x| * ulp p x := by
        rw [hfactor, abs_mul, abs_of_pos hpos]
    _ ≤ 1 / 2 * ulp p x := by gcongr
    _ ≤ x / 2 ^ p := by
        rw [le_div_iff₀ (by positivity)]
        have hx' : 2 * (x / ulp p x) * ulp p x = 2 * x := by
          rw [mul_assoc, div_mul_cancel₀ x hpos.ne']
        have hle := mul_le_mul_of_nonneg_right hbits hpos.le
        linarith

theorem roundBits_le (hx : 0 < x) : roundBits p x ≤ x * (1 + 1 / 2 ^ p) := by
  have herror := (abs_le.mp (abs_roundBits_sub (p := p) hx)).2
  have hsum : x * (1 + 1 / 2 ^ p) = x + x / 2 ^ p := by ring
  linarith

theorem le_roundBits (hx : 0 < x) : x * (1 - 1 / 2 ^ p) ≤ roundBits p x := by
  have herror := (abs_le.mp (abs_roundBits_sub (p := p) hx)).1
  have hsum : x * (1 - 1 / 2 ^ p) = x - x / 2 ^ p := by ring
  linarith

theorem roundBits_pos (hp : 0 < p) (hx : 0 < x) : 0 < roundBits p x := by
  have hlow := le_roundBits (p := p) hx
  have htwo : (2 : ℚ) ≤ 2 ^ p := le_self_pow₀ one_le_two hp.ne'
  have hhalf : (1 : ℚ) / 2 ^ p ≤ 1 / 2 := one_div_le_one_div_of_le two_pos htwo
  have hscaled : x * (1 / 2) ≤ x * (1 - 1 / 2 ^ p) := by
    apply mul_le_mul_of_nonneg_left _ hx.le
    linarith
  linarith

/-- An integer quotient by the distance is kept. -/
theorem roundBits_of_div_eq {k : ℤ} (h : x / ulp p x = k) : roundBits p x = x := by
  rw [roundBits, h, roundHalfEven_intCast, ← h, div_mul_cancel₀ x (ulp_pos p x).ne']

theorem log_natCast_mul_zpow {m : ℕ} (hm : 0 < m) (j : ℤ) :
    Int.log 2 ((m : ℚ) * 2 ^ j) = Nat.log 2 m + j := by
  have hpow : (0 : ℚ) < 2 ^ j := zpow_pos two_pos j
  have hpos : (0 : ℚ) < m * 2 ^ j := by positivity
  have hlow : (2 : ℚ) ^ Nat.log 2 m ≤ m := by exact_mod_cast Nat.pow_log_le_self 2 hm.ne'
  have hhigh : (m : ℚ) < 2 ^ (Nat.log 2 m + 1) := by
    exact_mod_cast Nat.lt_pow_succ_log_self one_lt_two m
  apply le_antisymm
  · apply Int.lt_add_one_iff.mp
    apply (Int.lt_zpow_iff_log_lt one_lt_two hpos).mp
    have hsplit : ((2 : ℕ) : ℚ) ^ ((Nat.log 2 m : ℤ) + j + 1) = 2 ^ (Nat.log 2 m + 1) * 2 ^ j := by
      rw [Nat.cast_ofNat, ← zpow_natCast, ← zpow_add₀ two_ne_zero]
      congr 1
      push_cast
      ring
    rw [hsplit]
    exact mul_lt_mul_of_pos_right hhigh hpow
  · apply (Int.zpow_le_iff_le_log one_lt_two hpos).mp
    rw [Nat.cast_ofNat, zpow_add₀ two_ne_zero, zpow_natCast]
    exact mul_le_mul_of_nonneg_right hlow hpow.le

theorem roundBits_of_lt {m : ℕ} (hm : 0 < m) (hlt : m < 2 ^ p) (j : ℤ) :
    roundBits p (m * 2 ^ j) = m * 2 ^ j := by
  have hlog : Nat.log 2 m < p := Nat.log_lt_of_lt_pow hm.ne' hlt
  have hquot : ((m : ℚ) * 2 ^ j) / ulp p (m * 2 ^ j) =
      ((m * 2 ^ (p - 1 - Nat.log 2 m) : ℕ) : ℤ) := by
    rw [div_eq_iff (ulp_pos _ _).ne', ulp, log_natCast_mul_zpow hm, Int.cast_natCast]
    push_cast
    rw [mul_assoc, ← zpow_natCast, ← zpow_add₀ two_ne_zero]
    congr 2
    omega
  exact roundBits_of_div_eq hquot

theorem roundBits_of_le (hp : 0 < p) {m : ℕ} (hm : 0 < m) (hle : m ≤ 2 ^ p) (j : ℤ) :
    roundBits p (m * 2 ^ j) = m * 2 ^ j := by
  rcases hle.lt_or_eq with hlt | rfl
  · exact roundBits_of_lt hm hlt j
  · -- the power of two has one significant bit
    have hone := roundBits_of_lt one_pos (Nat.one_lt_two_pow hp.ne') (p + j)
    have hsplit : ((1 : ℕ) : ℚ) * 2 ^ ((p : ℤ) + j) = (2 ^ p : ℕ) * 2 ^ j := by
      rw [zpow_add₀ two_ne_zero, zpow_natCast]
      push_cast
      ring
    rwa [hsplit] at hone

theorem roundBits_natCast (hp : 0 < p) {m : ℕ} (hm : 0 < m) (hle : m ≤ 2 ^ p) :
    roundBits p m = m := by
  simpa using roundBits_of_le hp hm hle 0

theorem roundBits_roundBits (hp : 0 < p) (hx : 0 < x) :
    roundBits p (roundBits p x) = roundBits p x := by
  obtain ⟨hlow, hhigh⟩ := div_ulp_bounds (p := p) hx
  have hnearest := abs_le.mp (abs_roundHalfEven_sub (x / ulp p x))
  have hpos : 0 < roundHalfEven (x / ulp p x) := by
    have hround := roundBits_pos hp hx
    rw [roundBits] at hround
    exact_mod_cast pos_of_mul_pos_left hround (ulp_pos p x).le
  have hle : roundHalfEven (x / ulp p x) ≤ 2 ^ p := by
    have hlt : (roundHalfEven (x / ulp p x) : ℚ) < ((2 ^ p + 1 : ℤ) : ℚ) := by
      push_cast
      linarith
    exact Int.lt_add_one_iff.mp (by exact_mod_cast hlt)
  obtain ⟨m, hm⟩ := Int.eq_ofNat_of_zero_le hpos.le
  have hexact := roundBits_of_le hp (m := m) (by omega) (by exact_mod_cast hm ▸ hle)
    (Int.log 2 x + 1 - p)
  have hround : roundBits p x = m * 2 ^ (Int.log 2 x + 1 - p) := by
    rw [roundBits, hm]
    rfl
  rw [hround, hexact]

/-- The error of the quotient is less than its distance from an integer that it is not. -/
theorem abs_roundBits_div_sub {a b : ℕ} (ha : 0 < a) (hlt : a < 2 ^ p) (hb : 0 < b) :
    |roundBits p ((a : ℚ) / b) - a / b| < 1 / b := by
  have ha' : (0 : ℚ) < a := by exact_mod_cast ha
  have hb' : (0 : ℚ) < b := by exact_mod_cast hb
  have hlt' : (a : ℚ) < 2 ^ p := by exact_mod_cast hlt
  have hpow : (0 : ℚ) < 2 ^ p := by positivity
  apply (abs_roundBits_sub (div_pos ha' hb')).trans_lt
  rw [div_div, div_lt_div_iff₀ (by positivity) hb', one_mul, mul_comm (b : ℚ)]
  exact mul_lt_mul_of_pos_right hlt' hb'

theorem ceil_roundBits_div (hp : 0 < p) {a b : ℕ} (ha : 0 < a) (hlt : a < 2 ^ p) (hb : 0 < b) :
    ⌈roundBits p ((a : ℚ) / b)⌉₊ = ⌈(a : ℚ) / b⌉₊ := by
  have ha' : (0 : ℚ) < a := by exact_mod_cast ha
  have hb' : (0 : ℚ) < b := by exact_mod_cast hb
  obtain ⟨k, hk⟩ : ∃ k, ⌈(a : ℚ) / b⌉₊ = k + 1 :=
    Nat.exists_eq_add_one.mpr (Nat.ceil_pos.mpr (div_pos ha' hb'))
  have hbounds := (Nat.ceil_eq_iff (Nat.add_one_ne_zero k)).mp hk
  rw [Nat.add_sub_cancel, lt_div_iff₀ hb', div_le_iff₀ hb'] at hbounds
  have hlow : k * b < a := by exact_mod_cast hbounds.1
  have hhigh : a ≤ (k + 1) * b := by exact_mod_cast hbounds.2
  have herror := abs_lt.mp (abs_roundBits_div_sub ha hlt hb)
  rw [hk]
  apply (Nat.ceil_eq_iff (Nat.add_one_ne_zero k)).mpr
  rw [Nat.add_sub_cancel]
  constructor
  · have hgap : (k : ℚ) + 1 / b ≤ a / b := by
      have hsucc : ((k * b + 1 : ℕ) : ℚ) ≤ a := by exact_mod_cast hlow
      rw [le_div_iff₀ hb', add_mul, one_div_mul_cancel hb'.ne']
      exact_mod_cast hsucc
    linarith [herror.1]
  · rcases hhigh.lt_or_eq with hless | heq
    · have hgap : (a : ℚ) / b + 1 / b ≤ (k + 1 : ℕ) := by
        have hsucc : ((a + 1 : ℕ) : ℚ) ≤ ((k + 1) * b : ℕ) := by exact_mod_cast hless
        rw [← add_div, div_le_iff₀ hb']
        exact_mod_cast hsucc
      linarith [herror.2]
    · -- the quotient is an integer, and rounding keeps it
      have hquot : (a : ℚ) / b = (k + 1 : ℕ) := by
        rw [heq]
        push_cast
        exact mul_div_cancel_right₀ _ hb'.ne'
      have hle : k + 1 ≤ 2 ^ p := by
        have hmul : (k + 1) * 1 ≤ (k + 1) * b := Nat.mul_le_mul_left _ hb
        omega
      rw [hquot, roundBits_natCast hp (Nat.succ_pos k) hle]

/-- The integer quotient, rounded up, of a dividend with at most `p` bits: neither the rounding
of the divisor nor that of the quotient is seen. -/
theorem ceil_roundBits_div_roundBits (hp : 0 < p) {a b : ℕ} (ha : 0 < a) (hlt : a < 2 ^ p)
    (hb : 0 < b) : ⌈roundBits p ((a : ℚ) / roundBits p b)⌉₊ = ⌈(a : ℚ) / b⌉₊ := by
  rcases le_or_gt b (2 ^ p) with hsmall | hlarge
  · rw [roundBits_natCast hp hb hsmall]
    exact ceil_roundBits_div hp ha hlt hb
  · have ha' : (0 : ℚ) < a := by exact_mod_cast ha
    have hb' : (0 : ℚ) < b := by exact_mod_cast hb
    have hpow : (1 : ℚ) < 2 ^ p := one_lt_pow₀ one_lt_two hp.ne'
    have ha'' : (a : ℚ) ≤ 2 ^ p - 1 := by
      have hsucc : ((a + 1 : ℕ) : ℚ) ≤ (2 ^ p : ℕ) := by exact_mod_cast hlt
      push_cast at hsucc
      linarith
    have hb'' : (2 : ℚ) ^ p + 1 ≤ b := by exact_mod_cast hlarge
    have hdivisor : (0 : ℚ) < roundBits p b := roundBits_pos hp hb'
    have hquot := div_pos ha' hdivisor
    -- both roundings together stay below one
    have hone : (a : ℚ) * (1 + 1 / 2 ^ p) ≤ roundBits p b := by
      have hunit : (0 : ℚ) < 1 / 2 ^ p := by positivity
      have hcancel : (2 : ℚ) ^ p * (1 / 2 ^ p) = 1 := mul_one_div_cancel (by positivity)
      have hlow := le_roundBits (p := p) hb'
      have hless : (1 : ℚ) / 2 ^ p ≤ 1 := by
        rw [div_le_one (by positivity)]
        exact hpow.le
      calc (a : ℚ) * (1 + 1 / 2 ^ p)
          ≤ (2 ^ p - 1) * (1 + 1 / 2 ^ p) := by gcongr
        _ = (2 ^ p + 1) * (1 - 1 / 2 ^ p) := by linear_combination 2 * hcancel
        _ ≤ b * (1 - 1 / 2 ^ p) := by
            apply mul_le_mul_of_nonneg_right hb''
            linarith
        _ ≤ roundBits p b := hlow
    have hleft : ⌈roundBits p ((a : ℚ) / roundBits p b)⌉₊ = 1 := by
      apply (Nat.ceil_eq_iff one_ne_zero).mpr
      refine ⟨by simpa using roundBits_pos hp hquot, ?_⟩
      apply (roundBits_le hquot).trans
      rw [div_mul_eq_mul_div, div_le_iff₀ hdivisor]
      simpa using hone
    have hright : ⌈(a : ℚ) / b⌉₊ = 1 := by
      apply (Nat.ceil_eq_iff one_ne_zero).mpr
      refine ⟨by simpa using div_pos ha' hb', ?_⟩
      rw [div_le_iff₀ hb']
      push_cast
      linarith
    rw [hleft, hright]

end Bits

end AcsNext.Data
