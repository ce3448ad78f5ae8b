import Mathlib.Tactic

/-! Connection status words: a 63-bit microsecond timestamp packed with an activity flag. -/
namespace AcsNext.Collector

def kActiveFlag : BitVec 64 := 1#64 <<< 63

def makeActive (data : BitVec 64) (active : Bool) : BitVec 64 :=
  if active then data ||| kActiveFlag else data &&& ~~~kActiveFlag

structure ConnStatus where
  data : BitVec 64
deriving DecidableEq, Repr

namespace ConnStatus

/-- The public constructor; the timestamp is cast to the unsigned word. -/
def ofTime (microtimestamp : ℤ) (active : Bool) : ConnStatus :=
  ⟨makeActive (BitVec.ofInt 64 microtimestamp) active⟩

def lastActiveTime (s : ConnStatus) : ℤ := (s.data &&& ~~~kActiveFlag).toInt

def isActive (s : ConnStatus) : Bool := (s.data &&& kActiveFlag) != 0#64

def setActive (s : ConnStatus) (active : Bool) : ConnStatus := ⟨makeActive s.data active⟩

def mergeFrom (s other : ConnStatus) : ConnStatus :=
  ⟨if s.data < other.data then other.data else s.data⟩

/-- The source subtracts two `int64_t`; `afterglow_difference_fits` shows that no
reading of a clock after the epoch makes the subtraction overflow. -/
def isInAfterglowPeriod (s : ConnStatus) (timeMicros afterglowPeriodMicros : ℤ) : Bool :=
  decide (timeMicros - s.lastActiveTime < afterglowPeriodMicros)

def wasRecentlyActive (s : ConnStatus) (timeMicros afterglowPeriodMicros : ℤ) : Bool :=
  s.isActive || s.isInAfterglowPeriod timeMicros afterglowPeriodMicros

private theorem kActiveFlag_eq : kActiveFlag = BitVec.twoPow 64 63 := by decide

private theorem and_not_kActiveFlag (x : BitVec 64) :
    x &&& ~~~kActiveFlag = (x.setWidth 63).setWidth 64 := by
  apply BitVec.eq_of_getLsbD_eq
  intro i hi
  simp only [kActiveFlag_eq, BitVec.getLsbD_and, BitVec.getLsbD_not, BitVec.getLsbD_twoPow,
    BitVec.getLsbD_setWidth]
  by_cases h : i < 63
  · have hne : ¬ 63 = i := by omega
    simp [hi, h, hne]
  · have he : 63 = i := by omega
    simp [he]

theorem isActive_eq (s : ConnStatus) : s.isActive = s.data.getLsbD 63 := by
  rw [isActive, kActiveFlag_eq, BitVec.and_twoPow]
  cases h : s.data.getLsbD 63 <;> simp

theorem lastActiveTime_eq (s : ConnStatus) :
    s.lastActiveTime = ((s.data.toNat % 2 ^ 63 : ℕ) : ℤ) := by
  rw [lastActiveTime, and_not_kActiveFlag, BitVec.toInt_eq_toNat_of_lt]
  · simp
    omega
  · simp
    omega

theorem lastActiveTime_nonneg (s : ConnStatus) : 0 ≤ s.lastActiveTime := by
  rw [lastActiveTime_eq]
  omega

theorem lastActiveTime_lt (s : ConnStatus) : s.lastActiveTime < 2 ^ 63 := by
  rw [lastActiveTime_eq]
  omega

theorem afterglow_difference_fits (s : ConnStatus) (t : ℤ) (ht : 0 ≤ t) (ht' : t < 2 ^ 63) :
    -(2 ^ 63) ≤ t - s.lastActiveTime ∧ t - s.lastActiveTime < 2 ^ 63 := by
  have h0 := s.lastActiveTime_nonneg
  have h1 := s.lastActiveTime_lt
  constructor <;> omega

@[simp] theorem isActive_setActive (s : ConnStatus) (a : Bool) : (s.setActive a).isActive = a := by
  cases a <;> simp [isActive_eq, setActive, makeActive, kActiveFlag_eq]

@[simp] theorem isActive_ofTime (t : ℤ) (a : Bool) : (ofTime t a).isActive = a :=
  isActive_setActive ⟨BitVec.ofInt 64 t⟩ a

private theorem makeActive_low (x : BitVec 64) (a : Bool) :
    makeActive x a &&& ~~~kActiveFlag = x &&& ~~~kActiveFlag := by
  apply BitVec.eq_of_getLsbD_eq
  intro i hi
  cases a <;> by_cases h : 63 = i <;> simp [makeActive, kActiveFlag_eq, h]

@[simp] theorem lastActiveTime_setActive (s : ConnStatus) (a : Bool) :
    (s.setActive a).lastActiveTime = s.lastActiveTime := by
  simp only [lastActiveTime, setActive, makeActive_low]

theorem lastActiveTime_ofTime (t : ℤ) (a : Bool) (h0 : 0 ≤ t) (h1 : t < 2 ^ 63) :
    (ofTime t a).lastActiveTime = t := by
  change (setActive ⟨BitVec.ofInt 64 t⟩ a).lastActiveTime = t
  rw [lastActiveTime_setActive, lastActiveTime_eq]
  simp only [BitVec.toNat_ofInt]
  omega

theorem eq_iff (s s' : ConnStatus) :
    s = s' ↔ s.lastActiveTime = s'.lastActiveTime ∧ s.isActive = s'.isActive := by
  constructor
  · intro hx
    subst hx
    exact ⟨rfl, rfl⟩
  · intro hx
    obtain ⟨ht, ha⟩ := hx
    obtain ⟨x⟩ := s
    obtain ⟨y⟩ := s'
    simp only [isActive_eq] at ha
    have hlow : x.setWidth 63 = y.setWidth 63 := by
      apply BitVec.eq_of_toNat_eq
      simp only [lastActiveTime_eq] at ht
      rw [BitVec.toNat_setWidth, BitVec.toNat_setWidth]
      exact_mod_cast ht
    congr 1
    apply BitVec.eq_of_getLsbD_eq
    intro i hi
    by_cases h : i < 63
    · simpa [h] using congrArg (fun z => z.getLsbD i) hlow
    · have he : i = 63 := by omega
      subst he
      exact ha

@[simp] theorem setActive_self (s : ConnStatus) : s.setActive s.isActive = s := by
  rw [eq_iff]
  simp

/-- Inactive before active, and then the earlier time first. -/
protected def Le (s s' : ConnStatus) : Prop :=
  (s.isActive = false ∧ s'.isActive = true) ∨
    (s.isActive = s'.isActive ∧ s.lastActiveTime ≤ s'.lastActiveTime)

instance (s s' : ConnStatus) : Decidable (s.Le s') := inferInstanceAs (Decidable (_ ∨ _))

private theorem toNat_data (s : ConnStatus) :
    (s.data.toNat : ℤ) = (if s.isActive then 2 ^ 63 else 0) + s.lastActiveTime := by
  have hlt := s.data.isLt
  rw [isActive_eq, lastActiveTime_eq, BitVec.getLsbD, Nat.testBit_eq_decide_div_mod_eq]
  split_ifs with h
  · have hbit : s.data.toNat / 2 ^ 63 % 2 = 1 := of_decide_eq_true h
    omega
  · have hbit : s.data.toNat / 2 ^ 63 % 2 ≠ 1 := fun hbit => h (decide_eq_true hbit)
    omega

theorem le_iff_data (s s' : ConnStatus) : s.Le s' ↔ s.data ≤ s'.data := by
  have h := s.toNat_data
  have h' := s'.toNat_data
  have h0 := s.lastActiveTime_nonneg
  have h0' := s'.lastActiveTime_nonneg
  have h1 := s.lastActiveTime_lt
  have h1' := s'.lastActiveTime_lt
  unfold ConnStatus.Le
  rw [BitVec.le_def]
  cases ha : s.isActive <;> cases ha' : s'.isActive <;>
    simp only [ha, ha', if_true, if_false, Bool.false_eq_true] at h h' <;> simp <;> omega

theorem le_refl (s : ConnStatus) : s.Le s := Or.inr ⟨rfl, le_rfl⟩

theorem le_trans {s s' s'' : ConnStatus} (h : s.Le s') (h' : s'.Le s'') : s.Le s'' := by
  rw [le_iff_data] at *
  exact BitVec.le_trans h h'

/-- `MergeFrom` keeps the greater of the two. -/
theorem mergeFrom_cases (s other : ConnStatus) :
    (s.mergeFrom other = s ∧ other.Le s) ∨ (s.mergeFrom other = other ∧ s.Le other) := by
  unfold mergeFrom
  split_ifs with h
  · exact Or.inr ⟨rfl, (le_iff_data _ _).mpr (BitVec.le_of_lt h)⟩
  · exact Or.inl ⟨rfl, (le_iff_data _ _).mpr (BitVec.not_lt.mp h)⟩

end ConnStatus

end AcsNext.Collector
