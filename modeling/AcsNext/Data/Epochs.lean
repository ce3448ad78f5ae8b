import AcsNext.Data.Runs

/-! Limiters that count in epochs: an epoch starts with a request and lasts a period, a request
after it starts the next one, and at most a fixed number of requests is admitted in each. -/
namespace AcsNext.Data

/-- The current epoch: its start, and how many requests were admitted in it. -/
structure EpochCount where
  start : ℤ
  admitted : ℕ
deriving DecidableEq, Repr

section Epochs

variable (period : ℤ) (burst : ℕ)

/-- How many requests were admitted in the epoch that a request at the time belongs to. -/
def admittedAt (ep : Option EpochCount) (t : ℤ) : ℕ :=
  match ep with
  | none => 0
  | some ep => if t - ep.start < period then ep.admitted else 0

def epochAfter (ep : Option EpochCount) (request : ℤ × Bool) : Option EpochCount :=
  some
    { start :=
        match ep with
        | none => request.1
        | some ep => if request.1 - ep.start < period then ep.start else request.1
      admitted := admittedAt period ep request.1 + request.2.toNat }

def epochOf (requests : List (ℤ × Bool)) : Option EpochCount :=
  requests.foldl (epochAfter period) none

/-- Every request is admitted as long as the epoch has admitted fewer than it may. -/
def Limited (ep : Option EpochCount) (requests : List (ℤ × Bool)) : Prop :=
  EveryStep (epochAfter period)
    (fun ep request => request.2 = decide (admittedAt period ep request.1 < burst)) ep requests

def admittedWithin (first last : ℤ) (requests : List (ℤ × Bool)) : List (ℤ × Bool) :=
  requests.filter fun request => request.2 && (decide (first ≤ request.1) && decide (request.1 ≤ last))

end Epochs

variable {period : ℤ} {burst : ℕ} {requests : List (ℤ × Bool)} {s t first last : ℤ} {a : ℕ}

theorem epochAfter_within (h : t - s < period) (ok : Bool) :
    epochAfter period (some ⟨s, a⟩) (t, ok) = some ⟨s, a + ok.toNat⟩ := by
  simp [epochAfter, admittedAt, h]

theorem epochAfter_beyond (h : ¬ t - s < period) (ok : Bool) :
    epochAfter period (some ⟨s, a⟩) (t, ok) = some ⟨t, ok.toNat⟩ := by
  simp [epochAfter, admittedAt, h]

theorem epochAfter_of_admittedAt_eq_zero {ep : Option EpochCount}
    (h : ∀ e, ep = some e → ¬ t - e.start < period) (ok : Bool) :
    admittedAt period ep t = 0 ∧ epochAfter period ep (t, ok) = some ⟨t, ok.toNat⟩ := by
  cases ep with
  | none => simp [admittedAt, epochAfter]
  | some e => exact ⟨if_neg (h e rfl), epochAfter_beyond (h e rfl) ok⟩

/-- No epoch admits more than it may, and none starts after its last request. -/
theorem epochAfter_le {ep : Option EpochCount} {ok : Bool} (hburst : 0 < burst)
    (hep : ∀ e, ep = some e → e.admitted ≤ burst ∧ e.start ≤ t)
    (hok : ok = decide (admittedAt period ep t < burst)) {e : EpochCount}
    (he : epochAfter period ep (t, ok) = some e) : e.admitted ≤ burst ∧ e.start ≤ t := by
  by_cases hcovered : ∃ d, ep = some d ∧ t - d.start < period
  · obtain ⟨d, rfl, hwithin⟩ := hcovered
    obtain ⟨hle, hstart⟩ := hep d rfl
    have hcur : admittedAt period (some d) t = d.admitted := if_pos hwithin
    rw [epochAfter_within hwithin] at he
    obtain rfl := Option.some.inj he
    refine ⟨?_, hstart⟩
    rw [hcur] at hok
    by_cases hlt : d.admitted < burst
    · simp [hok, hlt]
    · simp [hok, hlt, hle]
  · have hbeyond : ∀ d, ep = some d → ¬ t - d.start < period := fun d hd hwithin =>
      hcovered ⟨d, hd, hwithin⟩
    rw [(epochAfter_of_admittedAt_eq_zero hbeyond ok).2] at he
    obtain rfl := Option.some.inj he
    exact ⟨le_trans (Bool.toNat_le ok) hburst, le_refl t⟩

theorem admittedWithin_cons_of_lt {ok : Bool} (h : last < t) (hlater : ∀ r ∈ requests, t ≤ r.1) :
    admittedWithin first last ((t, ok) :: requests) = [] := by
  unfold admittedWithin
  rw [List.filter_eq_nil_iff]
  intro r hr
  have hlast : last < r.1 := by
    rcases List.mem_cons.mp hr with rfl | hr
    · exact h
    · exact lt_of_lt_of_le h (hlater r hr)
  rw [decide_eq_false (not_le.mpr hlast), Bool.and_false, Bool.and_false]
  exact Bool.false_ne_true

theorem length_admittedWithin_cons_le (request : ℤ × Bool) :
    (admittedWithin first last (request :: requests)).length ≤
      (admittedWithin first last requests).length + request.2.toNat := by
  unfold admittedWithin
  rw [List.filter_cons]
  split_ifs with h
  · have hok : request.2 = true := (Bool.and_eq_true_iff.mp h).1
    rw [hok, List.length_cons]
    rfl
  · exact Nat.le_add_right _ _

/-- An epoch has room for one burst until its first period is over. -/
theorem le_burst_mul (hperiod : 0 < period) (ha : a ≤ burst) (hlast : s ≤ last) :
    (a : ℤ) ≤ burst * ((last - s) / period + 1) := by
  have hdiv : 0 ≤ (last - s) / period := Int.ediv_nonneg (by omega) hperiod.le
  have hmul : (burst : ℤ) * 1 ≤ burst * ((last - s) / period + 1) :=
    mul_le_mul_of_nonneg_left (by omega) (by omega)
  omega

/-- One more period is over since the start of an epoch than since that of the next. -/
theorem burst_mul_add_le (hperiod : 0 < period) (h : ¬ t - s < period) :
    (burst : ℤ) * ((last - t) / period + 1) + burst ≤ burst * ((last - s) / period + 1) := by
  have hdiv : (last - t) / period + 1 ≤ (last - s) / period := by
    rw [Int.le_ediv_iff_mul_le hperiod, add_mul]
    have := Int.ediv_mul_le (last - t) hperiod.ne'
    omega
  calc (burst : ℤ) * ((last - t) / period + 1) + burst
      = burst * ((last - t) / period + 1 + 1) := by ring
    _ ≤ burst * ((last - s) / period + 1) := mul_le_mul_of_nonneg_left (by omega) (by omega)

/-- Up to a time, an epoch that has started admits what is left of it and one burst for each
period that is over by then. -/
theorem length_admittedWithin_add_le (first : ℤ) (hperiod : 0 < period) (hburst : 0 < burst)
    (hlimited : Limited period burst (some ⟨s, a⟩) requests) (ha : a ≤ burst)
    (hsorted : (requests.map Prod.fst).Pairwise (· ≤ ·)) (hs : ∀ r ∈ requests, s ≤ r.1)
    (hlast : s ≤ last) :
    ((admittedWithin first last requests).length : ℤ) + a ≤ burst * ((last - s) / period + 1) := by
  induction requests generalizing s a with
  | nil => simpa [admittedWithin] using le_burst_mul hperiod ha hlast
  | cons request rest ih =>
    obtain ⟨t, ok⟩ := request
    rw [List.map_cons, List.pairwise_cons] at hsorted
    obtain ⟨hnext, hsorted⟩ := hsorted
    have hlater : ∀ r ∈ rest, t ≤ r.1 := fun r hr => hnext r.1 (List.mem_map_of_mem hr)
    have hst : s ≤ t := hs (t, ok) List.mem_cons_self
    by_cases hwindow : last < t
    · rw [admittedWithin_cons_of_lt hwindow hlater]
      simpa using le_burst_mul hperiod ha hlast
    · have hcount : (admittedWithin first last ((t, ok) :: rest)).length ≤
          (admittedWithin first last rest).length + ok.toNat := length_admittedWithin_cons_le _
      unfold Limited at hlimited
      rw [everyStep_cons] at hlimited
      obtain ⟨hok, hrest⟩ := hlimited
      dsimp only at hok
      by_cases hwithin : t - s < period
      · rw [epochAfter_within hwithin] at hrest
        have ha' : a + ok.toNat ≤ burst :=
          (epochAfter_le hburst (by simpa using ⟨ha, hst⟩) hok (epochAfter_within hwithin ok)).1
        have hbound := ih hrest ha' hsorted (fun r hr => le_trans hst (hlater r hr)) hlast
        push_cast at hbound
        omega
      · rw [epochAfter_beyond hwithin] at hrest
        have hcur : admittedAt period (some ⟨s, a⟩) t = 0 := if_neg hwithin
        rw [hcur, decide_eq_true hburst] at hok
        subst hok
        have hbound := ih hrest (show true.toNat ≤ burst from hburst) hsorted hlater
          (not_lt.mp hwindow)
        have hnew : (burst : ℤ) * ((last - t) / period + 1) + burst ≤
            burst * ((last - s) / period + 1) := burst_mul_add_le hperiod hwithin
        rw [Bool.toNat_true] at hbound hcount
        push_cast at hbound
        omega

/-- An epoch that starts less than a period before the window, with one burst for each period up
to the end of the window. -/
theorem burst_mul_le (hperiod : 0 < period) {x : ℤ} {m : ℕ} (hs : x - period < s) :
    (burst : ℤ) * ((x + m * period - s) / period + 1) ≤ (m + 1) * burst := by
  have hdiv : (x + m * period - s) / period < m + 1 := by
    rw [Int.ediv_lt_iff_lt_mul hperiod, add_mul, one_mul]
    omega
  rw [mul_comm]
  exact mul_le_mul_of_nonneg_right (by omega) (by omega)

/-- A window of some periods sees one burst more than these periods, both of its ends included. -/
theorem length_admittedWithin_le (hperiod : 0 < period) (hburst : 0 < burst)
    {ep : Option EpochCount} (hlimited : Limited period burst ep requests)
    (hep : ∀ e, ep = some e → e.admitted ≤ burst ∧ ∀ r ∈ requests, e.start ≤ r.1)
    (hsorted : (requests.map Prod.fst).Pairwise (· ≤ ·)) (x : ℤ) (m : ℕ) :
    (admittedWithin x (x + m * period) requests).length ≤ (m + 1) * burst := by
  induction requests generalizing ep with
  | nil => exact Nat.zero_le _
  | cons request rest ih =>
    obtain ⟨t, ok⟩ := request
    have hsorted' := hsorted
    rw [List.map_cons, List.pairwise_cons] at hsorted
    obtain ⟨hnext, hsorted⟩ := hsorted
    have hlater : ∀ r ∈ rest, t ≤ r.1 := fun r hr => hnext r.1 (List.mem_map_of_mem hr)
    have hstep := hlimited
    unfold Limited at hstep
    rw [everyStep_cons] at hstep
    obtain ⟨hok, hrest⟩ := hstep
    dsimp only at hok
    by_cases hwindow : x + m * period < t
    · rw [admittedWithin_cons_of_lt hwindow hlater]
      exact Nat.zero_le _
    · by_cases hbefore : t < x
      · -- the request is before the window
        have hskip : admittedWithin x (x + m * period) ((t, ok) :: rest) =
            admittedWithin x (x + m * period) rest := by
          unfold admittedWithin
          rw [List.filter_cons_of_neg]
          simp [show ¬ x ≤ t by omega]
        rw [hskip]
        refine ih hrest (fun e he => ?_) hsorted
        have hle := epochAfter_le hburst
          (fun d hd => ⟨(hep d hd).1, (hep d hd).2 _ List.mem_cons_self⟩) hok he
        exact ⟨hle.1, fun r hr => le_trans hle.2 (hlater r hr)⟩
      · by_cases hcovered : ∃ d, ep = some d ∧ t - d.start < period
        · obtain ⟨⟨s, a⟩, rfl, hwithin⟩ := hcovered
          obtain ⟨ha, hs⟩ := hep _ rfl
          have hst : s ≤ t := hs (t, ok) List.mem_cons_self
          have hnear : x - period < s := by
            change t - s < period at hwithin
            omega
          have hlast : s ≤ x + m * period := by omega
          have hbound :=
            length_admittedWithin_add_le x hperiod hburst hlimited ha hsorted' hs hlast
          have hle := le_trans hbound (burst_mul_le hperiod hnear)
          have hcount : ((admittedWithin x (x + m * period) ((t, ok) :: rest)).length : ℤ) ≤
              (m + 1) * burst := le_trans (le_add_of_nonneg_right (Int.natCast_nonneg a)) hle
          exact_mod_cast hcount
        · -- the first request of the window starts an epoch
          have hbeyond : ∀ d, ep = some d → ¬ t - d.start < period := fun d hd hwithin =>
            hcovered ⟨d, hd, hwithin⟩
          obtain ⟨hzero, hafter⟩ := epochAfter_of_admittedAt_eq_zero hbeyond ok
          rw [hzero, decide_eq_true hburst] at hok
          subst hok
          rw [hafter] at hrest
          have hbound := length_admittedWithin_add_le x hperiod hburst hrest
            (show true.toNat ≤ burst from hburst) hsorted hlater (not_lt.mp hwindow)
          have hle := le_trans hbound (burst_mul_le hperiod (by omega))
          have hcount : (admittedWithin x (x + m * period) ((t, true) :: rest)).length ≤
              (admittedWithin x (x + m * period) rest).length + 1 :=
            length_admittedWithin_cons_le _
          have hcast : ((admittedWithin x (x + m * period) rest).length : ℤ) + 1 ≤
              (m + 1) * burst := hle
          exact le_trans hcount (by exact_mod_cast hcast)

end AcsNext.Data
