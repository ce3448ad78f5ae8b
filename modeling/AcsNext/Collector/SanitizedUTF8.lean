import AcsNext.Collector.ProcessSignal
import AcsNext.Data.Utf8

/-! `SanitizedUTF8` as the loop over an index and a shrinking view, and what it replaces. -/
namespace AcsNext.Collector

open AcsNext.Data

section Loop

variable (spanStructurallyValid : Bytes → ℕ)

/-- The loop of `SanitizedUTF8`: `str` is the rest of the view, `len` its valid prefix and `i` the
index into the output. There is no result if the view is shortened by more than it has, or
without fuel. -/
def sanitizeLoop : ℕ → Bytes → Bytes → ℕ → ℕ → Option Bytes
  | 0, _, _, _, _ => none
  | fuel + 1, output, str, len, i =>
    if i < output.length then
      let output := output.set i questionMark
      if len + 1 ≤ str.length then
        let str := str.drop (len + 1)
        let len := spanStructurallyValid str
        sanitizeLoop fuel output str len (i + (len + 1))
      else none
    else some output

/-- `SanitizedUTF8`; the inner option is its result. -/
def runSanitizedUTF8 (fuel : ℕ) (str : Bytes) : Option (Option Bytes) :=
  let len := spanStructurallyValid str
  if len = str.length then some none
  else (sanitizeLoop spanStructurallyValid fuel str str len len).map some

theorem replaceInvalid_of_lt {len : ℕ} {str : Bytes} (h : len < str.length) :
    replaceInvalid spanStructurallyValid len str =
      str.take len ++ questionMark ::
        replaceInvalid spanStructurallyValid (spanStructurallyValid (str.drop (len + 1)))
          (str.drop (len + 1)) := by
  induction str generalizing len with
  | nil => simp at h
  | cons b str ih =>
    cases len with
    | zero => rfl
    | succ len =>
      rw [replaceInvalid, ih (by simpa using h)]
      rfl

theorem replaceInvalid_of_le {len : ℕ} {str : Bytes} (h : str.length ≤ len) :
    replaceInvalid spanStructurallyValid len str = str := by
  induction str generalizing len with
  | nil => cases len <;> rfl
  | cons b str ih =>
    cases len with
    | zero => simp at h
    | succ len => rw [replaceInvalid, ih (by simpa using h)]

/-- The bytes before the view are final; the index stands `len` bytes into the view. -/
theorem sanitizeLoop_eq (fuel : ℕ) (final str : Bytes) (len : ℕ) (hfuel : str.length < fuel) :
    sanitizeLoop spanStructurallyValid fuel (final ++ str) str len (final.length + len) =
      some (final ++ replaceInvalid spanStructurallyValid len str) := by
  induction fuel generalizing final str len with
  | zero => omega
  | succ fuel ih =>
    rw [sanitizeLoop, List.length_append]
    by_cases hlen : len < str.length
    · have hset : (final ++ str).set (final.length + len) questionMark =
          (final ++ str.take len ++ [questionMark]) ++ str.drop (len + 1) := by
        rw [List.set_append_right _ _ (by omega), Nat.add_sub_cancel_left,
          List.set_eq_take_append_cons_drop, if_pos hlen]
        simp
      have hindex (n : ℕ) : final.length + len + (n + 1) =
          (final ++ str.take len ++ [questionMark]).length + n := by
        simp only [List.length_append, List.length_take, List.length_singleton]
        omega
      have hrest : (str.drop (len + 1)).length < fuel := by
        rw [List.length_drop]
        omega
      rw [if_pos (by omega)]
      simp only [if_pos (show len + 1 ≤ str.length from hlen)]
      rw [hset, hindex, ih _ _ _ hrest, replaceInvalid_of_lt _ hlen]
      simp
    · rw [if_neg (by omega), replaceInvalid_of_le _ (not_lt.mp hlen)]

/-- One more round than there are bytes is enough. -/
theorem runSanitizedUTF8_eq {fuel : ℕ} {str : Bytes} (hfuel : str.length < fuel) :
    runSanitizedUTF8 spanStructurallyValid fuel str =
      some (sanitizedUTF8 spanStructurallyValid str) := by
  have hloop := sanitizeLoop_eq spanStructurallyValid fuel [] str (spanStructurallyValid str) hfuel
  rw [List.nil_append, List.length_nil, Nat.zero_add] at hloop
  simp only [runSanitizedUTF8, sanitizedUTF8, hloop]
  split_ifs <;> rfl

/-- Induction along the decoder: from what follows the first failure to the whole string. -/
theorem resume_induction {P : Bytes → Prop}
    (step : ∀ str, (spanStructurallyValid str < str.length →
      P (str.drop (spanStructurallyValid str + 1))) → P str) (str : Bytes) : P str := by
  induction hlength : str.length using Nat.strong_induction_on generalizing str with
  | _ length ih =>
    apply step
    intro hlt
    refine ih _ ?_ _ rfl
    rw [List.length_drop]
    omega

theorem length_replaceInvalid (len : ℕ) (str : Bytes) :
    (replaceInvalid spanStructurallyValid len str).length = str.length := by
  induction str generalizing len with
  | nil => cases len <;> rfl
  | cons b str ih =>
    cases len with
    | zero => exact congrArg (· + 1) (ih _)
    | succ len => exact congrArg (· + 1) (ih _)

variable {spanStructurallyValid}

section Valid

variable (hspan : ∀ s, LongestValid s (spanStructurallyValid s))

include hspan

theorem validUtf8_replaceInvalid (str : Bytes) :
    ValidUtf8 (replaceInvalid spanStructurallyValid (spanStructurallyValid str) str) := by
  induction str using resume_induction spanStructurallyValid with
  | step str ih =>
    by_cases hlt : spanStructurallyValid str < str.length
    · rw [replaceInvalid_of_lt _ hlt, List.append_cons]
      have hmark : ValidUtf8 [questionMark] := validUtf8_ascii (by decide)
      exact ((hspan str).valid.append hmark).append (ih hlt)
    · have hlength := le_antisymm (hspan str).le_length (not_lt.mp hlt)
      rw [replaceInvalid_of_le _ (not_lt.mp hlt)]
      exact (hspan str).eq_length_iff.mp hlength

/-- The copy differs from the string exactly where decoding fails. -/
theorem getElem?_replaceInvalid (str : Bytes) (i : ℕ) :
    (DecodingFails str i →
      (replaceInvalid spanStructurallyValid (spanStructurallyValid str) str)[i]? =
        some questionMark ∧ str[i]? ≠ some questionMark) ∧
    (¬ DecodingFails str i →
      (replaceInvalid spanStructurallyValid (spanStructurallyValid str) str)[i]? = str[i]?) := by
  induction str using resume_induction spanStructurallyValid generalizing i with
  | step str ih =>
    have hlongest := hspan str
    generalize spanStructurallyValid str = len at hlongest ih ⊢
    by_cases hlt : len < str.length
    · have htake : (str.take len).length = len := List.length_take_of_le hlt.le
      rw [replaceInvalid_of_lt _ hlt]
      rcases lt_trichotomy i len with hi | rfl | hi
      · refine ⟨fun h => absurd (hlongest.le_of_decodingFails h).1 (by omega), fun _ => ?_⟩
        rw [List.getElem?_append_left (by omega), List.getElem?_take_of_lt hi]
      · refine ⟨fun _ => ⟨?_, ?_⟩, fun h => absurd (.here hlongest hlt) h⟩
        · rw [List.getElem?_append_right (by omega), htake, Nat.sub_self, List.getElem?_cons_zero]
        · rw [List.getElem?_eq_getElem hlt]
          intro heq
          have hlarge := hlongest.ascii_le hlt
          rw [Option.some.inj heq] at hlarge
          exact absurd hlarge (by decide)
      · -- past the first failure the copy goes on as the copy of the rest
        obtain ⟨j, rfl⟩ := Nat.exists_eq_add_of_le (Nat.succ_le_of_lt hi)
        rw [Nat.succ_eq_add_one, hlongest.decodingFails_add_iff hlt,
          List.getElem?_append_right (by omega), htake, Nat.add_assoc, Nat.add_sub_cancel_left,
          ← Nat.add_assoc, Nat.add_comm 1 j, List.getElem?_cons_succ, ← List.getElem?_drop]
        exact ih hlt j
    · rw [replaceInvalid_of_le _ (not_lt.mp hlt)]
      exact ⟨fun h => absurd (hlongest.le_of_decodingFails h).2 hlt, fun _ => rfl⟩

theorem sanitizedUTF8_eq_none_iff (str : Bytes) :
    sanitizedUTF8 spanStructurallyValid str = none ↔ ValidUtf8 str := by
  rw [← (hspan str).eq_length_iff]
  simp [sanitizedUTF8]

theorem validUtf8_sanitized (str : Bytes) : ValidUtf8 (sanitized spanStructurallyValid str) := by
  unfold sanitized
  cases hcopy : sanitizedUTF8 spanStructurallyValid str with
  | none => exact (sanitizedUTF8_eq_none_iff hspan str).mp hcopy
  | some output =>
    simp only [sanitizedUTF8] at hcopy
    split_ifs at hcopy
    obtain rfl := Option.some.inj hcopy
    exact validUtf8_replaceInvalid hspan str

end Valid

end Loop

/-- With more rounds than bytes the loop ends within the view. There is no copy exactly of valid
strings; a copy has the length of the string, is valid, has no copy itself, and differs exactly
where decoding fails, by a question mark. -/
theorem sanitized_utf8 (spanStructurallyValid : Bytes → ℕ)
    (hspan : ∀ s, LongestValid s (spanStructurallyValid s)) (str : Bytes) (fuel : ℕ)
    (hfuel : str.length < fuel) :
    ∃ result, runSanitizedUTF8 spanStructurallyValid fuel str = some result ∧
      (result = none ↔ ValidUtf8 str) ∧
      ∀ output, result = some output →
        output.length = str.length ∧ ValidUtf8 output ∧
        (∀ i, output[i]? ≠ str[i]? ↔ DecodingFails str i) ∧
        (∀ i, DecodingFails str i → output[i]? = some questionMark) ∧
        runSanitizedUTF8 spanStructurallyValid fuel output = some none := by
  refine ⟨_, runSanitizedUTF8_eq _ hfuel, sanitizedUTF8_eq_none_iff hspan str, ?_⟩
  intro output houtput
  simp only [sanitizedUTF8] at houtput
  split_ifs at houtput
  obtain rfl := Option.some.inj houtput
  have hlength := length_replaceInvalid spanStructurallyValid (spanStructurallyValid str) str
  have hvalid := validUtf8_replaceInvalid hspan str
  refine ⟨hlength, hvalid, ?_, ?_, ?_⟩
  · intro i
    obtain ⟨hfails, hkeeps⟩ := getElem?_replaceInvalid hspan str i
    constructor
    · exact fun hne => by_contra fun h => hne (hkeeps h)
    · intro h heq
      exact (hfails h).2 (heq ▸ (hfails h).1)
  · exact fun i h => ((getElem?_replaceInvalid hspan str i).1 h).1
  · rw [runSanitizedUTF8_eq _ (hlength ▸ hfuel), (sanitizedUTF8_eq_none_iff hspan _).mpr hvalid]

/-- An `a`, two stray continuation bytes, the letter é, and its first byte alone. -/
def brokenText : Bytes := [97, 0x80, 0xBF, 0xC3, 0xA9, 0xC3]

theorem sanitized_utf8_brokenText :
    ∃ output, runSanitizedUTF8 longestValid 7 brokenText = some (some output) ∧
      output = [97, 63, 63, 0xC3, 0xA9, 63] ∧ ValidUtf8 output ∧
      runSanitizedUTF8 longestValid 7 output = some none := by
  obtain ⟨result, hrun, hnone, hcopy⟩ :=
    sanitized_utf8 longestValid longestValid_spec brokenText 7 (by decide)
  have hresult : runSanitizedUTF8 longestValid 7 brokenText =
      some (some [97, 63, 63, 0xC3, 0xA9, 63]) := by
    decide +kernel
  rw [hresult] at hrun
  obtain ⟨_, hvalid, _, _, hagain⟩ := hcopy _ (Option.some.inj hrun).symm
  exact ⟨_, hresult, rfl, hvalid, hagain⟩

end AcsNext.Collector
