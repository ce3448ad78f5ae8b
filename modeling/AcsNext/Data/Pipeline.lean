import Mathlib.Tactic

/-! Receivers that are offered each event in turn, where a receiver that has had enough leaves
and keeps its last event to itself. Such a list of receivers is a pipeline: each receiver sees
the events that the receivers before it passed on. -/
namespace AcsNext.Data

variable {R E : Type*} (recv : R → E → Option R)

/-- Offers the event to the receivers in order. The first one that leaves ends the round, and
the receivers after it do not see the event. -/
def offer : List R → E → List R
  | [], _ => []
  | r :: rs, e =>
    match recv r e with
    | none => rs
    | some r' => r' :: offer rs e

/-- The receiver after the events, unless it has left. -/
def remaining : R → List E → Option R
  | r, [] => some r
  | r, e :: es =>
    match recv r e with
    | none => none
    | some r' => remaining r' es

/-- The events that the receiver passes on: all but the one at which it leaves. -/
def passedOn : R → List E → List E
  | _, [] => []
  | r, e :: es =>
    match recv r e with
    | none => es
    | some r' => e :: passedOn r' es

/-- What is left of the receivers if each one is run on what the one before it passes on. -/
def pipeline : List R → List E → List R
  | [], _ => []
  | r :: rs, es => (remaining recv r es).toList ++ pipeline rs (passedOn recv r es)

variable {recv}

theorem pipeline_nil (rs : List R) : pipeline recv rs [] = rs := by
  induction rs with
  | nil => rfl
  | cons r rs ih => simp [pipeline, remaining, passedOn, ih]

theorem pipeline_cons (rs : List R) (e : E) (es : List E) :
    pipeline recv rs (e :: es) = pipeline recv (offer recv rs e) es := by
  induction rs generalizing es with
  | nil => rfl
  | cons r rs ih =>
    cases h : recv r e with
    | none => simp [pipeline, remaining, passedOn, offer, h]
    | some r' => simp [pipeline, remaining, passedOn, offer, h, ih]

theorem foldl_offer_eq_pipeline (rs : List R) (es : List E) :
    es.foldl (offer recv) rs = pipeline recv rs es := by
  induction es generalizing rs with
  | nil => exact (pipeline_nil rs).symm
  | cons e es ih => rw [List.foldl_cons, ih, pipeline_cons]

theorem passedOn_of_remaining {r r' : R} {es : List E} (h : remaining recv r es = some r') :
    passedOn recv r es = es := by
  induction es generalizing r with
  | nil => rfl
  | cons e es ih =>
    cases hr : recv r e with
    | none => simp [remaining, hr] at h
    | some r₁ =>
      have hes : passedOn recv r₁ es = es := ih (by simpa [remaining, hr] using h)
      simp [passedOn, hr, hes]

section Idle

variable {r : R} {leaves : E → Bool}

/-- A receiver that never changes passes on all but the first event at which it leaves. -/
theorem passedOn_of_idle (h : ∀ e, recv r e = if leaves e then none else some r) (es : List E) :
    passedOn recv r es = es.eraseP leaves := by
  induction es with
  | nil => rfl
  | cons e es ih => cases he : leaves e <;> simp [passedOn, h, he, ih]

theorem remaining_of_idle (h : ∀ e, recv r e = if leaves e then none else some r) (es : List E) :
    remaining recv r es = if es.any leaves then none else some r := by
  induction es with
  | nil => rfl
  | cons e es ih => cases he : leaves e <;> simp [remaining, h, he, ih]

end Idle

theorem remaining_of_faithful {S : Type*} {embed : S → R} {f : S → E → S} {es : List E}
    (h : ∀ s, ∀ e ∈ es, recv (embed s) e = some (embed (f s e))) (s : S) :
    remaining recv (embed s) es = some (embed (es.foldl f s)) := by
  induction es generalizing s with
  | nil => rfl
  | cons e es ih =>
    have hrest := ih (fun s e' he' => h s e' (by simp [he'])) (f s e)
    simp [remaining, h s e, hrest]

end AcsNext.Data
