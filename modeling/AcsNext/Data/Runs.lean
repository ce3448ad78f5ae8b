import Mathlib.Tactic

/-! Runs of a step function over a list of events, and the two rules by which a property
of every state of a run is derived from what one step does. -/
namespace AcsNext.Data

variable {S E : Type*} (step : S → E → S)

/-- Every step of the run meets the condition in the state that it is taken in. -/
def EveryStep (cond : S → E → Prop) (s : S) (es : List E) : Prop :=
  ∀ l e, l ++ [e] <+: es → cond (l.foldl step s) e

/-- Every state of the run has the property, which may mention the events before it. -/
def Always (P : List E → S → Prop) (s : S) (es : List E) : Prop :=
  ∀ l, l <+: es → P l (l.foldl step s)

variable {step} {cond : S → E → Prop} {P : List E → S → Prop} {s : S}

theorem everyStep_nil : EveryStep step cond s [] := by
  intro l e hl
  simp at hl

theorem everyStep_cons (e : E) (es : List E) :
    EveryStep step cond s (e :: es) ↔ cond s e ∧ EveryStep step cond (step s e) es := by
  unfold EveryStep
  constructor
  · intro h
    refine ⟨h [] e (by simp), fun l e' hl => ?_⟩
    exact h (e :: l) e' (by simpa using hl)
  · intro h l e' hl
    obtain ⟨hfirst, hrest⟩ := h
    cases l with
    | nil =>
      obtain rfl : e' = e := by simpa using hl
      exact hfirst
    | cons x l =>
      obtain ⟨rfl, htail⟩ : x = e ∧ l ++ [e'] <+: es := by simpa using hl
      exact hrest l e' htail

instance EveryStep.decidable [∀ s e, Decidable (cond s e)] :
    (s : S) → (es : List E) → Decidable (EveryStep step cond s es)
  | _, [] => isTrue everyStep_nil
  | s, e :: es =>
    have := EveryStep.decidable (step s e) es
    decidable_of_iff _ (everyStep_cons e es).symm

theorem everyStep_append_singleton (es : List E) (e : E) :
    EveryStep step cond s (es ++ [e]) ↔ EveryStep step cond s es ∧ cond (es.foldl step s) e := by
  unfold EveryStep
  constructor
  · intro h
    refine ⟨fun l e' hl => h l e' (hl.trans (List.prefix_append _ _)), ?_⟩
    exact h es e (List.prefix_refl _)
  · intro h l e' hl
    obtain ⟨hsteps, hlast⟩ := h
    rcases List.prefix_concat_iff.mp hl with heq | hl
    · obtain ⟨rfl, he⟩ := List.append_inj' heq rfl
      rwa [List.singleton_inj.mp he]
    · exact hsteps l e' hl

/-- Every element of a list meets the condition, which may mention the elements before it. -/
def EveryElement (cond : List E → E → Prop) (es : List E) : Prop :=
  EveryStep (fun l e => l ++ [e]) cond [] es

section EveryElement

variable {cond : List E → E → Prop}

private theorem foldl_append_nil (l : List E) : l.foldl (fun l e => l ++ [e]) [] = l := by
  induction l using List.reverseRecOn with
  | nil => rfl
  | append_singleton l e ih => rw [List.foldl_append, ih]; rfl

theorem everyElement_iff (es : List E) :
    EveryElement cond es ↔ ∀ l e, l ++ [e] <+: es → cond l e := by
  unfold EveryElement EveryStep
  simp only [foldl_append_nil]

theorem everyElement_nil : EveryElement cond [] := everyStep_nil

theorem everyElement_append_singleton (es : List E) (e : E) :
    EveryElement cond (es ++ [e]) ↔ EveryElement cond es ∧ cond es e := by
  unfold EveryElement
  rw [everyStep_append_singleton, foldl_append_nil]

instance EveryElement.decidable [∀ l e, Decidable (cond l e)] (es : List E) :
    Decidable (EveryElement cond es) :=
  EveryStep.decidable [] es

end EveryElement

theorem always_nil : Always step P s [] ↔ P [] s := by
  unfold Always
  simp

theorem always_append_singleton (es : List E) (e : E) :
    Always step P s (es ++ [e]) ↔
      Always step P s es ∧ P (es ++ [e]) (step (es.foldl step s) e) := by
  unfold Always
  constructor
  · intro h
    refine ⟨fun l hl => h l (hl.trans (List.prefix_append _ _)), ?_⟩
    simpa using h (es ++ [e]) (List.prefix_refl _)
  · intro h l hl
    obtain ⟨hstates, hlast⟩ := h
    rcases List.prefix_concat_iff.mp hl with rfl | hl
    · simpa using hlast
    · exact hstates l hl

theorem Always.last {es : List E} (h : Always step P s es) : P es (es.foldl step s) :=
  h es (List.prefix_refl es)

/-- What the first state has and every step keeps, every state of the run has. -/
theorem always_of_everyStep (h0 : P [] s)
    (hstep : ∀ l e, P l (l.foldl step s) → cond (l.foldl step s) e →
      P (l ++ [e]) (step (l.foldl step s) e))
    {es : List E} (hes : EveryStep step cond s es) : Always step P s es := by
  induction es using List.reverseRecOn with
  | nil => exact always_nil.mpr h0
  | append_singleton es e ih =>
    obtain ⟨hsteps, hlast⟩ := (everyStep_append_singleton es e).mp hes
    have hstates := ih hsteps
    exact (always_append_singleton es e).mpr ⟨hstates, hstep es e hstates.last hlast⟩

/-- If the condition tells exactly when a step keeps the property, then the property holds
throughout a run exactly when every step meets the condition. -/
theorem always_iff_everyStep (h0 : P [] s)
    (hstep : ∀ l e, P l (l.foldl step s) →
      (P (l ++ [e]) (step (l.foldl step s) e) ↔ cond (l.foldl step s) e))
    (es : List E) : Always step P s es ↔ EveryStep step cond s es := by
  constructor
  · intro h l e hl
    have hbefore : P l (l.foldl step s) := h l ((List.prefix_append l [e]).trans hl)
    have hafter := h (l ++ [e]) hl
    rw [List.foldl_append] at hafter
    exact (hstep l e hbefore).mp hafter
  · exact always_of_everyStep h0 fun l e hl hc => (hstep l e hl).mpr hc

end AcsNext.Data
