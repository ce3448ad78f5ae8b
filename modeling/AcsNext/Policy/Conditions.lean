import AcsNext.Policy.StatusAccounting

/-! The list of conditions over a run of `SetCondition` calls: one condition for each type, with
the time of its last transition. -/
namespace AcsNext.Policy

def getCondition (conditions : List Condition) (conditionType : String) : Option Condition :=
  conditions.find? fun condition => condition.conditionType = conditionType

def isConditionTrue (conditions : List Condition) (conditionType : String) : Bool :=
  match getCondition conditions conditionType with
  | none => false
  | some condition => condition.status = .conditionTrue

/-- A call of `SetCondition` with a new condition. `NewCondition` reads the clock before it. -/
structure ConditionCall where
  created : ℤ
  now : ℤ
  conditionType : String
  status : ConditionStatus
  reason : String
  message : String
deriving DecidableEq

def applyCall (conditions : List Condition) (call : ConditionCall) : List Condition :=
  setCondition call.now
    (newCondition call.created call.conditionType call.status call.reason call.message) conditions

def conditionsAfter (calls : List ConditionCall) : List Condition := calls.foldl applyCall []

theorem conditionsAfter_append_singleton (calls : List ConditionCall) (call : ConditionCall) :
    conditionsAfter (calls ++ [call]) = applyCall (conditionsAfter calls) call := by
  simp [conditionsAfter]

section SetCondition

variable (now : ℤ) (new : Condition) (conditions : List Condition)

theorem getCondition_cons (condition : Condition) (t : String) :
    getCondition (condition :: conditions) t =
      if condition.conditionType = t then some condition else getCondition conditions t := by
  unfold getCondition
  rw [List.find?_cons]
  split_ifs with h <;> simp [h]

/-- What the call stores: the transition time moves with the status. -/
def stored : Condition :=
  match getCondition conditions new.conditionType with
  | none => new
  | some condition => { new with
      lastTransitionTime :=
        if condition.status ≠ new.status then now else condition.lastTransitionTime }

theorem getCondition_setCondition_self :
    getCondition (setCondition now new conditions) new.conditionType =
      some (stored now new conditions) := by
  unfold stored
  induction conditions with
  | nil => simp [setCondition, getCondition]
  | cons condition conditions ih =>
    by_cases h : condition.conditionType = new.conditionType
    · rw [setCondition, if_pos h, getCondition_cons, if_pos rfl, getCondition_cons, if_pos h]
    · rw [setCondition, if_neg h, getCondition_cons, if_neg h, getCondition_cons, if_neg h]
      exact ih

theorem getCondition_setCondition_of_ne {t : String} (h : t ≠ new.conditionType) :
    getCondition (setCondition now new conditions) t = getCondition conditions t := by
  induction conditions with
  | nil => simp [setCondition, getCondition, h.symm]
  | cons condition conditions ih =>
    by_cases htype : condition.conditionType = new.conditionType
    · have hother : condition.conditionType ≠ t := fun heq => h (heq.symm.trans htype)
      rw [setCondition, if_pos htype, getCondition_cons, if_neg h.symm, getCondition_cons,
        if_neg hother]
    · rw [setCondition, if_neg htype, getCondition_cons, getCondition_cons, ih]

/-- The types keep their places; a new one comes last. -/
theorem map_conditionType_setCondition :
    (setCondition now new conditions).map Condition.conditionType =
      if new.conditionType ∈ conditions.map Condition.conditionType then
        conditions.map Condition.conditionType
      else conditions.map Condition.conditionType ++ [new.conditionType] := by
  induction conditions with
  | nil => rfl
  | cons condition conditions ih =>
    by_cases h : condition.conditionType = new.conditionType
    · have hmem : new.conditionType ∈ (condition :: conditions).map Condition.conditionType := by
        simp [h]
      rw [if_pos hmem, setCondition, if_pos h]
      simp [h]
    · rw [setCondition, if_neg h, List.map_cons, ih, List.map_cons]
      have hmem : new.conditionType ∈ condition.conditionType ::
          conditions.map Condition.conditionType ↔
          new.conditionType ∈ conditions.map Condition.conditionType := by
        rw [List.mem_cons, or_iff_right fun heq => h heq.symm]
      rw [if_congr hmem rfl rfl]
      split_ifs <;> rfl

theorem nodup_setCondition (h : (conditions.map Condition.conditionType).Nodup) :
    ((setCondition now new conditions).map Condition.conditionType).Nodup := by
  rw [map_conditionType_setCondition]
  split_ifs with hmem
  · exact h
  · rw [List.nodup_append]
    refine ⟨h, List.nodup_singleton _, ?_⟩
    rintro a ha b hb rfl
    exact hmem (List.mem_singleton.mp hb ▸ ha)

theorem filter_setCondition :
    (setCondition now new conditions).filter (fun c => c.conditionType ≠ new.conditionType) =
      conditions.filter (fun c => c.conditionType ≠ new.conditionType) := by
  induction conditions with
  | nil => simp [setCondition]
  | cons condition conditions ih =>
    by_cases h : condition.conditionType = new.conditionType
    · rw [setCondition, if_pos h]
      simp [h]
    · rw [setCondition, if_neg h, List.filter_cons, List.filter_cons, ih]

end SetCondition

def callsFor (calls : List ConditionCall) (t : String) : List ConditionCall :=
  calls.filter fun call => call.conditionType = t

/-- `time` is that of the last of the calls that changed the status, or of the first one. -/
def IsTransitionTime (calls : List ConditionCall) (time : ℤ) : Prop :=
  ∃ before call after, calls = before ++ call :: after ∧
    (∀ later ∈ after, later.status = call.status) ∧
    ((before = [] ∧ time = call.created) ∨
      ∃ previous, before.getLast? = some previous ∧ previous.status ≠ call.status ∧
        time = call.now)

/-- The condition has the values of the last of the calls and their transition time. -/
structure Reflects (calls : List ConditionCall) (condition : Condition) : Prop where
  last : ∃ call, calls.getLast? = some call ∧ condition.status = call.status ∧
    condition.reason = call.reason ∧ condition.message = call.message
  transition : IsTransitionTime calls condition.lastTransitionTime

structure ConditionsSpec (calls : List ConditionCall) (conditions : List Condition) : Prop where
  nodup : (conditions.map Condition.conditionType).Nodup
  absent : ∀ t, callsFor calls t = [] → getCondition conditions t = none
  present : ∀ t, callsFor calls t ≠ [] →
    ∃ condition, getCondition conditions t = some condition ∧ Reflects (callsFor calls t) condition

theorem callsFor_append_self (calls : List ConditionCall) (call : ConditionCall) :
    callsFor (calls ++ [call]) call.conditionType = callsFor calls call.conditionType ++ [call] := by
  simp [callsFor]

theorem callsFor_append_of_ne (calls : List ConditionCall) {call : ConditionCall} {t : String}
    (h : t ≠ call.conditionType) : callsFor (calls ++ [call]) t = callsFor calls t := by
  simp [callsFor, h.symm]

theorem isTransitionTime_singleton (call : ConditionCall) :
    IsTransitionTime [call] call.created :=
  ⟨[], call, [], rfl, by simp, .inl ⟨rfl, rfl⟩⟩

theorem isTransitionTime_append_of_ne {calls : List ConditionCall} {last call : ConditionCall}
    (hlast : calls.getLast? = some last) (h : last.status ≠ call.status) :
    IsTransitionTime (calls ++ [call]) call.now :=
  ⟨calls, call, [], rfl, by simp, .inr ⟨last, hlast, h, rfl⟩⟩

/-- All calls from the last change on have one status. -/
theorem isTransitionTime_append_of_eq {calls : List ConditionCall} {last call : ConditionCall}
    {time : ℤ} (h : IsTransitionTime calls time) (hlast : calls.getLast? = some last)
    (hsame : last.status = call.status) : IsTransitionTime (calls ++ [call]) time := by
  obtain ⟨before, change, after, rfl, hafter, hwhy⟩ := h
  have hstatus : last.status = change.status := by
    rcases List.eq_nil_or_concat' after with rfl | ⟨front, final, rfl⟩
    · simp at hlast
      rw [hlast]
    · have hfinal : final = last := by
        rw [← List.cons_append, ← List.append_assoc, List.getLast?_concat] at hlast
        exact Option.some.inj hlast
      exact hfinal ▸ hafter final (by simp)
  refine ⟨before, change, after ++ [call], by simp, ?_, hwhy⟩
  intro later hlater
  rcases List.mem_append.mp hlater with hlater | hlater
  · exact hafter later hlater
  · rw [List.mem_singleton.mp hlater, ← hsame, hstatus]

theorem reflects_stored {calls : List ConditionCall} {conditions : List Condition}
    (hspec : ConditionsSpec calls conditions) (call : ConditionCall) :
    Reflects (callsFor calls call.conditionType ++ [call]) (stored call.now
      (newCondition call.created call.conditionType call.status call.reason call.message)
      conditions) := by
  unfold stored
  by_cases hfirst : callsFor calls call.conditionType = []
  · have hnone := hspec.absent _ hfirst
    simp only [newCondition] at hnone ⊢
    rw [hnone, hfirst]
    exact ⟨⟨call, rfl, rfl, rfl, rfl⟩, isTransitionTime_singleton call⟩
  · obtain ⟨condition, hget, ⟨last, hlast, hstatus, _⟩, htransition⟩ := hspec.present _ hfirst
    simp only [newCondition] at hget ⊢
    rw [hget]
    refine ⟨⟨call, by simp, rfl, rfl, rfl⟩, ?_⟩
    change IsTransitionTime _
      (if condition.status ≠ call.status then call.now else condition.lastTransitionTime)
    by_cases hchanged : condition.status ≠ call.status
    · rw [if_pos hchanged]
      exact isTransitionTime_append_of_ne hlast (hstatus ▸ hchanged)
    · rw [if_neg hchanged]
      exact isTransitionTime_append_of_eq htransition hlast (hstatus ▸ not_not.mp hchanged)

theorem conditionsSpec_applyCall {calls : List ConditionCall} {conditions : List Condition}
    (hspec : ConditionsSpec calls conditions) (call : ConditionCall) :
    ConditionsSpec (calls ++ [call]) (applyCall conditions call) := by
  have hself := getCondition_setCondition_self call.now
    (newCondition call.created call.conditionType call.status call.reason call.message) conditions
  refine ⟨nodup_setCondition _ _ _ hspec.nodup, fun t ht => ?_, fun t ht => ?_⟩
  · have hne : t ≠ call.conditionType := by
      rintro rfl
      rw [callsFor_append_self] at ht
      simp at ht
    rw [callsFor_append_of_ne calls hne] at ht
    exact (getCondition_setCondition_of_ne _ _ _ hne).trans (hspec.absent t ht)
  · by_cases hne : t = call.conditionType
    · subst hne
      rw [callsFor_append_self]
      exact ⟨_, hself, reflects_stored hspec call⟩
    · rw [callsFor_append_of_ne calls hne] at ht ⊢
      obtain ⟨condition, hget, hreflects⟩ := hspec.present t ht
      exact ⟨condition, (getCondition_setCondition_of_ne _ _ _ hne).trans hget, hreflects⟩

theorem conditionsSpec_conditionsAfter (calls : List ConditionCall) :
    ConditionsSpec calls (conditionsAfter calls) := by
  induction calls using List.reverseRecOn with
  | nil => exact ⟨by simp [conditionsAfter], fun _ _ => rfl, fun _ h => absurd rfl h⟩
  | append_singleton calls call ih =>
    rw [conditionsAfter_append_singleton]
    exact conditionsSpec_applyCall ih call

theorem isConditionTrue_conditionsAfter_iff (calls : List ConditionCall) (t : String) :
    isConditionTrue (conditionsAfter calls) t = true ↔
      ∃ call, (callsFor calls t).getLast? = some call ∧ call.status = .conditionTrue := by
  have hspec := conditionsSpec_conditionsAfter calls
  unfold isConditionTrue
  by_cases ht : callsFor calls t = []
  · simp [hspec.absent t ht, ht]
  · obtain ⟨condition, hget, ⟨call, hlast, hstatus, _⟩, _⟩ := hspec.present t ht
    simp [hget, hlast, hstatus]

/-- Every run of calls from the empty list keeps the discipline, and every call in it leaves the
conditions of the other types, and their order, as they are. -/
theorem setCondition_discipline (calls : List ConditionCall) :
    ConditionsSpec calls (conditionsAfter calls) ∧
    ∀ call, (conditionsAfter (calls ++ [call])).filter
        (fun condition => condition.conditionType ≠ call.conditionType) =
      (conditionsAfter calls).filter
        fun condition => condition.conditionType ≠ call.conditionType := by
  refine ⟨conditionsSpec_conditionsAfter calls, fun call => ?_⟩
  rw [conditionsAfter_append_singleton]
  exact filter_setCondition call.now
    (newCondition call.created call.conditionType call.status call.reason call.message) _

end AcsNext.Policy
