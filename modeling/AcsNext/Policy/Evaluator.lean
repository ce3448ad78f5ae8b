import Mathlib.Tactic

/-! Evaluation of policy sections against a pod or a runtime event. -/
namespace AcsNext.Policy

inductive BooleanOperator where
  | unset
  | or
  | and
deriving DecidableEq, Repr

structure PolicyGroup where
  fieldName : String
  booleanOperator : BooleanOperator
  negate : Bool
  values : List String
deriving DecidableEq, Repr

structure PolicySection where
  policyGroups : List PolicyGroup
deriving DecidableEq, Repr

structure SecurityContext where
  privileged : Option Bool
deriving DecidableEq, Repr

/-- `limits` lists the names of the resources that have one; `none` is a nil map. -/
structure Container where
  image : String
  securityContext : Option SecurityContext
  limits : Option (List String)
deriving DecidableEq, Repr

structure PodSpec where
  initContainers : List Container
  containers : List Container
  hostNetwork : Bool
deriving DecidableEq, Repr

structure EvalContext where
  podSpec : Option PodSpec
  ns : String
  processName : String
  executable : String
  dstPort : ℤ
  eventType : String
deriving DecidableEq, Repr

/-- What a policy is evaluated against, and the part of the context that it fills. -/
inductive Subject where
  | pod (podSpec : PodSpec) (ns : String)
  | process (processName executable : String)
  | network (dstPort : ℤ) (eventType : String)
deriving DecidableEq, Repr

def Subject.context : Subject → EvalContext
  | .pod podSpec ns => ⟨some podSpec, ns, "", "", 0, ""⟩
  | .process processName executable => ⟨none, "", processName, executable, 0, ""⟩
  | .network dstPort eventType => ⟨none, "", "", "", dstPort, eventType⟩

structure Result where
  matched : Bool
  messages : List String
deriving DecidableEq, Repr

abbrev FieldHandler := EvalContext → List String → Bool

def allContainers (podSpec : PodSpec) : List Container :=
  podSpec.initContainers ++ podSpec.containers

def Container.isPrivileged (c : Container) : Bool :=
  match c.securityContext with
  | some ⟨some privileged⟩ => privileged
  | _ => false

def fieldPrivilegedContainer : FieldHandler := fun ctx _ =>
  match ctx.podSpec with
  | none => false
  | some podSpec => (allContainers podSpec).any Container.isPrivileged

/-- The text after the last colon, empty if there is none. -/
def imageTag (image : String) : String :=
  let parts := image.toList.splitOn ':'
  if 1 < parts.length then String.ofList (parts.getLast?.getD []) else ""

def Container.imageTagMatches (values : List String) (c : Container) : Bool :=
  if c.image = "" then false
  else if '@' ∈ c.image.toList then false
  else
    let tag := imageTag c.image
    if 0 < values.length then values.any fun v => v == tag || (v == "latest" && tag == "")
    else tag == "" || tag == "latest"

def fieldImageTag : FieldHandler := fun ctx values =>
  match ctx.podSpec with
  | none => false
  | some podSpec => (allContainers podSpec).any (Container.imageTagMatches values)

/-- A missing limit is a violation. -/
def Container.lacksLimit (resource : String) (c : Container) : Bool :=
  match c.limits with
  | none => true
  | some limits => !limits.contains resource

def fieldContainerLimit (resource : String) : FieldHandler := fun ctx _ =>
  match ctx.podSpec with
  | none => false
  | some podSpec => (allContainers podSpec).any (Container.lacksLimit resource)

def fieldContainerCPULimit : FieldHandler := fieldContainerLimit "cpu"

def fieldContainerMemoryLimit : FieldHandler := fieldContainerLimit "memory"

def fieldHostNetwork : FieldHandler := fun ctx _ =>
  match ctx.podSpec with
  | none => false
  | some podSpec => podSpec.hostNetwork

def fieldProcessName : FieldHandler := fun ctx values =>
  if ctx.executable = "" then false
  else values.any fun v => v == ctx.executable || v == ctx.processName

def fieldPort : FieldHandler := fun ctx values =>
  if ctx.dstPort = 0 then false
  else values.any fun v => v == toString ctx.dstPort

def getFieldHandler (fieldName : String) : Option FieldHandler :=
  match fieldName with
  | "Privileged Container" => some fieldPrivilegedContainer
  | "Image Tag" => some fieldImageTag
  | "Container CPU Limit" => some fieldContainerCPULimit
  | "Container Memory Limit" => some fieldContainerMemoryLimit
  | "Host Network" => some fieldHostNetwork
  | "Process Name" => some fieldProcessName
  | "Port" => some fieldPort
  | _ => none

/-- How the values of a group combine before negation. -/
def PolicyGroup.matchValues (group : PolicyGroup) (handler : FieldHandler) (ctx : EvalContext) :
    Bool :=
  if group.values.length = 0 then handler ctx []
  else if group.booleanOperator = .and then group.values.all fun v => handler ctx [v]
  else handler ctx group.values

def evaluateGroup (group : PolicyGroup) (ctx : EvalContext) : Result :=
  match getFieldHandler group.fieldName with
  | none => ⟨false, ["unsupported field: " ++ group.fieldName]⟩
  | some handler =>
    let matched := group.matchValues handler ctx
    let matched := if group.negate then !matched else matched
    if matched then
      ⟨true, [if 0 < group.values.length then
          "field \"" ++ group.fieldName ++ "\" matched values [" ++
            " ".intercalate group.values ++ "]"
        else "field \"" ++ group.fieldName ++ "\" matched"]⟩
    else ⟨false, []⟩

/-- The loop of `EvaluateSections` and of `evaluateSection`: the first element that does not
match ends it, and the messages of those before are dropped. -/
def evaluateAll {α : Type*} (evaluate : α → Result) : List α → List String → Result
  | [], messages => ⟨true, messages⟩
  | x :: xs, messages =>
    if (evaluate x).matched then evaluateAll evaluate xs (messages ++ (evaluate x).messages)
    else ⟨false, []⟩

def evaluateSection (policySection : PolicySection) (ctx : EvalContext) : Result :=
  evaluateAll (fun group => evaluateGroup group ctx) policySection.policyGroups []

def evaluateSections (sections : List PolicySection) (ctx : EvalContext) : Result :=
  evaluateAll (fun s => evaluateSection s ctx) sections []

/-- The field is registered, and the combined values hold or, under `negate`, fail. -/
def PolicyGroup.Holds (group : PolicyGroup) (ctx : EvalContext) : Prop :=
  ∃ handler, getFieldHandler group.fieldName = some handler ∧
    (group.negate = true ↔ group.matchValues handler ctx = false)

def allGroups (sections : List PolicySection) : List PolicyGroup :=
  sections.flatMap PolicySection.policyGroups

theorem matched_evaluateGroup_iff (group : PolicyGroup) (ctx : EvalContext) :
    (evaluateGroup group ctx).matched = true ↔ group.Holds ctx := by
  unfold evaluateGroup PolicyGroup.Holds
  cases getFieldHandler group.fieldName with
  | none => simp
  | some handler =>
    cases hn : group.negate <;> cases hm : group.matchValues handler ctx <;> simp [hm]

theorem matched_evaluateAll {α : Type*} (evaluate : α → Result) (xs : List α)
    (messages : List String) :
    (evaluateAll evaluate xs messages).matched = xs.all fun x => (evaluate x).matched := by
  induction xs generalizing messages with
  | nil => rfl
  | cons x xs ih =>
    unfold evaluateAll
    cases h : (evaluate x).matched with
    | true => simp [h, ih]
    | false => simp [h]

/-- A policy fires exactly when every group of every section holds. -/
theorem matched_evaluateSections_iff (sections : List PolicySection) (ctx : EvalContext) :
    (evaluateSections sections ctx).matched = true ↔
      ∀ group ∈ allGroups sections, group.Holds ctx := by
  simp only [evaluateSections, evaluateSection, matched_evaluateAll, List.all_eq_true,
    matched_evaluateGroup_iff, allGroups, List.mem_flatMap]
  constructor
  · rintro h group ⟨s, hs, hg⟩
    exact h s hs group hg
  · exact fun h s hs group hg => h group ⟨s, hs, hg⟩

def podFields : List String :=
  ["Privileged Container", "Image Tag", "Container CPU Limit", "Container Memory Limit",
    "Host Network"]

/-- The fields about data that the context of a subject does not carry. -/
def Subject.lacks : Subject → String → Bool
  | .pod _ _, field => field == "Port" || field == "Process Name"
  | .process _ _, field => podFields.contains field || field == "Port"
  | .network _ _, field => podFields.contains field || field == "Process Name"

private theorem podField_handler {ctx : EvalContext} (hctx : ctx.podSpec = none) {field : String}
    (h : podFields.contains field = true) :
    ∃ handler, getFieldHandler field = some handler ∧ ∀ values, handler ctx values = false := by
  simp only [podFields, List.contains_iff_mem, List.mem_cons, List.not_mem_nil, or_false] at h
  rcases h with rfl | rfl | rfl | rfl | rfl
  · exact ⟨_, rfl, fun _ => by simp [fieldPrivilegedContainer, hctx]⟩
  · exact ⟨_, rfl, fun _ => by simp [fieldImageTag, hctx]⟩
  · exact ⟨_, rfl, fun _ => by simp [fieldContainerCPULimit, fieldContainerLimit, hctx]⟩
  · exact ⟨_, rfl, fun _ => by simp [fieldContainerMemoryLimit, fieldContainerLimit, hctx]⟩
  · exact ⟨_, rfl, fun _ => by simp [fieldHostNetwork, hctx]⟩

/-- Every handler answers absent data with `false`. -/
theorem handler_of_lacks (subject : Subject) {field : String} (h : subject.lacks field = true) :
    ∃ handler, getFieldHandler field = some handler ∧
      ∀ values, handler subject.context values = false := by
  have hport (ctx : EvalContext) (hctx : ctx.dstPort = 0) :
      ∃ handler, getFieldHandler "Port" = some handler ∧ ∀ values, handler ctx values = false :=
    ⟨_, rfl, fun _ => by simp [fieldPort, hctx]⟩
  have hprocess (ctx : EvalContext) (hctx : ctx.executable = "") :
      ∃ handler, getFieldHandler "Process Name" = some handler ∧
        ∀ values, handler ctx values = false :=
    ⟨_, rfl, fun _ => by simp [fieldProcessName, hctx]⟩
  cases subject with
  | pod podSpec ns =>
    simp only [Subject.lacks, Bool.or_eq_true, beq_iff_eq] at h
    rcases h with rfl | rfl
    · exact hport _ rfl
    · exact hprocess _ rfl
  | process processName executable =>
    simp only [Subject.lacks, Bool.or_eq_true, beq_iff_eq] at h
    rcases h with h | rfl
    · exact podField_handler rfl h
    · exact hport _ rfl
  | network dstPort eventType =>
    simp only [Subject.lacks, Bool.or_eq_true, beq_iff_eq] at h
    rcases h with h | rfl
    · exact podField_handler rfl h
    · exact hprocess _ rfl

private theorem matchValues_of_false (group : PolicyGroup) {handler : FieldHandler}
    {ctx : EvalContext} (h : ∀ values, handler ctx values = false) :
    group.matchValues handler ctx = false := by
  unfold PolicyGroup.matchValues
  cases hv : group.values with
  | nil => simp [h]
  | cons v values => split_ifs <;> simp_all

/-- A group about absent data holds exactly when it is negated. -/
theorem holds_iff_of_lacks (subject : Subject) (group : PolicyGroup)
    (h : subject.lacks group.fieldName = true) :
    group.Holds subject.context ↔ group.negate = true := by
  obtain ⟨handler, hget, hfalse⟩ := handler_of_lacks subject h
  have hm := matchValues_of_false group hfalse
  constructor
  · intro he
    obtain ⟨handler', hget', hiff⟩ := he
    rw [hget] at hget'
    cases Option.some.inj hget'
    exact hiff.mpr hm
  · exact fun hn => ⟨handler, hget, by simp [hn, hm]⟩

/-- A policy stays silent exactly when a criterion about absent data is not negated or a
criterion about present data fails. -/
theorem absent_data_silent_iff (subject : Subject) (sections : List PolicySection) :
    (evaluateSections sections subject.context).matched = false ↔
      (∃ group ∈ allGroups sections,
        subject.lacks group.fieldName = true ∧ group.negate = false) ∨
      ∃ group ∈ allGroups sections,
        subject.lacks group.fieldName = false ∧ ¬ group.Holds subject.context := by
  rw [← Bool.not_eq_true, matched_evaluateSections_iff]
  constructor
  · intro hno
    simp only [not_forall] at hno
    obtain ⟨group, hg, hfail⟩ := hno
    cases hl : subject.lacks group.fieldName with
    | true =>
      rw [holds_iff_of_lacks subject group hl] at hfail
      exact Or.inl ⟨group, hg, hl, by simpa using hfail⟩
    | false => exact Or.inr ⟨group, hg, hl, hfail⟩
  · rintro (⟨group, hg, hl, hn⟩ | ⟨group, hg, _, hfail⟩) hall
    · have hneg := (holds_iff_of_lacks subject group hl).mp (hall group hg)
      rw [hn] at hneg
      exact Bool.noConfusion hneg
    · exact hfail (hall group hg)

def unaryPolicy (fieldName : String) (negate : Bool) : List PolicySection :=
  [⟨[⟨fieldName, .unset, negate, []⟩]⟩]

/-- A process event carries no pod, yet the criterion that no container is privileged fires. -/
theorem absent_data_fires_unaryPolicy :
    (∃ group ∈ allGroups (unaryPolicy "Privileged Container" true),
      (Subject.process "sh" "/bin/sh").lacks group.fieldName = true) ∧
    (evaluateSections (unaryPolicy "Privileged Container" true)
      (Subject.process "sh" "/bin/sh").context).matched = true := by
  refine ⟨⟨⟨"Privileged Container", .unset, true, []⟩, by decide, by decide⟩, ?_⟩
  rfl

end AcsNext.Policy
