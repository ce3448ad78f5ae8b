import AcsNext.Policy.Coverage

/-! The policies that the engine falls back on, and what the one on resource limits enforces. -/
namespace AcsNext.Policy
open AcsNext.Data

def noPrivilegedContainers : ClusterStackroxPolicy :=
  { name := "no-privileged-containers"
    spec :=
      { policyName := "No Privileged Containers"
        severity := "CRITICAL_SEVERITY"
        disabled := false
        lifecycleStages := [.deploy]
        policySections := [⟨[⟨"Privileged Container", .unset, false, []⟩]⟩] } }

def noLatestTag : ClusterStackroxPolicy :=
  { name := "no-latest-tag"
    spec :=
      { policyName := "No Latest Image Tag"
        severity := "HIGH_SEVERITY"
        disabled := false
        lifecycleStages := [.deploy]
        policySections := [⟨[⟨"Image Tag", .unset, false, ["latest"]⟩]⟩] } }

def requireResourceLimits : ClusterStackroxPolicy :=
  { name := "require-resource-limits"
    spec :=
      { policyName := "Require Resource Limits"
        severity := "MEDIUM_SEVERITY"
        disabled := false
        lifecycleStages := [.deploy]
        policySections :=
          [⟨[⟨"Container CPU Limit", .unset, false, []⟩]⟩,
            ⟨[⟨"Container Memory Limit", .unset, false, []⟩]⟩] } }

def noHostNetwork : ClusterStackroxPolicy :=
  { name := "no-host-network"
    spec :=
      { policyName := "No Host Network"
        severity := "HIGH_SEVERITY"
        disabled := false
        lifecycleStages := [.deploy]
        policySections := [⟨[⟨"Host Network", .unset, false, []⟩]⟩] } }

def suspiciousProcess : ClusterStackroxPolicy :=
  { name := "suspicious-process"
    spec :=
      { policyName := "Suspicious Process Execution"
        severity := "HIGH_SEVERITY"
        disabled := false
        lifecycleStages := [.runtime]
        policySections :=
          [⟨[⟨"Process Name", .unset, false,
            ["/bin/bash", "/bin/sh", "/bin/nc", "/usr/bin/curl", "/usr/bin/wget"]⟩]⟩] } }

def sensitivePortListen : ClusterStackroxPolicy :=
  { name := "sensitive-port-listen"
    spec :=
      { policyName := "Sensitive Port Listening"
        severity := "MEDIUM_SEVERITY"
        disabled := false
        lifecycleStages := [.runtime]
        policySections := [⟨[⟨"Port", .unset, false, ["22", "3389", "4444"]⟩]⟩] } }

def defaultPolicies : List ClusterStackroxPolicy :=
  [noPrivilegedContainers, noLatestTag, requireResourceLimits, noHostNetwork, suspiciousProcess,
    sensitivePortListen]

def Engine.loadDefaultPolicies (e : Engine) : Engine :=
  defaultPolicies.foldl Engine.setClusterPolicy e

private theorem find?_foldl_setClusterPolicy {ps : List ClusterStackroxPolicy}
    (hps : (ps.map ClusterStackroxPolicy.name).Nodup) (e : Engine) (p : ClusterStackroxPolicy)
    (h : p ∈ ps ∨ p.name ∉ ps.map ClusterStackroxPolicy.name ∧
      e.clusterPolicies.find? p.name = some p) :
    (ps.foldl Engine.setClusterPolicy e).clusterPolicies.find? p.name = some p := by
  induction ps generalizing e with
  | nil => simpa using h
  | cons q ps ih =>
    obtain ⟨hq, hps⟩ := List.nodup_cons.mp hps
    rw [List.foldl_cons]
    apply ih hps
    simp only [Engine.setClusterPolicy, AssocMap.find?_assign]
    rcases h with hmem | ⟨hname, hfind⟩
    · rcases List.mem_cons.mp hmem with rfl | hmem
      · exact Or.inr ⟨hq, by simp⟩
      · exact Or.inl hmem
    · simp only [List.map_cons, List.mem_cons, not_or] at hname
      have hne : ¬q.name = p.name := fun heq => hname.1 heq.symm
      exact Or.inr ⟨hname.2, by simpa [hne] using hfind⟩

/-- The defaults have different names, so each is held under its own. -/
theorem Engine.find?_loadDefaultPolicies (e : Engine) {p : ClusterStackroxPolicy}
    (hp : p ∈ defaultPolicies) : e.loadDefaultPolicies.clusterPolicies.find? p.name = some p :=
  find?_foldl_setClusterPolicy (by decide) e p (Or.inl hp)

theorem Engine.find?_requireResourceLimits (e : Engine) :
    e.loadDefaultPolicies.clusterPolicies.find? "require-resource-limits" =
      some requireResourceLimits :=
  e.find?_loadDefaultPolicies (p := requireResourceLimits) (by decide)

namespace Engine

/-- Holding the cluster policy adds one violation to those of the other policies. -/
def ReportsViolationOf (order : MapOrder) (e : Engine) (podSpec : PodSpec) (ns name : String) :
    Prop :=
  ∃ v, (e.evaluateAdmission order podSpec ns).Perm
    (v :: (e.deleteClusterPolicy name).evaluateAdmission order podSpec ns)

theorem evaluateAdmission_perm (order : MapOrder) (e : Engine) {name : String}
    {p : ClusterStackroxPolicy} (h : e.clusterPolicies.find? name = some p) (podSpec : PodSpec)
    (ns : String) :
    (e.evaluateAdmission order podSpec ns).Perm
      ((evaluatePolicy shouldApplyToAdmissionControl (Subject.pod podSpec ns).context
          admissionMessage p.spec).toList ++
        (e.deleteClusterPolicy name).evaluateAdmission order podSpec ns) := by
  have hvalues : (order.values e.clusterPolicies).Perm
      (p :: order.values (e.deleteClusterPolicy name).clusterPolicies) :=
    (order.perm _).trans ((e.clusterPolicies.perm_erase h).trans ((order.perm _).symm.cons p))
  have hcluster := hvalues.filterMap fun p => evaluatePolicy shouldApplyToAdmissionControl
    (Subject.pod podSpec ns).context admissionMessage p.spec
  have hcons {α β : Type} (f : α → Option β) (x : α) (l : List α) :
      (x :: l).filterMap f = (f x).toList ++ l.filterMap f := by
    rw [List.filterMap_cons]
    cases f x <;> rfl
  rw [hcons] at hcluster
  have hns : (e.deleteClusterPolicy name).nsPolicies = e.nsPolicies := rfl
  unfold evaluateAdmission
  simp only [hns]
  cases e.nsPolicies.find? ns with
  | none => exact hcluster
  | some nsPolicies =>
    rw [← List.append_assoc]
    exact hcluster.append_right _

theorem reportsViolationOf_iff (order : MapOrder) (e : Engine) {name : String}
    {p : ClusterStackroxPolicy} (h : e.clusterPolicies.find? name = some p) (podSpec : PodSpec)
    (ns : String) :
    e.ReportsViolationOf order podSpec ns name ↔
      p.spec.Fires .deploy (Subject.pod podSpec ns).context := by
  have hperm := e.evaluateAdmission_perm order h podSpec ns
  rw [evaluatePolicy_eq _ _ shouldApplyToAdmissionControl_iff] at hperm
  constructor
  · intro hreports
    obtain ⟨v, hv⟩ := hreports
    by_contra hfires
    rw [if_neg hfires] at hperm
    have hlength := (hv.symm.trans hperm).length_eq
    simp at hlength
  · intro hfires
    rw [if_pos hfires] at hperm
    exact ⟨_, hperm⟩

end Engine

def shippedResourceLimits : List PolicySection :=
  [⟨[⟨"Container CPU Limit", .unset, false, []⟩]⟩,
    ⟨[⟨"Container Memory Limit", .unset, false, []⟩]⟩]

def Container.HasLimit (resource : String) (c : Container) : Prop :=
  ∃ limits, c.limits = some limits ∧ resource ∈ limits

instance (resource : String) (c : Container) : Decidable (c.HasLimit resource) :=
  match h : c.limits with
  | none => isFalse fun ⟨limits, hlimits, _⟩ => by simp [h] at hlimits
  | some limits => decidable_of_iff (resource ∈ limits) (by simp [Container.HasLimit, h])

theorem Container.lacksLimit_iff (resource : String) (c : Container) :
    c.lacksLimit resource = true ↔ ¬c.HasLimit resource := by
  unfold Container.lacksLimit Container.HasLimit
  cases c.limits <;> simp

/-- The sections are a conjunction: a limit of either kind has to be missing somewhere. -/
theorem requireResourceLimits_fires_iff (podSpec : PodSpec) (ns : String) :
    requireResourceLimits.spec.Fires .deploy (Subject.pod podSpec ns).context ↔
      (∃ c ∈ allContainers podSpec, ¬c.HasLimit "cpu") ∧
        ∃ c ∈ allContainers podSpec, ¬c.HasLimit "memory" := by
  have hcpu : getFieldHandler "Container CPU Limit" = some fieldContainerCPULimit := rfl
  have hmemory : getFieldHandler "Container Memory Limit" = some fieldContainerMemoryLimit := rfl
  have hstage : LifecycleStage.deploy ∈ requireResourceLimits.spec.lifecycleStages := by decide
  simp only [PolicySpec.Fires, hstage, matched_evaluateSections_iff]
  simp [requireResourceLimits, allGroups, PolicyGroup.Holds, PolicyGroup.matchValues, hcpu, hmemory,
    fieldContainerCPULimit, fieldContainerMemoryLimit, fieldContainerLimit, Subject.context,
    Container.lacksLimit_iff]

/-- The policy rejects the pods with a container that lacks one of the limits, exactly where
limits of both kinds are missing or of none. -/
theorem resource_limits_enforced_iff (order : MapOrder) (e : Engine)
    (h : e.clusterPolicies.find? "require-resource-limits" = some requireResourceLimits)
    (podSpec : PodSpec) (ns : String) :
    requireResourceLimits.spec.policySections = shippedResourceLimits ∧
    ((e.ReportsViolationOf order podSpec ns "require-resource-limits" ↔
        ∃ c ∈ allContainers podSpec, ¬c.HasLimit "cpu" ∨ ¬c.HasLimit "memory") ↔
      ((∃ c ∈ allContainers podSpec, ¬c.HasLimit "cpu") ↔
        ∃ c ∈ allContainers podSpec, ¬c.HasLimit "memory")) := by
  refine ⟨rfl, ?_⟩
  have hsplit : (∃ c ∈ allContainers podSpec, ¬c.HasLimit "cpu" ∨ ¬c.HasLimit "memory") ↔
      (∃ c ∈ allContainers podSpec, ¬c.HasLimit "cpu") ∨
        ∃ c ∈ allContainers podSpec, ¬c.HasLimit "memory" := by
    simp only [and_or_left, exists_or]
  have hboth (p q : Prop) : (p ∧ q ↔ p ∨ q) ↔ (p ↔ q) := by
    by_cases hp : p
    · simp [hp]
    · simp [hp]
  rw [e.reportsViolationOf_iff order h, requireResourceLimits_fires_iff, hsplit]
  exact hboth _ _

def limitedPod (limits : List String) : PodSpec :=
  { initContainers := []
    containers := [⟨"nginx:1.25", none, some limits⟩]
    hostNetwork := false }

theorem resource_limits_enforced_unlimited :
    Engine.new.loadDefaultPolicies.ReportsViolationOf .stored (limitedPod []) "default"
      "require-resource-limits" := by
  have hheld := Engine.new.find?_requireResourceLimits
  have henforced := (resource_limits_enforced_iff .stored _ hheld (limitedPod []) "default").2
  exact (henforced.mpr (by decide)).mpr (by decide)

/-- A container with a CPU limit alone is let in. -/
theorem resource_limits_miss_memory :
    ¬(Engine.new.loadDefaultPolicies.ReportsViolationOf .stored (limitedPod ["cpu"]) "default"
        "require-resource-limits" ↔
      ∃ c ∈ allContainers (limitedPod ["cpu"]), ¬c.HasLimit "cpu" ∨ ¬c.HasLimit "memory") := by
  have hheld := Engine.new.find?_requireResourceLimits
  have hlacks : ∃ c ∈ allContainers (limitedPod ["cpu"]),
      ¬c.HasLimit "cpu" ∨ ¬c.HasLimit "memory" := by decide
  intro hiff
  have hreported := hiff.mpr hlacks
  rw [Engine.reportsViolationOf_iff .stored _ hheld, requireResourceLimits_fires_iff] at hreported
  exact absurd hreported.1 (by decide)

end AcsNext.Policy
