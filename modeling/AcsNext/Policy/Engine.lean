import AcsNext.Data.AssocMap
import AcsNext.Policy.Evaluator

/-! The policy engine: the two stores of policies, the operations of the informers on them,
and the evaluation of pods and runtime events. -/
namespace AcsNext.Policy
open AcsNext.Data

inductive LifecycleStage where
  | deploy
  | runtime
deriving DecidableEq, Repr

/-- The fields of a policy that evaluation reads; both kinds of policies have them. -/
structure PolicySpec where
  policyName : String
  severity : String
  disabled : Bool
  lifecycleStages : List LifecycleStage
  policySections : List PolicySection
deriving DecidableEq, Repr

structure ClusterStackroxPolicy where
  name : String
  spec : PolicySpec
deriving DecidableEq, Repr

structure StackroxPolicy where
  ns : String
  name : String
  spec : PolicySpec
deriving DecidableEq, Repr

structure Violation where
  policyName : String
  message : String
  severity : String
deriving DecidableEq, Repr

structure ContainerInfo where
  ns : String
  pod : String
deriving DecidableEq, Repr

structure ProcessEvent where
  container : ContainerInfo
  processName : String
  executable : String
deriving DecidableEq, Repr

structure NetworkEvent where
  container : ContainerInfo
  dstPort : ℤ
  eventType : String
deriving DecidableEq, Repr

/-- `nsPolicies` maps a namespace to its policies by name. -/
structure Engine where
  clusterPolicies : AssocMap String ClusterStackroxPolicy
  nsPolicies : AssocMap String (AssocMap String StackroxPolicy)

namespace Engine

def new : Engine := ⟨∅, ∅⟩

def setClusterPolicy (e : Engine) (p : ClusterStackroxPolicy) : Engine :=
  { e with clusterPolicies := e.clusterPolicies.assign p.name p }

def deleteClusterPolicy (e : Engine) (name : String) : Engine :=
  { e with clusterPolicies := e.clusterPolicies.erase name }

/-- The map of a namespace is made when its first policy arrives. -/
def setNamespacedPolicy (e : Engine) (p : StackroxPolicy) : Engine :=
  let inner := (e.nsPolicies.find? p.ns).getD ∅
  { e with nsPolicies := e.nsPolicies.assign p.ns (inner.assign p.name p) }

def deleteNamespacedPolicy (e : Engine) (ns name : String) : Engine :=
  match e.nsPolicies.find? ns with
  | none => e
  | some inner => { e with nsPolicies := e.nsPolicies.assign ns (inner.erase name) }

end Engine

inductive PolicyOp where
  | setCluster (p : ClusterStackroxPolicy)
  | deleteCluster (name : String)
  | setNamespaced (p : StackroxPolicy)
  | deleteNamespaced (ns name : String)
deriving DecidableEq, Repr

def Engine.apply (e : Engine) : PolicyOp → Engine
  | .setCluster p => e.setClusterPolicy p
  | .deleteCluster name => e.deleteClusterPolicy name
  | .setNamespaced p => e.setNamespacedPolicy p
  | .deleteNamespaced ns name => e.deleteNamespacedPolicy ns name

def Engine.run (ops : List PolicyOp) : Engine := ops.foldl Engine.apply .new

/-- The order in which a `range` loop visits the values of each map. -/
structure MapOrder where
  values : {V : Type} → AssocMap String V → List V
  perm : ∀ {V : Type} (m : AssocMap String V), (values m).Perm (m.entries.map Prod.snd)

def MapOrder.stored : MapOrder := ⟨fun m => m.entries.map Prod.snd, fun _ => .refl _⟩

def shouldApplyToAdmissionControl (lifecycleStages : List LifecycleStage) : Bool :=
  lifecycleStages.any fun stage => stage == .deploy

def shouldApplyToSensor (lifecycleStages : List LifecycleStage) : Bool :=
  lifecycleStages.any fun stage => stage == .runtime

def severityToLower (severity : String) : String :=
  match severity with
  | "CRITICAL_SEVERITY" => "critical"
  | "HIGH_SEVERITY" => "high"
  | "MEDIUM_SEVERITY" => "medium"
  | "LOW_SEVERITY" => "low"
  | _ => "unset"

/-- The body of an evaluation loop: the policy is skipped or yields at most one violation. -/
def evaluatePolicy (shouldApply : List LifecycleStage → Bool) (ctx : EvalContext)
    (message : PolicySpec → Result → String) (spec : PolicySpec) : Option Violation :=
  if spec.disabled then none
  else if !shouldApply spec.lifecycleStages then none
  else
    let result := evaluateSections spec.policySections ctx
    if result.matched then
      some ⟨spec.policyName, message spec result, severityToLower spec.severity⟩
    else none

def admissionMessage (spec : PolicySpec) (result : Result) : String :=
  spec.policyName ++ ": " ++ "; ".intercalate result.messages

def processMessage (event : ProcessEvent) (spec : PolicySpec) (_ : Result) : String :=
  spec.policyName ++ " in container " ++ event.container.ns ++ "/" ++ event.container.pod

def networkMessage (event : NetworkEvent) (spec : PolicySpec) (_ : Result) : String :=
  spec.policyName ++ " on port " ++ toString event.dstPort ++ " in container " ++
    event.container.ns ++ "/" ++ event.container.pod

namespace Engine

variable (order : MapOrder) (e : Engine)

def evaluateAdmission (podSpec : PodSpec) (ns : String) : List Violation :=
  let evaluate := evaluatePolicy shouldApplyToAdmissionControl (Subject.pod podSpec ns).context
    admissionMessage
  let violations := (order.values e.clusterPolicies).filterMap fun p => evaluate p.spec
  match e.nsPolicies.find? ns with
  | none => violations
  | some nsPolicies => violations ++ (order.values nsPolicies).filterMap fun p => evaluate p.spec

def evaluateProcessEvent (event : ProcessEvent) : List Violation :=
  (order.values e.clusterPolicies).filterMap fun p =>
    evaluatePolicy shouldApplyToSensor (Subject.process event.processName event.executable).context
      (processMessage event) p.spec

def evaluateNetworkEvent (event : NetworkEvent) : List Violation :=
  if event.eventType ≠ "ACCEPT" then []
  else
    (order.values e.clusterPolicies).filterMap fun p =>
      evaluatePolicy shouldApplyToSensor (Subject.network event.dstPort event.eventType).context
        (networkMessage event) p.spec

end Engine

inductive PolicyKey where
  | cluster (name : String)
  | namespaced (ns name : String)
deriving DecidableEq, Repr

def PolicyOp.key : PolicyOp → PolicyKey
  | .setCluster p => .cluster p.name
  | .deleteCluster name => .cluster name
  | .setNamespaced p => .namespaced p.ns p.name
  | .deleteNamespaced ns name => .namespaced ns name

def PolicyOp.value : PolicyOp → Option PolicySpec
  | .setCluster p => some p.spec
  | .setNamespaced p => some p.spec
  | .deleteCluster _ | .deleteNamespaced _ _ => none

def opsOn (key : PolicyKey) (ops : List PolicyOp) : List PolicyOp :=
  ops.filter fun op => decide (op.key = key)

/-- The version last set under a key and not deleted since. -/
def current (ops : List PolicyOp) (key : PolicyKey) : Option PolicySpec :=
  (opsOn key ops).getLast?.bind PolicyOp.value

def PolicyKey.InScope (ns : String) : PolicyKey → Prop
  | .cluster _ => True
  | .namespaced ns' _ => ns' = ns

/-- The policy is enabled, names the stage, and its sections match. -/
def PolicySpec.Fires (stage : LifecycleStage) (ctx : EvalContext) (spec : PolicySpec) : Prop :=
  spec.disabled = false ∧ stage ∈ spec.lifecycleStages ∧
    (evaluateSections spec.policySections ctx).matched = true

def PolicySpec.violation (ctx : EvalContext) (message : PolicySpec → Result → String)
    (spec : PolicySpec) : Violation :=
  ⟨spec.policyName, message spec (evaluateSections spec.policySections ctx),
    severityToLower spec.severity⟩

/-- The list holds, in some order, exactly one violation for each current policy of the scope
that fires. -/
def ReportsExactly (ops : List PolicyOp) (ns : String) (stage : LifecycleStage)
    (ctx : EvalContext) (message : PolicySpec → Result → String) (violations : List Violation) :
    Prop :=
  ∃ fired : List (PolicyKey × PolicySpec),
    (fired.map Prod.fst).Nodup ∧
    (∀ key spec, (key, spec) ∈ fired ↔
      key.InScope ns ∧ current ops key = some spec ∧ spec.Fires stage ctx) ∧
    violations.Perm (fired.map fun e => e.2.violation ctx message)

end AcsNext.Policy
