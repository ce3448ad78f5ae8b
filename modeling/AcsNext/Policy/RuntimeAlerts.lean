import AcsNext.Policy.AdmissionController

/-! What becomes of runtime events: the alerts of the two programs that consume them, and the
annotation of the pod. -/
namespace AcsNext.Policy
open AcsNext.Data

/-- The engine of the runtime evaluator holds cluster policies only. -/
structure RuntimeEngine where
  clusterPolicies : AssocMap String ClusterStackroxPolicy

namespace RuntimeEngine

def new : RuntimeEngine := ⟨∅⟩

def setClusterPolicy (e : RuntimeEngine) (p : ClusterStackroxPolicy) : RuntimeEngine :=
  ⟨e.clusterPolicies.assign p.name p⟩

def deleteClusterPolicy (e : RuntimeEngine) (name : String) : RuntimeEngine :=
  ⟨e.clusterPolicies.erase name⟩

def evaluateProcessEvent (order : MapOrder) (e : RuntimeEngine) (event : ProcessEvent) :
    List Violation :=
  (order.values e.clusterPolicies).filterMap fun p =>
    evaluatePolicy shouldApplyToSensor (Subject.process event.processName event.executable).context
      (processMessage event) p.spec

def evaluateNetworkEvent (order : MapOrder) (e : RuntimeEngine) (event : NetworkEvent) :
    List Violation :=
  if event.eventType ≠ "ACCEPT" then []
  else
    (order.values e.clusterPolicies).filterMap fun p =>
      evaluatePolicy shouldApplyToSensor (Subject.network event.dstPort event.eventType).context
        (networkMessage event) p.spec

/-- The evaluator has the two runtime policies among the defaults of the admission controller. -/
def loadDefaultPolicies (e : RuntimeEngine) : RuntimeEngine :=
  [suspiciousProcess, sensitivePortListen].foldl setClusterPolicy e

variable {C : Type} (conv : Converter C)

def notify (e : RuntimeEngine) : Notification C → RuntimeEngine
  | .add obj => (conv.convertToClusterPolicy obj).elim e e.setClusterPolicy
  | .update _ newObj => (conv.convertToClusterPolicy newObj).elim e e.setClusterPolicy
  | .delete obj =>
    (conv.convertToClusterPolicy obj).elim e fun p => e.deleteClusterPolicy p.name

def run (crdAvailable : Bool) (notes : List (Notification C)) : RuntimeEngine :=
  notes.foldl (notify conv) (if crdAvailable then .new else RuntimeEngine.new.loadDefaultPolicies)

end RuntimeEngine

/-- The fields of an event's container that only its alert carries. -/
structure ContainerLabels where
  name : String
  image : String
deriving DecidableEq, Repr

/-- The decoding of a message, of one kind for each of the two streams. -/
structure EventDecoder (M : Type) where
  process : M → Option (ProcessEvent × ContainerLabels)
  network : M → Option (NetworkEvent × ContainerLabels)

inductive EventStream where
  | process
  | network
deriving DecidableEq, Repr

def runtimeContext (container : ContainerInfo) (labels : ContainerLabels) :
    List (String × String) :=
  [("namespace", container.ns), ("pod", container.pod), ("container", labels.name),
    ("image", labels.image)]

/-- A violation as it is enforced: the patch of the pod, if there is a client and the event
names a pod, with the value it has for the annotation and whether the API server applied it; and
the alert. -/
structure Enforcement where
  patch : Option (String × Bool)
  alert : Alert
deriving DecidableEq, Repr

/-- The client is given by the answers of the API server. A patch that fails is logged, and the
alert is published all the same. -/
def enforce (k8s : Option (String → Bool)) (v : Violation) (container : ContainerInfo)
    (labels : ContainerLabels) : Enforcement where
  patch :=
    match k8s with
    | none => none
    | some applies =>
      if container.ns != "" && container.pod != "" then
        let value := v.policyName ++ ": " ++ v.message
        some (value, applies value)
      else none
  alert := alertOf "runtime" v (runtimeContext container labels)

/-- The loop over the violations of one message; the answer to a patch may depend on when it is
made. -/
def enforceAll (k8s : Option (ℕ → String → Bool)) (violations : List Violation)
    (container : ContainerInfo) (labels : ContainerLabels) : List Enforcement :=
  violations.mapIdx fun i v => enforce (k8s.map fun answers => answers i) v container labels

section Handlers

variable {M : Type} (decoder : EventDecoder M) (order : MapOrder)

/-- The handlers of the admission controller's subscriber; a message that is not decoded is
dropped. -/
def Engine.handleMessage (k8s : Option (ℕ → String → Bool)) (e : Engine) (stream : EventStream)
    (msg : M) : List Enforcement :=
  match stream with
  | .process =>
    match decoder.process msg with
    | none => []
    | some (event, labels) =>
      enforceAll k8s (e.evaluateProcessEvent order event) event.container labels
  | .network =>
    match decoder.network msg with
    | none => []
    | some (event, labels) =>
      enforceAll k8s (e.evaluateNetworkEvent order event) event.container labels

/-- The handlers of the runtime evaluator's subscriber, which publishes alerts only. -/
def RuntimeEngine.handleMessage (e : RuntimeEngine) (stream : EventStream) (msg : M) :
    List Alert :=
  match stream with
  | .process =>
    match decoder.process msg with
    | none => []
    | some (event, labels) =>
      (e.evaluateProcessEvent order event).map fun v =>
        alertOf "runtime" v (runtimeContext event.container labels)
  | .network =>
    match decoder.network msg with
    | none => []
    | some (event, labels) =>
      (e.evaluateNetworkEvent order event).map fun v =>
        alertOf "runtime" v (runtimeContext event.container labels)

end Handlers

/-- The evaluator holds what the controller holds, but for policies that runtime events skip. -/
def Agree (e : Engine) (r : RuntimeEngine) : Prop :=
  ∀ name, r.clusterPolicies.find? name = e.clusterPolicies.find? name ∨
    r.clusterPolicies.find? name = none ∧ ∃ p, e.clusterPolicies.find? name = some p ∧
      shouldApplyToSensor p.spec.lifecycleStages = false

theorem Agree.set {e : Engine} {r : RuntimeEngine} (h : Agree e r) (p : ClusterStackroxPolicy) :
    Agree (e.setClusterPolicy p) (r.setClusterPolicy p) := by
  intro name
  unfold Engine.setClusterPolicy RuntimeEngine.setClusterPolicy
  simp only [AssocMap.find?_assign]
  by_cases hname : (p.name == name) = true
  · simp only [hname, if_true, true_or]
  · simpa only [hname, if_false, Bool.false_eq_true] using h name

theorem Agree.delete {e : Engine} {r : RuntimeEngine} (h : Agree e r) (deleted : String) :
    Agree (e.deleteClusterPolicy deleted) (r.deleteClusterPolicy deleted) := by
  intro name
  unfold Engine.deleteClusterPolicy RuntimeEngine.deleteClusterPolicy
  simp only [AssocMap.find?_erase]
  by_cases hname : (deleted == name) = true
  · simp only [hname, if_true, true_or]
  · simpa only [hname, if_false, Bool.false_eq_true] using h name

theorem Agree.setSkipped {e : Engine} {r : RuntimeEngine} (h : Agree e r)
    (p : ClusterStackroxPolicy) (hnone : r.clusterPolicies.find? p.name = none)
    (hskip : shouldApplyToSensor p.spec.lifecycleStages = false) :
    Agree (e.setClusterPolicy p) r := by
  intro name
  unfold Engine.setClusterPolicy
  simp only [AssocMap.find?_assign]
  by_cases hname : p.name = name
  · rw [← hname]
    exact Or.inr ⟨hnone, p, by simp, hskip⟩
  · simpa [hname] using h name

theorem agree_start (crdAvailable : Bool) :
    Agree (Controller.start crdAvailable).engine
      (if crdAvailable then .new else RuntimeEngine.new.loadDefaultPolicies) := by
  have hnew : Agree .new .new := fun _ => Or.inl rfl
  cases crdAvailable with
  | true => exact hnew
  | false =>
    -- the four deploy policies come first, while the evaluator is still empty
    have hdeploy := (((hnew.setSkipped noPrivilegedContainers rfl rfl).setSkipped noLatestTag rfl
      rfl).setSkipped requireResourceLimits rfl rfl).setSkipped noHostNetwork rfl rfl
    exact (hdeploy.set suspiciousProcess).set sensitivePortListen

/-- Engines that agree report the same violations, each in its own order. -/
theorem Agree.perm {e : Engine} {r : RuntimeEngine} (h : Agree e r) (order order' : MapOrder)
    (ctx : EvalContext) (message : PolicySpec → Result → String) :
    ((order.values e.clusterPolicies).filterMap fun p =>
        evaluatePolicy shouldApplyToSensor ctx message p.spec).Perm
      ((order'.values r.clusterPolicies).filterMap fun p =>
        evaluatePolicy shouldApplyToSensor ctx message p.spec) := by
  have hkey : Function.Injective PolicyKey.cluster := fun _ _ heq => by simpa using heq
  have hfired : (firedIn .runtime ctx ClusterStackroxPolicy.spec .cluster
      e.clusterPolicies).Perm
      (firedIn .runtime ctx ClusterStackroxPolicy.spec .cluster r.clusterPolicies) := by
    refine (List.perm_ext_iff_of_nodup (nodup_firedIn _ _ _ hkey _).of_map
      (nodup_firedIn _ _ _ hkey _).of_map).mpr ?_
    intro fired
    obtain ⟨key, spec⟩ := fired
    rw [mem_firedIn, mem_firedIn]
    refine exists_congr fun name => and_congr_right fun _ => and_congr_left fun hfires => ?_
    rcases h name with hsame | ⟨hnone, p, hp, hskip⟩
    · rw [hsame]
    · rw [hnone, hp]
      constructor
      · intro hspec
        have heq : p.spec = spec := Option.some.inj hspec
        rw [heq, (shouldApplyToSensor_iff _).mpr hfires.2.1] at hskip
        cases hskip
      · intro hspec
        cases hspec
  refine (perm_firedIn _ _ _ _ shouldApplyToSensor_iff order _).trans ((hfired.map _).trans ?_)
  exact (perm_firedIn _ _ _ _ shouldApplyToSensor_iff order' _).symm

section Runs

variable {C B R : Type} {conv : Converter C} {http : Decoder B R} {alertPub crdAvailable : Bool}

/-- What the evaluator's informer delivers of the events of the controller. -/
def clusterNotes : List (ControllerEvent C B) → List (Notification C)
  | [] => []
  | .cluster note :: es => note :: clusterNotes es
  | .namespaced _ :: es => clusterNotes es
  | .request _ _ :: es => clusterNotes es

theorem clusterNotes_append (es es' : List (ControllerEvent C B)) :
    clusterNotes (es ++ es') = clusterNotes es ++ clusterNotes es' := by
  induction es with
  | nil => rfl
  | cons e es ih => cases e <;> simp [clusterNotes, ih]

theorem Agree.notify {e : Engine} {r : RuntimeEngine} (h : Agree e r) (note : Notification C) :
    Agree ((conv.clusterInformer note).elim e e.apply) (r.notify conv note) := by
  have hset (obj : Option ClusterStackroxPolicy) :
      Agree ((obj.map PolicyOp.setCluster).elim e e.apply) (obj.elim r r.setClusterPolicy) := by
    cases obj with
    | none => exact h
    | some p => exact h.set p
  have hdelete (obj : Option ClusterStackroxPolicy) :
      Agree ((obj.map fun p => PolicyOp.deleteCluster p.name).elim e e.apply)
        (obj.elim r fun p => r.deleteClusterPolicy p.name) := by
    cases obj with
    | none => exact h
    | some p => exact h.delete p.name
  cases note with
  | add obj => exact hset _
  | update oldObj newObj => exact hset _
  | delete obj => exact hdelete _

/-- The informer of namespaced policies leaves the cluster policies alone. -/
theorem clusterPolicies_nsInformer (conv : Converter C) (e : Engine) (note : Notification C) :
    ((conv.nsInformer note).elim e e.apply).clusterPolicies = e.clusterPolicies := by
  have hset (obj : Option StackroxPolicy) :
      ((obj.map PolicyOp.setNamespaced).elim e e.apply).clusterPolicies = e.clusterPolicies := by
    cases obj <;> rfl
  have hdelete (obj : Option StackroxPolicy) :
      ((obj.map fun p => PolicyOp.deleteNamespaced p.ns p.name).elim e e.apply).clusterPolicies =
        e.clusterPolicies := by
    cases obj with
    | none => rfl
    | some p =>
      change (e.deleteNamespacedPolicy p.ns p.name).clusterPolicies = e.clusterPolicies
      unfold Engine.deleteNamespacedPolicy
      cases e.nsPolicies.find? p.ns <;> rfl
  cases note with
  | add obj => exact hset _
  | update oldObj newObj => exact hset _
  | delete obj => exact hdelete _

theorem agree_run (conv : Converter C) (http : Decoder B R) (alertPub crdAvailable : Bool)
    (es : List (ControllerEvent C B)) :
    Agree (Controller.run conv http alertPub crdAvailable es).engine
      (RuntimeEngine.run conv crdAvailable (clusterNotes es)) := by
  induction es using List.reverseRecOn with
  | nil => exact agree_start crdAvailable
  | append_singleton es e ih =>
    rw [Controller.run_append, clusterNotes_append]
    cases e with
    | cluster note =>
      rw [RuntimeEngine.run, List.foldl_append]
      exact ih.notify note
    | namespaced note =>
      rw [clusterNotes, clusterNotes, List.append_nil]
      intro name
      have hname := ih name
      rw [← clusterPolicies_nsInformer conv _ note] at hname
      exact hname
    | request order r =>
      rw [clusterNotes, clusterNotes, List.append_nil]
      exact ih

theorem map_alert_enforceAll (k8s : Option (ℕ → String → Bool)) (violations : List Violation)
    (container : ContainerInfo) (labels : ContainerLabels) :
    (enforceAll k8s violations container labels).map Enforcement.alert =
      violations.map fun v => alertOf "runtime" v (runtimeContext container labels) := by
  apply List.ext_getElem
  · simp [enforceAll]
  · simp [enforceAll, enforce]

/-- In every run, whatever the map orders and whether the defaults are loaded or not, the two
programs answer a message with the same alerts, so that one that both consume is alerted twice. -/
theorem alerts_agree {M : Type} (conv : Converter C) (http : Decoder B R)
    (alertPub crdAvailable : Bool) (es : List (ControllerEvent C B)) (decoder : EventDecoder M)
    (order order' : MapOrder) (k8s : Option (ℕ → String → Bool)) (stream : EventStream)
    (msg : M) :
    (((Controller.run conv http alertPub crdAvailable es).engine.handleMessage decoder order k8s
        stream msg).map Enforcement.alert).Perm
      ((RuntimeEngine.run conv crdAvailable (clusterNotes es)).handleMessage decoder order'
        stream msg) := by
  have hagree := agree_run conv http alertPub crdAvailable es
  unfold Engine.handleMessage RuntimeEngine.handleMessage
  cases stream with
  | process =>
    cases decoder.process msg with
    | none => exact List.Perm.refl _
    | some event =>
      have hperm := hagree.perm order order'
        (Subject.process event.1.processName event.1.executable).context (processMessage event.1)
      simpa [map_alert_enforceAll, Engine.evaluateProcessEvent,
        RuntimeEngine.evaluateProcessEvent] using hperm.map fun v =>
        alertOf "runtime" v (runtimeContext event.1.container event.2)
  | network =>
    cases decoder.network msg with
    | none => exact List.Perm.refl _
    | some event =>
      have hperm := hagree.perm order order'
        (Subject.network event.1.dstPort event.1.eventType).context (networkMessage event.1)
      by_cases haccept : event.1.eventType = "ACCEPT"
      · simpa [map_alert_enforceAll, Engine.evaluateNetworkEvent,
          RuntimeEngine.evaluateNetworkEvent, haccept] using hperm.map fun v =>
          alertOf "runtime" v (runtimeContext event.1.container event.2)
      · simp [map_alert_enforceAll, Engine.evaluateNetworkEvent,
          RuntimeEngine.evaluateNetworkEvent, haccept]

end Runs

def Enforcement.applied (f : Enforcement) : Option String :=
  match f.patch with
  | some (value, true) => some value
  | _ => none

/-- The annotation after the patches of one message: each that is applied replaces the value. -/
def annotationAfter (before : Option String) (enforcements : List Enforcement) : Option String :=
  enforcements.foldl (fun value f => f.applied <|> value) before

theorem annotationAfter_append (before : Option String) (l : List Enforcement) (f : Enforcement) :
    annotationAfter before (l ++ [f]) = (f.applied <|> annotationAfter before l) := by
  simp [annotationAfter]

theorem annotationAfter_eq (before : Option String) (l : List Enforcement) :
    annotationAfter before l = ((l.filterMap Enforcement.applied).getLast?).or before := by
  induction l using List.reverseRecOn with
  | nil => rfl
  | append_singleton l f ih =>
    rw [annotationAfter_append, ih, List.filterMap_append]
    cases hf : f.applied <;> simp [hf]

section Patch

variable (applies : String → Bool) (v : Violation) (container : ContainerInfo)
  (labels : ContainerLabels) (value : String)

/-- What the pod is to be annotated with does not depend on the API server. -/
theorem patch_enforce_iff :
    (enforce (some applies) v container labels).patch.map Prod.fst = some value ↔
      (container.ns != "" && container.pod != "") = true ∧
        v.policyName ++ ": " ++ v.message = value := by
  unfold enforce
  by_cases hpod : (container.ns != "" && container.pod != "") = true
  · simp only [hpod, if_true, Option.map_some, Option.some.injEq, true_and]
  · simp [hpod]

theorem applied_enforce_iff :
    (enforce (some applies) v container labels).applied = some value ↔
      (enforce (some applies) v container labels).patch.map Prod.fst = some value ∧
        applies value = true := by
  rw [patch_enforce_iff]
  unfold Enforcement.applied enforce
  by_cases hpod : (container.ns != "" && container.pod != "") = true
  · simp only [hpod, if_true, true_and]
    cases happlies : applies (v.policyName ++ ": " ++ v.message) with
    | true =>
      simp only [Option.some.injEq, iff_self_and]
      intro heq
      rw [← heq, happlies]
    | false =>
      simp only [reduceCtorEq, false_iff, not_and]
      intro heq
      rw [← heq, happlies]
      exact Bool.false_ne_true
  · simp [hpod]

end Patch

/-- The loops over the policies visit them from another starting point. -/
def MapOrder.rotated (k : ℕ) : MapOrder :=
  ⟨fun m => (m.entries.map Prod.snd).rotate k, fun _ => List.rotate_perm _ _⟩

section Annotation

variable {M : Type} (decoder : EventDecoder M) (k8s : Option (ℕ → String → Bool)) (e : Engine)
  (stream : EventStream) (msg : M)

/-- A message is handled by one loop over the cluster policies. -/
theorem handleMessage_eq_enforceAll :
    ∃ (g : ClusterStackroxPolicy → Option Violation) (container : ContainerInfo)
      (labels : ContainerLabels), ∀ order, e.handleMessage decoder order k8s stream msg =
        enforceAll k8s ((order.values e.clusterPolicies).filterMap g) container labels := by
  have hnone : ∃ (g : ClusterStackroxPolicy → Option Violation) (container : ContainerInfo)
      (labels : ContainerLabels), ∀ order : MapOrder, ([] : List Enforcement) =
        enforceAll k8s ((order.values e.clusterPolicies).filterMap g) container labels :=
    ⟨fun _ => none, ⟨"", ""⟩, ⟨"", ""⟩, by simp [enforceAll]⟩
  unfold Engine.handleMessage
  cases stream with
  | process =>
    cases decoder.process msg with
    | none => exact hnone
    | some event => exact ⟨_, event.1.container, event.2, fun order => rfl⟩
  | network =>
    cases decoder.network msg with
    | none => exact hnone
    | some event =>
      unfold Engine.evaluateNetworkEvent
      by_cases haccept : event.1.eventType = "ACCEPT"
      · simp only [haccept, ne_eq, not_true_eq_false, if_false]
        exact ⟨_, event.1.container, event.2, fun order => rfl⟩
      · simpa [haccept, enforceAll] using hnone

/-- Any policy can be the last one of the loop. -/
theorem exists_order_last {p : ClusterStackroxPolicy} (m : AssocMap String ClusterStackroxPolicy)
    (hp : p ∈ m.entries.map Prod.snd) :
    ∃ (order : MapOrder) (init : List ClusterStackroxPolicy), order.values m = init ++ [p] := by
  obtain ⟨before, after, hsplit⟩ := List.append_of_mem hp
  refine ⟨.rotated (before.length + 1), after ++ before, ?_⟩
  change (m.entries.map Prod.snd).rotate _ = _
  have hassoc : before ++ p :: after = (before ++ [p]) ++ after := by simp
  rw [hsplit, hassoc, List.append_assoc after before [p]]
  simpa using List.rotate_append_length_eq (before ++ [p]) after

theorem exists_order_violation_last {g : ClusterStackroxPolicy → Option Violation}
    {m : AssocMap String ClusterStackroxPolicy} {order : MapOrder} {v : Violation}
    (hv : v ∈ (order.values m).filterMap g) :
    ∃ (order' : MapOrder) (init : List Violation),
      (order'.values m).filterMap g = init ++ [v] ∧
        ((order.values m).filterMap g).length = init.length + 1 := by
  obtain ⟨p, hp, hg⟩ := List.mem_filterMap.mp hv
  obtain ⟨order', init, hlast⟩ := exists_order_last m ((order.perm m).subset hp)
  have hviolations : (order'.values m).filterMap g = init.filterMap g ++ [v] := by
    rw [hlast, List.filterMap_append]
    simp [hg]
  refine ⟨order', init.filterMap g, hviolations, ?_⟩
  have hperm := ((order.perm m).trans (order'.perm m).symm).filterMap g
  rw [hperm.length_eq, hviolations, List.length_append, List.length_singleton]

/-- Each patch replaces the annotation, so the pod keeps the text of a single violation: in every
order of the policies that of the last one whose patch is applied. Any violation can be the last
one of the message and is kept in some order if it is applied there, and in none if it never is. -/
theorem annotation_by_order (answers : ℕ → String → Bool) (before : Option String) :
    (∀ order, annotationAfter before (e.handleMessage decoder order (some answers) stream msg) =
      (((e.handleMessage decoder order (some answers) stream msg).filterMap
        Enforcement.applied).getLast?).or before) ∧
    (∀ order, ∀ f ∈ e.handleMessage decoder order (some answers) stream msg, ∀ value,
      f.patch.map Prod.fst = some value →
      answers ((e.handleMessage decoder order (some answers) stream msg).length - 1) value = true →
        ∃ order', annotationAfter before
          (e.handleMessage decoder order' (some answers) stream msg) = some value) ∧
    ∀ value, (∀ i, answers i value = false) → before ≠ some value →
      ∀ order, annotationAfter before (e.handleMessage decoder order (some answers) stream msg) ≠
        some value := by
  obtain ⟨g, container, labels, hloop⟩ :=
    handleMessage_eq_enforceAll decoder (some answers) e stream msg
  simp only [hloop]
  refine ⟨fun order => annotationAfter_eq before _, ?_, ?_⟩
  · intro order f hf value hvalue hanswer
    obtain ⟨i, hi, rfl⟩ := List.mem_mapIdx.mp hf
    obtain ⟨order', init, hviolations, hlength⟩ := exists_order_violation_last (List.getElem_mem hi)
    refine ⟨order', ?_⟩
    rw [enforceAll, List.length_mapIdx, hlength, Nat.add_sub_cancel] at hanswer
    have happlied := (applied_enforce_iff (answers init.length) _ container labels value).mpr
      ⟨(patch_enforce_iff _ _ _ _ _).mpr ((patch_enforce_iff _ _ _ _ _).mp hvalue), hanswer⟩
    rw [hviolations, enforceAll, List.mapIdx_concat, annotationAfter_append, Option.map_some,
      happlied]
    rfl
  · intro value hnever hbefore order hafter
    rw [annotationAfter_eq, Option.or_eq_some_iff] at hafter
    rcases hafter with hlast | ⟨-, hsame⟩
    · obtain ⟨f, hf, happlied⟩ := List.mem_filterMap.mp (List.mem_of_getLast? hlast)
      obtain ⟨i, hi, rfl⟩ := List.mem_mapIdx.mp hf
      have hanswer := ((applied_enforce_iff (answers i) _ _ _ _).mp happlied).2
      rw [hnever i] at hanswer
      cases hanswer
    · exact hbefore hsame

end Annotation

def plainEvents : EventDecoder ProcessEvent :=
  ⟨fun event => some (event, ⟨"web", "nginx:1.25"⟩), fun _ => none⟩

/-- Policies against shells, one of them with a bell in its name. -/
def shellEngine : Engine :=
  .run [.setCluster ⟨"shell", shellPolicy⟩, .setCluster suspiciousProcess,
    .setCluster ⟨"bell", { shellPolicy with policyName := "Bell\x07" }⟩]

/-- The quoted name of a policy is no JSON text if there is a bell in it. -/
def noBells (_ : ℕ) (value : String) : Bool := !value.toList.contains '\x07'

theorem annotation_by_order_shellEvent :
    (∃ order, annotationAfter none
        (shellEngine.handleMessage plainEvents order (some noBells) .process shellEvent) =
      some "Shell In Container: Shell In Container in container prod/web-0") ∧
    (∃ order, annotationAfter none
        (shellEngine.handleMessage plainEvents order (some noBells) .process shellEvent) =
      some "Suspicious Process Execution: Suspicious Process Execution in container prod/web-0") ∧
    ∀ order, annotationAfter none
        (shellEngine.handleMessage plainEvents order (some noBells) .process shellEvent) ≠
      some "Bell\x07: Bell\x07 in container prod/web-0" := by
  obtain ⟨-, hkept, hnever⟩ :=
    annotation_by_order plainEvents shellEngine .process shellEvent noBells none
  have hviolation (v : Violation)
      (hv : enforce (some (noBells 0)) v shellEvent.container ⟨"web", "nginx:1.25"⟩ ∈
        shellEngine.handleMessage plainEvents .stored (some noBells) .process shellEvent)
      (hanswer : noBells 0 (v.policyName ++ ": " ++ v.message) = true) :=
    hkept .stored _ hv (v.policyName ++ ": " ++ v.message) rfl hanswer
  refine ⟨?_, ?_, ?_⟩
  · exact hviolation ⟨"Shell In Container", "Shell In Container in container prod/web-0", "high"⟩
      (by decide) (by decide)
  · exact hviolation ⟨"Suspicious Process Execution",
      "Suspicious Process Execution in container prod/web-0", "high"⟩ (by decide) (by decide)
  · apply hnever
    · exact fun _ => (by decide : noBells 0 "Bell\x07: Bell\x07 in container prod/web-0" = false)
    · decide

end AcsNext.Policy
