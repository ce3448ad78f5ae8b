import AcsNext.Policy.DefaultPolicies

/-! The admission controller: the informers that keep its policies, and the webhook that decides
on requests with them. -/
namespace AcsNext.Policy
open AcsNext.Data

/-- What an informer passes to a handler: an object, or, for a deletion that its watch has
missed, a marker with the key of the object. -/
inductive InformerObject (C : Type) where
  | unstructured (content : C)
  | deletedFinalStateUnknown (key : String)
deriving DecidableEq, Repr

inductive Notification (C : Type) where
  | add (obj : InformerObject C)
  | update (oldObj newObj : InformerObject C)
  | delete (obj : InformerObject C)
deriving DecidableEq, Repr

/-- The conversion of unstructured content to the two kinds of policies. -/
structure Converter (C : Type) where
  clusterPolicy : C → Option ClusterStackroxPolicy
  namespacedPolicy : C → Option StackroxPolicy

namespace Converter

variable {C : Type} (conv : Converter C)

def convert {P : Type} (fromUnstructured : C → Option P) : InformerObject C → Option P
  | .unstructured content => fromUnstructured content
  | .deletedFinalStateUnknown _ => none

def convertToClusterPolicy : InformerObject C → Option ClusterStackroxPolicy :=
  convert conv.clusterPolicy

def convertToNamespacedPolicy : InformerObject C → Option StackroxPolicy :=
  convert conv.namespacedPolicy

/-- The handlers of one informer; what is not converted is dropped. -/
def handle {P : Type} (convert : InformerObject C → Option P) (set delete : P → PolicyOp) :
    Notification C → Option PolicyOp
  | .add obj => (convert obj).map set
  | .update _ newObj => (convert newObj).map set
  | .delete obj => (convert obj).map delete

def clusterInformer : Notification C → Option PolicyOp :=
  handle conv.convertToClusterPolicy .setCluster fun p => .deleteCluster p.name

def nsInformer : Notification C → Option PolicyOp :=
  handle conv.convertToNamespacedPolicy .setNamespaced fun p => .deleteNamespaced p.ns p.name

end Converter

structure Pod where
  spec : PodSpec

structure PodTemplateSpec where
  spec : PodSpec

/-- The part of a deployment's or a replica set's spec that is read. -/
structure WorkloadSpec where
  template : PodTemplateSpec

structure Deployment where
  spec : WorkloadSpec

structure ReplicaSet where
  spec : WorkloadSpec

structure AdmissionRequest (R : Type) where
  uid : String
  kind : String
  name : String
  ns : String
  object : R

structure AdmissionReview (R : Type) where
  request : Option (AdmissionRequest R)

/-- The decoding of bodies and of the raw objects in them. -/
structure Decoder (B R : Type) where
  review : B → Option (AdmissionReview R)
  pod : R → Option Pod
  deployment : R → Option Deployment
  replicaSet : R → Option ReplicaSet

/-- A request to `/validate`; the body is missing if it cannot be read. -/
structure HttpRequest (B : Type) where
  method : String
  body : Option B

structure AdmissionResponse where
  uid : String
  allowed : Bool
  message : Option String
deriving DecidableEq, Repr

inductive HttpResponse where
  | error (text : String) (code : ℕ)
  | review (response : AdmissionResponse)
deriving DecidableEq, Repr

structure Alert where
  source : String
  policy : String
  severity : String
  message : String
  context : List (String × String)
deriving DecidableEq, Repr

def alertOf (source : String) (v : Violation) (context : List (String × String)) : Alert :=
  ⟨source, v.policyName, v.severity, v.message, context⟩

section Webhook

variable {B R : Type} (decoder : Decoder B R)

def extractPodSpec (req : AdmissionRequest R) : Option PodSpec :=
  match req.kind with
  | "Pod" => (decoder.pod req.object).map Pod.spec
  | "Deployment" => (decoder.deployment req.object).map fun d => d.spec.template.spec
  | "ReplicaSet" => (decoder.replicaSet req.object).map fun rs => rs.spec.template.spec
  | _ => none

def responseMessage (violations : List Violation) : String :=
  "; ".intercalate (violations.map fun v =>
    "[" ++ v.severity ++ "] " ++ v.policyName ++ ": " ++ v.message)

def buildResponse (uid : String) (violations : List Violation) : AdmissionResponse :=
  if violations.length = 0 then ⟨uid, true, none⟩
  else ⟨uid, false, some (responseMessage violations)⟩

def admissionContext (req : AdmissionRequest R) : List (String × String) :=
  [("namespace", req.ns), ("name", req.name), ("kind", req.kind)]

/-- The response and the alerts; a request whose pod spec cannot be extracted is let through.
There is no publisher when the broker was not reached at the start. -/
def handleValidate (order : MapOrder) (alertPub : Bool) (engine : Engine) (r : HttpRequest B) :
    HttpResponse × List Alert :=
  if r.method ≠ "POST" then (.error "method not allowed" 405, [])
  else
    match r.body with
    | none => (.error "failed to read body" 400, [])
    | some body =>
      match decoder.review body with
      | none => (.error "invalid AdmissionReview" 400, [])
      | some review =>
        match review.request with
        | none => (.error "missing request in AdmissionReview" 400, [])
        | some req =>
          match extractPodSpec decoder req with
          | none => (.review (buildResponse req.uid []), [])
          | some podSpec =>
            let violations := engine.evaluateAdmission order podSpec req.ns
            (.review (buildResponse req.uid violations),
              if alertPub then violations.map fun v => alertOf "admission" v (admissionContext req)
              else [])

end Webhook

inductive ControllerEvent (C B : Type) where
  | cluster (note : Notification C)
  | namespaced (note : Notification C)
  | request (order : MapOrder) (r : HttpRequest B)

def ControllerEvent.op {C B : Type} (conv : Converter C) : ControllerEvent C B → Option PolicyOp
  | .cluster note => conv.clusterInformer note
  | .namespaced note => conv.nsInformer note
  | .request _ _ => none

def ControllerEvent.isRequest {C B : Type} : ControllerEvent C B → Bool
  | .request _ _ => true
  | _ => false

structure Controller where
  engine : Engine
  answers : List (HttpResponse × List Alert)

/-- The defaults are loaded when the custom resources are not available; then there are no
informers. -/
def Controller.start (crdAvailable : Bool) : Controller :=
  ⟨if crdAvailable then .new else Engine.new.loadDefaultPolicies, []⟩

section Runs

variable {C B R : Type} (conv : Converter C) (decoder : Decoder B R) (alertPub : Bool)

def Controller.step (c : Controller) : ControllerEvent C B → Controller
  | .cluster note =>
    { c with engine := (conv.clusterInformer note).elim c.engine c.engine.apply }
  | .namespaced note =>
    { c with engine := (conv.nsInformer note).elim c.engine c.engine.apply }
  | .request order r =>
    { c with answers := c.answers ++ [handleValidate decoder order alertPub c.engine r] }

def Controller.run (crdAvailable : Bool) (es : List (ControllerEvent C B)) : Controller :=
  es.foldl (Controller.step conv decoder alertPub) (.start crdAvailable)

/-- The operations that a controller has seen: its defaults, or those of the informers. -/
def history (crdAvailable : Bool) (es : List (ControllerEvent C B)) : List PolicyOp :=
  (if crdAvailable then [] else defaultPolicies.map .setCluster) ++
    es.filterMap (ControllerEvent.op conv)

/-- The request of an admission review, or the error that a malformed one is answered with. -/
def reviewedRequest (r : HttpRequest B) : Except (String × ℕ) (AdmissionRequest R) :=
  if r.method ≠ "POST" then .error ("method not allowed", 405)
  else
    match r.body with
    | none => .error ("failed to read body", 400)
    | some body =>
      match decoder.review body with
      | none => .error ("invalid AdmissionReview", 400)
      | some review =>
        match review.request with
        | none => .error ("missing request in AdmissionReview", 400)
        | some req => .ok req

/-- What a request should be answered with, under the policies of a history: an error without
alerts; or a review of the request, which is denied exactly when a policy in its scope fires,
with one alert for each; a request without a pod spec is allowed. -/
def Decides (ops : List PolicyOp) (r : HttpRequest B) (answer : HttpResponse × List Alert) : Prop :=
  match reviewedRequest decoder r with
  | .error (text, code) => answer = (.error text code, [])
  | .ok req =>
    match extractPodSpec decoder req with
    | none => answer = (.review ⟨req.uid, true, none⟩, [])
    | some podSpec =>
      ∃ violations,
        ReportsExactly ops req.ns .deploy
          (Subject.pod podSpec req.ns).context admissionMessage violations ∧
        ∃ allowed, answer.1 =
            .review ⟨req.uid, allowed, if allowed then none else some (responseMessage violations)⟩ ∧
          (allowed = true ↔ ∀ key spec, key.InScope req.ns → current ops key = some spec →
            ¬spec.Fires .deploy (Subject.pod podSpec req.ns).context) ∧
          answer.2 = if alertPub then
            violations.map fun v => alertOf "admission" v (admissionContext req) else []

end Runs

theorem Engine.run_toList (ops : List PolicyOp) (op : Option PolicyOp) :
    Engine.run (ops ++ op.toList) = op.elim (Engine.run ops) (Engine.run ops).apply := by
  cases op <;> simp [Engine.run]

theorem Engine.loadDefaultPolicies_eq_run :
    Engine.new.loadDefaultPolicies = Engine.run (defaultPolicies.map .setCluster) := by
  rw [Engine.run, List.foldl_map]
  rfl

section RunLemmas

variable {C B R : Type} {conv : Converter C} {decoder : Decoder B R} {alertPub : Bool}
  {crdAvailable : Bool}

theorem history_append (es : List (ControllerEvent C B)) (e : ControllerEvent C B) :
    history conv crdAvailable (es ++ [e]) =
      history conv crdAvailable es ++ (e.op conv).toList := by
  unfold history
  rw [List.filterMap_append, ← List.append_assoc]
  cases h : e.op conv <;> simp [h]

theorem Controller.run_append (es : List (ControllerEvent C B)) (e : ControllerEvent C B) :
    Controller.run conv decoder alertPub crdAvailable (es ++ [e]) =
      (Controller.run conv decoder alertPub crdAvailable es).step conv decoder alertPub e := by
  simp [Controller.run]

theorem Controller.engine_run (es : List (ControllerEvent C B)) :
    (Controller.run conv decoder alertPub crdAvailable es).engine =
      Engine.run (history conv crdAvailable es) := by
  induction es using List.reverseRecOn with
  | nil =>
    cases crdAvailable with
    | true => rfl
    | false =>
      rw [history, List.filterMap_nil, List.append_nil]
      exact Engine.loadDefaultPolicies_eq_run
  | append_singleton es e ih =>
    rw [history_append, Engine.run_toList, ← ih, Controller.run_append]
    cases e <;> rfl

theorem Controller.length_answers_run (es : List (ControllerEvent C B)) :
    (Controller.run conv decoder alertPub crdAvailable es).answers.length =
      (es.filter (·.isRequest)).length := by
  induction es using List.reverseRecOn with
  | nil => rfl
  | append_singleton es e ih =>
    rw [Controller.run_append, List.filter_append, List.length_append, ← ih]
    cases e with
    | cluster note => rfl
    | namespaced note => rfl
    | request order r => exact List.length_append

/-- One request, under the policies of any history. -/
theorem decides_handleValidate (decoder : Decoder B R) (alertPub : Bool) (ops : List PolicyOp)
    (order : MapOrder) (r : HttpRequest B) :
    Decides decoder alertPub ops r (handleValidate decoder order alertPub (Engine.run ops) r) := by
  unfold Decides reviewedRequest handleValidate
  by_cases hmethod : r.method ≠ "POST"
  · simp [hmethod]
  · rw [if_neg hmethod, if_neg hmethod]
    cases r.body with
    | none => rfl
    | some body =>
      cases hreview : decoder.review body with
      | none => simp [hreview]
      | some review =>
        cases hreq : review.request with
        | none => simp [hreview, hreq]
        | some req =>
          cases hspec : extractPodSpec decoder req with
          | none => simp [hreview, hreq, hspec, buildResponse]
          | some podSpec =>
            simp only [hreview, hreq, hspec]
            have hreports := evaluateAdmission_reports order ops podSpec req.ns
            generalize (Engine.run ops).evaluateAdmission order podSpec req.ns = violations
              at hreports ⊢
            refine ⟨violations, hreports, decide (violations = []), ?_, ?_, rfl⟩
            · unfold buildResponse
              by_cases hnil : violations = []
              · simp [hnil]
              · simp [hnil]
            · rw [decide_eq_true_eq]
              exact hreports.eq_nil_iff

/-- Every request of a run is decided under the policies of the history before it, whatever
notifications and requests follow. -/
theorem Controller.run_decides (conv : Converter C) (decoder : Decoder B R) (alertPub : Bool)
    (crdAvailable : Bool) (es es' : List (ControllerEvent C B)) (order : MapOrder)
    (r : HttpRequest B) :
    ∃ answer, (Controller.run conv decoder alertPub crdAvailable
        (es ++ .request order r :: es')).answers[(es.filter (·.isRequest)).length]? = some answer ∧
      Decides decoder alertPub (history conv crdAvailable es) r answer := by
  set before := Controller.run conv decoder alertPub crdAvailable es with hbefore
  refine ⟨handleValidate decoder order alertPub before.engine r, ?_, ?_⟩
  · induction es' using List.reverseRecOn with
    | nil =>
      have hlength : before.answers.length = (es.filter (·.isRequest)).length :=
        length_answers_run es
      rw [Controller.run_append, ← hlength, ← hbefore]
      exact List.getElem?_concat_length
    | append_singleton es' e ih =>
      rw [← List.cons_append, ← List.append_assoc, Controller.run_append]
      cases e with
      | cluster note => exact ih
      | namespaced note => exact ih
      | request order' r' =>
        obtain ⟨hlt, _⟩ := List.getElem?_eq_some_iff.mp ih
        exact (List.getElem?_append_left hlt).trans ih
  · rw [hbefore, Controller.engine_run]
    exact decides_handleValidate decoder alertPub _ order r

/-- A deletion that is delivered without the object. -/
def ControllerEvent.MissedDelete (e : ControllerEvent C B) : Prop :=
  ∃ key, e = .cluster (.delete (.deletedFinalStateUnknown key)) ∨
    e = .namespaced (.delete (.deletedFinalStateUnknown key))

theorem ControllerEvent.MissedDelete.op_eq_none {e : ControllerEvent C B} (h : e.MissedDelete) :
    e.op conv = none := by
  obtain ⟨key, rfl | rfl⟩ := h
  · rfl
  · rfl

theorem current_history_of_quiet {key : PolicyKey} (es es' : List (ControllerEvent C B))
    (hquiet : ∀ e ∈ es', ∀ op, e.op conv = some op → op.key ≠ key) :
    current (history conv crdAvailable (es ++ es')) key =
      current (history conv crdAvailable es) key := by
  induction es' using List.reverseRecOn with
  | nil => rw [List.append_nil]
  | append_singleton es' e ih =>
    rw [← ih fun e' he' => hquiet e' (List.mem_append_left _ he'), ← List.append_assoc,
      history_append]
    cases hop : e.op conv with
    | none => rw [Option.toList_none, List.append_nil]
    | some op => rw [Option.toList_some, current_append, if_neg (hquiet e (by simp) op hop)]

/-- A policy whose deletion is delivered without the object stays in force until an object under
its key is delivered, and pods on which it fires are denied all that time. -/
theorem Controller.run_missed_delete (conv : Converter C) (decoder : Decoder B R)
    (alertPub crdAvailable : Bool) (es es' : List (ControllerEvent C B)) (e : ControllerEvent C B)
    (he : e.MissedDelete) (key : PolicyKey) (spec : PolicySpec)
    (hcurrent : current (history conv crdAvailable es) key = some spec)
    (hquiet : ∀ e ∈ es', ∀ op, e.op conv = some op → op.key ≠ key) :
    current (history conv crdAvailable (es ++ e :: es')) key = some spec ∧
      ∀ order r req podSpec, reviewedRequest decoder r = .ok req →
        extractPodSpec decoder req = some podSpec → key.InScope req.ns →
        spec.Fires .deploy (Subject.pod podSpec req.ns).context →
        ∃ message, (handleValidate decoder order alertPub
            (Controller.run conv decoder alertPub crdAvailable (es ++ e :: es')).engine r).1 =
          .review ⟨req.uid, false, some message⟩ := by
  have hquiet' : ∀ e' ∈ e :: es', ∀ op, e'.op conv = some op → op.key ≠ key := by
    intro e' he' op hop
    rcases List.mem_cons.mp he' with rfl | he'
    · rw [he.op_eq_none] at hop
      cases hop
    · exact hquiet e' he' op hop
  have hstays : current (history conv crdAvailable (es ++ e :: es')) key = some spec :=
    (current_history_of_quiet es (e :: es') hquiet').trans hcurrent
  refine ⟨hstays, fun order r req podSpec hreq hspec hscope hfires => ?_⟩
  rw [Controller.engine_run]
  have hdecides := decides_handleValidate decoder alertPub
    (history conv crdAvailable (es ++ e :: es')) order r
  unfold Decides at hdecides
  rw [hreq] at hdecides
  simp only [hspec] at hdecides
  obtain ⟨violations, _, allowed, hanswer, hallowed, _⟩ := hdecides
  have hdenied : allowed = false := by
    by_contra hallow
    exact hallowed.mp (by simpa using hallow) key spec hscope hstays hfires
  rw [hanswer, hdenied]
  exact ⟨responseMessage violations, rfl⟩

end RunLemmas

def plainConverter : Converter ClusterStackroxPolicy := ⟨some, fun _ => none⟩

def plainDecoder : Decoder (AdmissionReview PodSpec) PodSpec :=
  ⟨some, fun spec => some ⟨spec⟩, fun spec => some ⟨⟨⟨spec⟩⟩⟩, fun spec => some ⟨⟨⟨spec⟩⟩⟩⟩

/-- The policy is gone from the cluster, and a pod on the host network is still denied. -/
theorem Controller.run_missed_delete_hostPod :
    ∃ message, (handleValidate plainDecoder .stored true
        (Controller.run plainConverter plainDecoder true true
          [.cluster (.add (.unstructured ⟨"no-host-network", hostNetworkPolicy⟩)),
            .cluster (.delete (.deletedFinalStateUnknown "no-host-network"))]).engine
        ⟨"POST", some ⟨some ⟨"uid", "Pod", "web", "prod", hostPod⟩⟩⟩).1 =
      .review ⟨"uid", false, some message⟩ := by
  have hmissed := Controller.run_missed_delete plainConverter plainDecoder true true
    [.cluster (.add (.unstructured ⟨"no-host-network", hostNetworkPolicy⟩))] []
    (.cluster (.delete (.deletedFinalStateUnknown "no-host-network"))) ⟨_, Or.inl rfl⟩
    (.cluster "no-host-network") hostNetworkPolicy (by decide) (by simp)
  exact hmissed.2 .stored ⟨"POST", some ⟨some ⟨"uid", "Pod", "web", "prod", hostPod⟩⟩⟩
    ⟨"uid", "Pod", "web", "prod", hostPod⟩ hostPod rfl rfl trivial (by decide)

end AcsNext.Policy
