import AcsNext.Data.Runs
import AcsNext.Policy.Coverage

/-! The status of cluster policies: what a round of admission writes back to the API server,
and how the copies that the informer refreshes enter the next write. -/
namespace AcsNext.Policy
open AcsNext.Data

/-- A string type, of which the API names three values. -/
structure ConditionStatus where
  value : String
deriving DecidableEq, Repr

namespace ConditionStatus

def conditionTrue : ConditionStatus := ⟨"True"⟩

end ConditionStatus

/-- Times are those of the clock that `metav1.Now` reads. -/
structure Condition where
  conditionType : String
  status : ConditionStatus
  lastTransitionTime : ℤ
  reason : String
  message : String
deriving DecidableEq, Repr

def newCondition (now : ℤ) (conditionType : String) (status : ConditionStatus)
    (reason message : String) : Condition :=
  ⟨conditionType, status, now, reason, message⟩

/-- The first condition of the type is replaced; its transition time moves only with its
status. -/
def setCondition (now : ℤ) (newCondition : Condition) : List Condition → List Condition
  | [] => [newCondition]
  | condition :: conditions =>
    if condition.conditionType = newCondition.conditionType then
      { newCondition with
        lastTransitionTime :=
          if condition.status ≠ newCondition.status then now
          else condition.lastTransitionTime } :: conditions
    else condition :: setCondition now newCondition conditions

structure ViolationResource where
  kind : String
  name : String
  ns : String
  containerName : String
  imageName : String
deriving DecidableEq, Repr

structure RecentViolation where
  resource : ViolationResource
  message : String
  source : String
  timestamp : ℤ
  enforcementAction : String
deriving DecidableEq, Repr

def maxRecentViolations : ℕ := 20

/-- At most twenty entries are kept; the oldest are dropped. -/
def appendRecentViolation (violations : List RecentViolation) (v : RecentViolation) :
    List RecentViolation :=
  let violations := violations ++ [v]
  if maxRecentViolations < violations.length then
    violations.drop (violations.length - maxRecentViolations)
  else violations

/-- The counters are `int32`. -/
structure ClusterScopedViolationMetrics where
  totalViolations : BitVec 32
  activeViolations : BitVec 32
  lastViolationTime : Option ℤ
deriving DecidableEq, Repr

structure ClusterStackroxPolicyStatus where
  conditions : List Condition
  localPolicyID : String
  lastEvaluated : Option ℤ
  violationMetrics : Option ClusterScopedViolationMetrics
  recentViolations : List RecentViolation
deriving DecidableEq, Repr

/-- A cluster policy with the parts that only the status update reads. -/
structure PolicyObject where
  policy : ClusterStackroxPolicy
  enforcementActions : List String
  status : ClusterStackroxPolicyStatus
deriving DecidableEq, Repr

def acceptedCondition (now : ℤ) : Condition :=
  newCondition now "AcceptedByAdmissionControl" .conditionTrue "PolicyLoaded"
    "Policy successfully loaded and is being evaluated"

/-- The status written for a policy whose display name is among the violated ones. -/
def PolicyObject.violatedStatus (policyID : String → String) (now : ℤ)
    (resource : ViolationResource) (o : PolicyObject) (v : Violation) :
    ClusterStackroxPolicyStatus :=
  let metrics := o.status.violationMetrics.getD ⟨0, 0, none⟩
  { conditions := setCondition now (acceptedCondition now) o.status.conditions
    localPolicyID := policyID o.policy.spec.policyName
    lastEvaluated := some now
    violationMetrics :=
      some ⟨metrics.totalViolations + 1, metrics.activeViolations + 1, some now⟩
    recentViolations := appendRecentViolation o.status.recentViolations
      ⟨resource, v.message, "admission", now, o.enforcementActions.headD ""⟩ }

abbrev PolicyObjects := AssocMap String PolicyObject

/-- The API server stores the status of a policy that it has. -/
def storeStatus (stored : PolicyObjects) (name : String) (status : ClusterStackroxPolicyStatus) :
    PolicyObjects :=
  stored.filterMap fun k o => some (if name == k then { o with status := status } else o)

/-- A later violation replaces an earlier one of the same display name. -/
def violatedPolicies (violations : List Violation) : AssocMap String Violation :=
  violations.foldl (fun m v => m.assign v.policyName v) ∅

/-- An evaluated request whose violations have not been written back. -/
structure Admission where
  podSpec : PodSpec
  ns : String
  violations : List Violation
deriving DecidableEq

/-- `cached` are the cluster policies of the engine and `stored` those of the API server;
`reported` lists the rounds that have been written back. -/
structure AdmissionWorld where
  cached : PolicyObjects
  nsPolicies : AssocMap String (AssocMap String StackroxPolicy)
  stored : PolicyObjects
  inFlight : List Admission
  reported : List (PodSpec × String)

/-- Policies as they are first installed, each under its own name, none with violations. -/
structure InstalledPolicies where
  objects : PolicyObjects
  named : ∀ e ∈ objects.entries, e.2.policy.name = e.1
  fresh : ∀ e ∈ objects.entries,
    e.2.status.violationMetrics = none ∧ e.2.status.recentViolations = []

inductive AdmissionEvent where
  /-- The informer delivers the stored object of the name. -/
  | refresh (name : String)
  | evaluate (order : MapOrder) (podSpec : PodSpec) (ns : String)
  /-- The violations of the `i`-th request in flight are written back. -/
  | update (order : MapOrder) (i : ℕ) (now : ℤ) (resource : ViolationResource)

namespace AdmissionWorld

def init (installed : InstalledPolicies)
    (nsPolicies : AssocMap String (AssocMap String StackroxPolicy)) : AdmissionWorld :=
  ⟨installed.objects, nsPolicies, installed.objects, [], []⟩

variable (policyID : String → String) (w : AdmissionWorld)

/-- Evaluation reads no status. -/
def engine : Engine := ⟨w.cached.filterMap fun _ o => some o.policy, w.nsPolicies⟩

def setClusterPolicy (o : PolicyObject) : AdmissionWorld :=
  { w with cached := w.cached.assign o.policy.name o }

/-- One turn of the loop of `updatePolicyStatuses`. -/
def updateStatus (now : ℤ) (resource : ViolationResource) (violated : AssocMap String Violation)
    (stored : PolicyObjects) (o : PolicyObject) : PolicyObjects :=
  match violated.find? o.policy.spec.policyName with
  | none => stored
  | some v => storeStatus stored o.policy.name (o.violatedStatus policyID now resource v)

def updatePolicyStatuses (order : MapOrder) (now : ℤ) (resource : ViolationResource)
    (violations : List Violation) : AdmissionWorld :=
  let violated := violatedPolicies violations
  { w with
    stored := (order.values w.cached).foldl (updateStatus policyID now resource violated) w.stored }

def step : AdmissionEvent → AdmissionWorld
  | .refresh name =>
    match w.stored.find? name with
    | none => w
    | some o => w.setClusterPolicy o
  | .evaluate order podSpec ns =>
    { w with
      inFlight := w.inFlight ++ [⟨podSpec, ns, w.engine.evaluateAdmission order podSpec ns⟩] }
  | .update order i now resource =>
    match w.inFlight[i]? with
    | none => w
    | some a =>
      { w.updatePolicyStatuses policyID order now resource a.violations with
        inFlight := w.inFlight.eraseIdx i
        reported := w.reported ++ [(a.podSpec, a.ns)] }

end AdmissionWorld

def PolicySpec.Matches (spec : PolicySpec) (round : PodSpec × String) : Prop :=
  spec.Fires .deploy (Subject.pod round.1 round.2).context

instance (spec : PolicySpec) (round : PodSpec × String) : Decidable (spec.Matches round) :=
  inferInstanceAs (Decidable (spec.Fires _ _))

/-- The violation that the policy itself is reported with in the round. -/
def PolicySpec.ownViolation (spec : PolicySpec) (round : PodSpec × String) : Violation :=
  spec.violation (Subject.pod round.1 round.2).context admissionMessage

def PolicySpec.ownMessages (spec : PolicySpec) (rounds : List (PodSpec × String)) :
    List String :=
  (rounds.filter fun round => decide (spec.Matches round)).map fun round =>
    (spec.ownViolation round).message

/-- The last entries of a list, as many as the status keeps. -/
def mostRecent {α : Type*} (l : List α) : List α := l.drop (l.length - maxRecentViolations)

def ClusterStackroxPolicyStatus.totalViolations (status : ClusterStackroxPolicyStatus) : ℤ :=
  (status.violationMetrics.map fun m => m.totalViolations.toInt).getD 0

/-- The status counts the rounds that the policy itself matched and has the messages of the
latest of them. -/
def PolicyObject.Accounts (o : PolicyObject) (rounds : List (PodSpec × String)) : Prop :=
  o.status.totalViolations = (o.policy.spec.ownMessages rounds).length ∧
    o.status.recentViolations.map RecentViolation.message =
      mostRecent (o.policy.spec.ownMessages rounds)

def AdmissionWorld.Accounted (w : AdmissionWorld) : Prop :=
  ∀ name o, w.stored.find? name = some o → o.Accounts w.reported

/-- Every violation that carries the display name of a cluster policy is that policy's own,
the copy of the policy has the stored status, and its counter is not at its limit. -/
def AdmissionWorld.UpToDate (w : AdmissionWorld) : AdmissionEvent → Prop
  | .update _ i _ _ =>
    ∀ a ∈ w.inFlight[i]?, ∀ e ∈ w.cached.entries, ∀ v ∈ a.violations,
      v.policyName = e.2.policy.spec.policyName →
        e.2.policy.spec.Matches (a.podSpec, a.ns) ∧
          v = e.2.policy.spec.ownViolation (a.podSpec, a.ns) ∧
          (w.stored.find? e.1).map PolicyObject.status = some e.2.status ∧
          (e.2.policy.spec.ownMessages w.reported).length < 2 ^ 31 - 1
  | _ => True

instance (w : AdmissionWorld) (e : AdmissionEvent) : Decidable (w.UpToDate e) :=
  match e with
  | .refresh _ => isTrue trivial
  | .evaluate _ _ _ => isTrue trivial
  | .update _ i _ _ => inferInstanceAs (Decidable (∀ a ∈ w.inFlight[i]?, _))

theorem find?_storeStatus (stored : PolicyObjects) (name : String)
    (status : ClusterStackroxPolicyStatus) (q : String) :
    (storeStatus stored name status).find? q =
      (stored.find? q).map fun o => if name == q then { o with status := status } else o := by
  unfold storeStatus
  rw [AssocMap.find?_filterMap _ _ (fun a b o h => by rw [eq_of_beq h])]
  cases stored.find? q <;> rfl

theorem mem_of_find?_violatedPolicies (violations : List Violation) {name : String}
    {v : Violation} (h : (violatedPolicies violations).find? name = some v) :
    v ∈ violations ∧ v.policyName = name := by
  induction violations using List.reverseRecOn with
  | nil => simp [violatedPolicies] at h
  | append_singleton violations x ih =>
    rw [violatedPolicies, List.foldl_append, List.foldl_cons, List.foldl_nil,
      AssocMap.find?_assign] at h
    split_ifs at h with hx
    · obtain rfl := Option.some.inj h
      exact ⟨by simp, eq_of_beq hx⟩
    · obtain ⟨hmem, hname⟩ := ih h
      exact ⟨List.mem_append_left _ hmem, hname⟩

theorem find?_violatedPolicies_ne_none (violations : List Violation) {v : Violation}
    (h : v ∈ violations) : (violatedPolicies violations).find? v.policyName ≠ none := by
  induction violations using List.reverseRecOn with
  | nil => simp at h
  | append_singleton violations x ih =>
    rw [violatedPolicies, List.foldl_append, List.foldl_cons, List.foldl_nil,
      AssocMap.find?_assign]
    split_ifs with hx
    · simp
    · rcases List.mem_append.mp h with h | h
      · exact ih h
      · obtain rfl := List.mem_singleton.mp h
        simp at hx

namespace AdmissionWorld

section Update

variable (policyID : String → String) (now : ℤ) (resource : ViolationResource)
  (violated : AssocMap String Violation)

theorem find?_updateStatus (stored : PolicyObjects) (o : PolicyObject) (q : String) :
    (updateStatus policyID now resource violated stored o).find? q =
      if o.policy.name = q then
        match violated.find? o.policy.spec.policyName with
        | none => stored.find? q
        | some v => (stored.find? q).map fun s =>
            { s with status := o.violatedStatus policyID now resource v }
      else stored.find? q := by
  unfold updateStatus
  cases violated.find? o.policy.spec.policyName with
  | none => simp
  | some v =>
    simp only [find?_storeStatus, beq_iff_eq]
    by_cases hq : o.policy.name = q <;> simp [hq]

theorem find?_foldl_of_ne (l : List PolicyObject) (stored : PolicyObjects) (q : String)
    (h : ∀ o ∈ l, o.policy.name ≠ q) :
    (l.foldl (updateStatus policyID now resource violated) stored).find? q = stored.find? q := by
  induction l generalizing stored with
  | nil => rfl
  | cons o l ih =>
    rw [List.foldl_cons, ih _ fun x hx => h x (List.mem_cons_of_mem _ hx), find?_updateStatus,
      if_neg (h o List.mem_cons_self)]

/-- The loop changes the status of a policy in the turn of that policy and in no other. -/
theorem find?_foldl_of_mem {l : List PolicyObject}
    (hl : (l.map fun o => o.policy.name).Nodup) {o : PolicyObject} (ho : o ∈ l)
    (stored : PolicyObjects) :
    (l.foldl (updateStatus policyID now resource violated) stored).find? o.policy.name =
      (updateStatus policyID now resource violated stored o).find? o.policy.name := by
  obtain ⟨before, after, rfl⟩ := List.append_of_mem ho
  rw [List.map_append, List.map_cons, List.nodup_append, List.nodup_cons] at hl
  obtain ⟨_, ⟨hafter, _⟩, hbefore⟩ := hl
  have hne : ∀ x ∈ after, x.policy.name ≠ o.policy.name := by
    intro x hx he
    exact hafter (List.mem_map.mpr ⟨x, hx, he⟩)
  have hne' : ∀ x ∈ before, x.policy.name ≠ o.policy.name := by
    intro x hx
    exact hbefore _ (List.mem_map_of_mem hx) _ List.mem_cons_self
  rw [List.foldl_append, List.foldl_cons, find?_foldl_of_ne _ _ _ _ after _ _ hne,
    find?_updateStatus, find?_updateStatus, find?_foldl_of_ne _ _ _ _ before _ _ hne']

end Update

/-- The two stores hold the same policies, each under its own name, and a request in flight
has the violation of every policy that matches it. -/
structure Consistent (w : AdmissionWorld) : Prop where
  named : ∀ name o, w.cached.find? name = some o → o.policy.name = name
  same_policy : ∀ name,
    (w.cached.find? name).map PolicyObject.policy = (w.stored.find? name).map PolicyObject.policy
  own_mem : ∀ a ∈ w.inFlight, ∀ name o, w.cached.find? name = some o →
    o.policy.spec.Matches (a.podSpec, a.ns) →
      o.policy.spec.ownViolation (a.podSpec, a.ns) ∈ a.violations

end AdmissionWorld

theorem mem_values_of_find? {V : Type} (order : MapOrder) (m : AssocMap String V) {name : String}
    {v : V} (h : m.find? name = some v) : v ∈ order.values m := by
  obtain ⟨e, he, _, rfl⟩ := (m.find?_eq_some_iff name v).mp h
  exact (order.perm m).mem_iff.mpr (List.mem_map_of_mem he)

namespace AdmissionWorld

variable {w : AdmissionWorld}

theorem find?_engine (w : AdmissionWorld) (name : String) :
    w.engine.clusterPolicies.find? name = (w.cached.find? name).map PolicyObject.policy := by
  unfold engine
  rw [AssocMap.find?_filterMap _ _ (fun _ _ _ _ => rfl)]
  cases w.cached.find? name <;> rfl

theorem ownViolation_mem_evaluateAdmission (order : MapOrder) (podSpec : PodSpec) (ns : String)
    {name : String} {o : PolicyObject} (ho : w.cached.find? name = some o)
    (hm : o.policy.spec.Matches (podSpec, ns)) :
    o.policy.spec.ownViolation (podSpec, ns) ∈ w.engine.evaluateAdmission order podSpec ns := by
  have hfind : w.engine.clusterPolicies.find? name = some o.policy := by
    rw [find?_engine, ho]
    rfl
  have hcluster : o.policy.spec.ownViolation (podSpec, ns) ∈
      (order.values w.engine.clusterPolicies).filterMap fun p =>
        evaluatePolicy shouldApplyToAdmissionControl (Subject.pod podSpec ns).context
          admissionMessage p.spec := by
    refine List.mem_filterMap.mpr ⟨o.policy, mem_values_of_find? order _ hfind, ?_⟩
    exact (evaluatePolicy_eq _ _ shouldApplyToAdmissionControl_iff _).trans (if_pos hm)
  unfold Engine.evaluateAdmission
  cases w.engine.nsPolicies.find? ns with
  | none => exact hcluster
  | some nsPolicies => exact List.mem_append_left _ hcluster

theorem find?_updatePolicyStatuses (hw : w.Consistent) (policyID : String → String)
    (order : MapOrder) (now : ℤ) (resource : ViolationResource) (violations : List Violation)
    {name : String} {o : PolicyObject} (ho : w.cached.find? name = some o) :
    (w.updatePolicyStatuses policyID order now resource violations).stored.find? name =
      match (violatedPolicies violations).find? o.policy.spec.policyName with
      | none => w.stored.find? name
      | some v => (w.stored.find? name).map fun s =>
          { s with status := o.violatedStatus policyID now resource v } := by
  have hname := hw.named name o ho
  have hnodup : ((order.values w.cached).map fun o => o.policy.name).Nodup := by
    refine ((order.perm w.cached).map fun o => o.policy.name).nodup_iff.mpr ?_
    rw [List.map_map]
    refine List.pairwise_map.mpr (List.Pairwise.imp_of_mem ?_ w.cached.distinct)
    intro a b ha hb hne he
    have hna := hw.named a.1 a.2 (w.cached.find?_of_mem ha)
    have hnb := hw.named b.1 b.2 (w.cached.find?_of_mem hb)
    have hab : b.1 = a.1 := by rw [← hna, ← hnb]; exact he.symm
    rw [hab] at hne
    simp at hne
  change ((order.values w.cached).foldl _ w.stored).find? name = _
  rw [← hname, find?_foldl_of_mem _ _ _ _ hnodup (mem_values_of_find? order _ ho),
    find?_updateStatus, if_pos rfl]

theorem policy_updatePolicyStatuses (policyID : String → String) (order : MapOrder) (now : ℤ)
    (resource : ViolationResource) (violations : List Violation) (name : String) :
    ((w.updatePolicyStatuses policyID order now resource violations).stored.find? name).map
        PolicyObject.policy = (w.stored.find? name).map PolicyObject.policy := by
  change (((order.values w.cached).foldl _ w.stored).find? name).map _ = _
  generalize order.values w.cached = l
  generalize w.stored = stored
  induction l generalizing stored with
  | nil => rfl
  | cons o l ih =>
    rw [List.foldl_cons, ih, find?_updateStatus]
    split_ifs with h
    · cases (violatedPolicies violations).find? o.policy.spec.policyName with
      | none => rfl
      | some v => cases stored.find? name <;> rfl
    · rfl

/-- The informer delivers a policy that the engine already has, with another status. -/
theorem consistent_setClusterPolicy (hw : w.Consistent) {name : String} {o : PolicyObject}
    (ho : w.stored.find? name = some o) : (w.setClusterPolicy o).Consistent := by
  have hpolicy := hw.same_policy name
  rw [ho] at hpolicy
  obtain ⟨c, hc, hco⟩ := Option.map_eq_some_iff.mp hpolicy
  have hname : o.policy.name = name := by
    rw [← hco]
    exact hw.named name c hc
  have hcached (q : String) : (w.setClusterPolicy o).cached.find? q =
      if name = q then some o else w.cached.find? q := by
    simp only [setClusterPolicy, AssocMap.find?_assign, hname, beq_iff_eq]
  refine ⟨?_, ?_, ?_⟩
  · intro q x hx
    rw [hcached] at hx
    split_ifs at hx with hq
    · obtain rfl := Option.some.inj hx
      exact hname.trans hq
    · exact hw.named q x hx
  · intro q
    rw [hcached]
    split_ifs with hq
    · subst hq
      exact congrArg _ ho.symm
    · exact hw.same_policy q
  · intro a ha q x hx hm
    rw [hcached] at hx
    split_ifs at hx with hq
    · obtain rfl := Option.some.inj hx
      rw [← hco] at hm ⊢
      exact hw.own_mem a ha name c hc hm
    · exact hw.own_mem a ha q x hx hm

theorem consistent_step (policyID : String → String) (hw : w.Consistent) (e : AdmissionEvent) :
    (w.step policyID e).Consistent := by
  cases e with
  | refresh name =>
    cases hs : w.stored.find? name with
    | none => simpa only [step, hs] using hw
    | some o => simpa only [step, hs] using consistent_setClusterPolicy hw hs
  | evaluate order podSpec ns =>
    refine ⟨hw.named, hw.same_policy, ?_⟩
    intro a ha name o ho hm
    rcases List.mem_append.mp ha with ha | ha
    · exact hw.own_mem a ha name o ho hm
    · obtain rfl := List.mem_singleton.mp ha
      exact ownViolation_mem_evaluateAdmission order podSpec ns ho hm
  | update order i now resource =>
    cases hi : w.inFlight[i]? with
    | none => simpa only [step, hi] using hw
    | some a =>
      simp only [step, hi]
      refine ⟨hw.named, ?_, ?_⟩
      · intro name
        exact (hw.same_policy name).trans (policy_updatePolicyStatuses _ _ _ _ _ name).symm
      · exact fun b hb => hw.own_mem b (List.mem_of_mem_eraseIdx hb)

end AdmissionWorld

theorem mostRecent_append {α : Type*} (l : List α) (x : α) :
    mostRecent (mostRecent l ++ [x]) = mostRecent (l ++ [x]) := by
  unfold mostRecent
  rw [List.drop_append, List.drop_append, List.drop_drop]
  simp only [List.length_append, List.length_drop, List.length_singleton]
  congr 2 <;> omega

theorem message_appendRecentViolation (violations : List RecentViolation) (v : RecentViolation) :
    (appendRecentViolation violations v).map RecentViolation.message =
      mostRecent (violations.map RecentViolation.message ++ [v.message]) := by
  simp only [appendRecentViolation, mostRecent, List.length_append, List.length_singleton,
    List.length_map]
  split_ifs with h
  · simp [List.map_drop]
  · have hzero : violations.length + 1 - maxRecentViolations = 0 := by omega
    simp [hzero]

theorem ownMessages_append (spec : PolicySpec) (rounds : List (PodSpec × String))
    (round : PodSpec × String) :
    spec.ownMessages (rounds ++ [round]) = spec.ownMessages rounds ++
      if spec.Matches round then [(spec.ownViolation round).message] else [] := by
  unfold PolicySpec.ownMessages
  by_cases h : spec.Matches round <;> simp [h]

theorem toInt_add_one {c : BitVec 32} {n : ℕ} (hc : c.toInt = n) (hn : n < 2 ^ 31 - 1) :
    (c + 1).toInt = (n + 1 : ℕ) := by
  have hone : (1 : BitVec 32).toInt = 1 := rfl
  rw [BitVec.toInt_add, hc, hone]
  exact Int.bmod_eq_of_le (by omega) (by omega)

/-- Writing the violation of the policy itself onto an accurate status keeps it accurate. -/
theorem PolicyObject.accounts_violatedStatus {o c : PolicyObject}
    {rounds : List (PodSpec × String)} {round : PodSpec × String} (policyID : String → String)
    (now : ℤ) (resource : ViolationResource) (ho : o.Accounts rounds)
    (hstatus : c.status = o.status)
    (hm : o.policy.spec.Matches round)
    (hn : (o.policy.spec.ownMessages rounds).length < 2 ^ 31 - 1) :
    PolicyObject.Accounts { o with
      status := c.violatedStatus policyID now resource (o.policy.spec.ownViolation round) }
      (rounds ++ [round]) := by
  obtain ⟨htotal, hrecent⟩ := ho
  unfold Accounts
  simp only [ownMessages_append, if_pos hm, List.length_append, List.length_singleton]
  constructor
  · simp only [violatedStatus, hstatus, ClusterStackroxPolicyStatus.totalViolations,
      Option.map_some, Option.getD_some]
    refine toInt_add_one ?_ hn
    rw [← htotal, ClusterStackroxPolicyStatus.totalViolations]
    cases o.status.violationMetrics <;> rfl
  · simp only [violatedStatus, hstatus, message_appendRecentViolation, hrecent]
    exact mostRecent_append _ _

namespace AdmissionWorld

variable {w : AdmissionWorld}

/-- Behind a stored policy after an update stand its cached copy and what was stored before. -/
theorem Consistent.exists_before (hw : w.Consistent) (policyID : String → String)
    {order : MapOrder} {now : ℤ} {resource : ViolationResource} {violations : List Violation}
    {name : String} {o' : PolicyObject}
    (ho' : (w.updatePolicyStatuses policyID order now resource violations).stored.find? name =
      some o') :
    ∃ c o, w.cached.find? name = some c ∧ w.stored.find? name = some o ∧ c.policy = o.policy := by
  have hkept := policy_updatePolicyStatuses (w := w) policyID order now resource violations name
  rw [ho'] at hkept
  obtain ⟨o, ho, -⟩ := Option.map_eq_some_iff.mp hkept.symm
  have hsame := hw.same_policy name
  rw [ho] at hsame
  obtain ⟨c, hcached, hpolicy⟩ := Option.map_eq_some_iff.mp hsame
  exact ⟨c, o, hcached, ho, hpolicy⟩

theorem accounted_update (policyID : String → String) (hw : w.Consistent) (ha : w.Accounted)
    {order : MapOrder} {i : ℕ} {now : ℤ} {resource : ViolationResource} {a : Admission}
    (hi : w.inFlight[i]? = some a) (hc : w.UpToDate (.update order i now resource)) :
    (w.step policyID (.update order i now resource)).Accounted := by
  simp only [step, hi]
  intro name o' ho'
  change (w.updatePolicyStatuses policyID order now resource a.violations).stored.find? name =
    some o' at ho'
  change o'.Accounts (w.reported ++ [(a.podSpec, a.ns)])
  obtain ⟨c, o, hcached, ho, hco⟩ := hw.exists_before policyID ho'
  rw [find?_updatePolicyStatuses hw policyID order now resource a.violations hcached] at ho'
  have hacc := ha name o ho
  cases hv : (violatedPolicies a.violations).find? c.policy.spec.policyName with
  | none =>
    -- the policy did not match, or its own violation would have been found
    rw [hv] at ho'
    obtain rfl : o = o' := Option.some.inj (ho.symm.trans ho')
    have hno : ¬ o.policy.spec.Matches (a.podSpec, a.ns) := by
      intro hm
      rw [← hco] at hm
      have hmem := hw.own_mem a (List.mem_of_getElem? hi) name c hcached hm
      exact find?_violatedPolicies_ne_none _ hmem hv
    unfold PolicyObject.Accounts
    rw [ownMessages_append, if_neg hno, List.append_nil]
    exact hacc
  | some v =>
    rw [hv, ho] at ho'
    obtain rfl := Option.some.inj ho'
    obtain ⟨hmem, hvname⟩ := mem_of_find?_violatedPolicies _ hv
    obtain ⟨e, he, hname, hec⟩ := (w.cached.find?_eq_some_iff name c).mp hcached
    obtain rfl := eq_of_beq hname
    obtain rfl := hec
    obtain ⟨hm, rfl, hstatus, hn⟩ := hc a (by rw [hi]; rfl) e he v hmem hvname
    rw [ho] at hstatus
    rw [hco] at hm hn
    rw [hco]
    exact PolicyObject.accounts_violatedStatus policyID now resource hacc
      (Option.some.inj hstatus).symm hm hn

theorem accounted_step (policyID : String → String) (hw : w.Consistent) (ha : w.Accounted)
    (e : AdmissionEvent) (hc : w.UpToDate e) : (w.step policyID e).Accounted := by
  cases e with
  | refresh name =>
    cases hs : w.stored.find? name with
    | none => simpa only [step, hs] using ha
    | some o =>
      have hset : (w.setClusterPolicy o).Accounted := ha
      simpa only [step, hs] using hset
  | evaluate order podSpec ns => exact ha
  | update order i now resource =>
    cases hi : w.inFlight[i]? with
    | none => simpa only [step, hi] using ha
    | some a => exact accounted_update policyID hw ha hi hc

theorem init_consistent (installed : InstalledPolicies)
    (nsPolicies : AssocMap String (AssocMap String StackroxPolicy)) :
    (init installed nsPolicies).Consistent := by
  refine ⟨?_, fun _ => rfl, fun a ha => absurd ha List.not_mem_nil⟩
  intro name o ho
  obtain ⟨e, he, hname, rfl⟩ := (installed.objects.find?_eq_some_iff name o).mp ho
  rw [installed.named e he]
  exact eq_of_beq hname

theorem init_accounted (installed : InstalledPolicies)
    (nsPolicies : AssocMap String (AssocMap String StackroxPolicy)) :
    (init installed nsPolicies).Accounted := by
  intro name o ho
  obtain ⟨e, he, _, rfl⟩ := (installed.objects.find?_eq_some_iff name o).mp ho
  obtain ⟨hmetrics, hrecent⟩ := installed.fresh e he
  unfold PolicyObject.Accounts ClusterStackroxPolicyStatus.totalViolations
  rw [hmetrics, hrecent]
  exact ⟨rfl, rfl⟩

/-- In a run whose updates all find the stored status in the cache, and no violation of a
namesake, every status accounts for the rounds of its own policy in every state. -/
theorem violations_accounted (policyID : String → String) (installed : InstalledPolicies)
    (nsPolicies : AssocMap String (AssocMap String StackroxPolicy)) (events : List AdmissionEvent)
    (h : EveryStep (step policyID) UpToDate (init installed nsPolicies) events) :
    Always (step policyID) (fun _ w => w.Accounted) (init installed nsPolicies) events := by
  have hboth : Always (step policyID) (fun _ w => w.Consistent ∧ w.Accounted)
      (init installed nsPolicies) events := by
    refine always_of_everyStep ⟨init_consistent _ _, init_accounted _ _⟩ ?_ h
    intro l e hl hc
    exact ⟨consistent_step policyID hl.1 e, accounted_step policyID hl.1 hl.2 e hc⟩
  exact fun l hl => (hboth l hl).2

end AdmissionWorld

def emptyStatus : ClusterStackroxPolicyStatus := ⟨[], "", none, none, []⟩

def hostNetworkObject : PolicyObject :=
  ⟨⟨"no-host-network", hostNetworkPolicy⟩, ["FAIL_DEPLOYMENT_CREATE_ENFORCEMENT"], emptyStatus⟩

def hostNetworkInstalled : InstalledPolicies where
  objects := AssocMap.assign ∅ "no-host-network" hostNetworkObject
  named := by decide
  fresh := by decide

def hostResource : ViolationResource := ⟨"Pod", "web-0", "prod", "", ""⟩

/-- A pod on the host network is admitted and written back at the given time. -/
def hostRound (now : ℤ) : List AdmissionEvent :=
  [.evaluate .stored hostPod "prod", .update .stored 0 now hostResource]

namespace AdmissionWorld

/-- Two rounds with a refresh in between are both counted. -/
theorem violations_accounted_refreshed :
    Always (step id) (fun _ w => w.Accounted) (init hostNetworkInstalled ∅)
      (hostRound 1 ++ .refresh "no-host-network" :: hostRound 2) := by
  apply violations_accounted
  simp only [hostRound, List.cons_append, List.nil_append, everyStep_cons]
  refine ⟨trivial, ?_, trivial, trivial, ?_, everyStep_nil⟩
  · decide
  · decide

/-- Without it the second write starts from the status before the first one. -/
theorem second_round_lost :
    ((hostRound 1 ++ hostRound 2).foldl (step id) (init hostNetworkInstalled ∅)).reported =
        [(hostPod, "prod"), (hostPod, "prod")] ∧
      hostNetworkPolicy.Matches (hostPod, "prod") ∧
      (((hostRound 1 ++ hostRound 2).foldl (step id) (init hostNetworkInstalled ∅)).stored.find?
        "no-host-network").map (fun o => o.status.totalViolations) = some 1 ∧
      ¬ Always (step id) (fun _ w => w.Accounted) (init hostNetworkInstalled ∅)
        (hostRound 1 ++ hostRound 2) := by
  have hreported : ((hostRound 1 ++ hostRound 2).foldl (step id)
      (init hostNetworkInstalled ∅)).reported = [(hostPod, "prod"), (hostPod, "prod")] := by
    decide
  have htotal : (((hostRound 1 ++ hostRound 2).foldl (step id)
      (init hostNetworkInstalled ∅)).stored.find? "no-host-network").map
        (fun o => (o.policy.spec, o.status.totalViolations)) = some (hostNetworkPolicy, 1) := by
    decide
  obtain ⟨o, ho, heq⟩ := Option.map_eq_some_iff.mp htotal
  obtain ⟨hspec, hone⟩ := Prod.mk.inj heq
  refine ⟨hreported, by decide, by rw [ho]; exact congrArg some hone, ?_⟩
  intro h
  have hcount := (h.last "no-host-network" o ho).1
  rw [hreported, hspec, hone] at hcount
  exact absurd hcount (by decide)

end AdmissionWorld

end AcsNext.Policy
