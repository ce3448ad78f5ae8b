import AcsNext.Policy.Engine

/-! Which policies are reported, over every history of the store and every iteration order. -/
namespace AcsNext.Policy
open AcsNext.Data

namespace Engine

def lookup (e : Engine) : PolicyKey → Option PolicySpec
  | .cluster name => (e.clusterPolicies.find? name).map ClusterStackroxPolicy.spec
  | .namespaced ns name =>
    ((e.nsPolicies.find? ns).bind fun inner => inner.find? name).map StackroxPolicy.spec

/-- An operation changes what is stored under its own key and nothing else. -/
theorem lookup_apply (e : Engine) (op : PolicyOp) (key : PolicyKey) :
    (e.apply op).lookup key = if op.key = key then op.value else e.lookup key := by
  cases op with
  | setCluster p =>
    cases key with
    | cluster name =>
      simp only [apply, setClusterPolicy, lookup, AssocMap.find?_assign, PolicyOp.key,
        PolicyOp.value, PolicyKey.cluster.injEq, beq_iff_eq]
      split_ifs <;> rfl
    | namespaced ns name => simp [apply, setClusterPolicy, lookup, PolicyOp.key]
  | deleteCluster n =>
    cases key with
    | cluster name =>
      simp only [apply, deleteClusterPolicy, lookup, AssocMap.find?_erase, PolicyOp.key,
        PolicyOp.value, PolicyKey.cluster.injEq, beq_iff_eq]
      split_ifs <;> rfl
    | namespaced ns name => simp [apply, deleteClusterPolicy, lookup, PolicyOp.key]
  | setNamespaced p =>
    cases key with
    | cluster name => simp [apply, setNamespacedPolicy, lookup, PolicyOp.key]
    | namespaced ns name =>
      simp only [apply, setNamespacedPolicy, lookup, AssocMap.find?_assign, PolicyOp.key,
        PolicyOp.value, PolicyKey.namespaced.injEq, beq_iff_eq]
      by_cases hns : p.ns = ns
      · subst hns
        by_cases hname : p.name = name
        · simp [AssocMap.find?_assign, hname]
        · cases e.nsPolicies.find? p.ns <;> simp [AssocMap.find?_assign, hname]
      · simp [hns]
  | deleteNamespaced n m =>
    cases key with
    | cluster name =>
      simp only [apply, deleteNamespacedPolicy]
      cases e.nsPolicies.find? n <;> simp [lookup, PolicyOp.key]
    | namespaced ns name =>
      simp only [apply, deleteNamespacedPolicy, PolicyOp.key, PolicyOp.value,
        PolicyKey.namespaced.injEq]
      cases hinner : e.nsPolicies.find? n with
      | none =>
        by_cases hns : n = ns
        · subst hns
          simp [lookup, hinner]
        · simp [hns]
      | some inner =>
        simp only [lookup, AssocMap.find?_assign, beq_iff_eq]
        by_cases hns : n = ns
        · subst hns
          by_cases hname : m = name <;> simp [AssocMap.find?_erase, hname, hinner]
        · simp [hns]

end Engine

theorem current_append (ops : List PolicyOp) (op : PolicyOp) (key : PolicyKey) :
    current (ops ++ [op]) key = if op.key = key then op.value else current ops key := by
  unfold current opsOn
  by_cases h : op.key = key <;> simp [h]

theorem lookup_run (ops : List PolicyOp) (key : PolicyKey) :
    (Engine.run ops).lookup key = current ops key := by
  induction ops using List.reverseRecOn with
  | nil => cases key <;> rfl
  | append_singleton ops op ih =>
    have hrun : Engine.run (ops ++ [op]) = (Engine.run ops).apply op := by
      simp [Engine.run]
    rw [hrun, Engine.lookup_apply, current_append, ih]

theorem shouldApplyToAdmissionControl_iff (stages : List LifecycleStage) :
    shouldApplyToAdmissionControl stages = true ↔ .deploy ∈ stages := by
  simp [shouldApplyToAdmissionControl]

theorem shouldApplyToSensor_iff (stages : List LifecycleStage) :
    shouldApplyToSensor stages = true ↔ .runtime ∈ stages := by
  simp [shouldApplyToSensor]

section Fired

variable (stage : LifecycleStage) (ctx : EvalContext) (message : PolicySpec → Result → String)

instance (spec : PolicySpec) : Decidable (spec.Fires stage ctx) :=
  inferInstanceAs (Decidable (_ ∧ _ ∧ _))

variable {stage} {shouldApply : List LifecycleStage → Bool}

theorem evaluatePolicy_eq (happly : ∀ stages, shouldApply stages = true ↔ stage ∈ stages)
    (spec : PolicySpec) :
    evaluatePolicy shouldApply ctx message spec =
      if spec.Fires stage ctx then some (spec.violation ctx message) else none := by
  unfold evaluatePolicy PolicySpec.Fires PolicySpec.violation
  by_cases hd : spec.disabled = true
  · simp [hd]
  · by_cases ha : shouldApply spec.lifecycleStages = true
    · have hstage := (happly _).mp ha
      by_cases hm : (evaluateSections spec.policySections ctx).matched = true <;>
        simp [hd, ha, hstage, hm]
    · have hstage := mt (happly _).mpr ha
      simp [ha, hstage]

variable (stage)

def firedIn {P : Type} (spec : P → PolicySpec) (key : String → PolicyKey) (m : AssocMap String P) :
    List (PolicyKey × PolicySpec) :=
  (m.entries.filter fun e => decide ((spec e.2).Fires stage ctx)).map fun e =>
    (key e.1, spec e.2)

variable {P : Type} (spec : P → PolicySpec) {key : String → PolicyKey}

/-- A loop over one map reports its firing policies, in the order of the iteration. -/
theorem perm_firedIn (happly : ∀ stages, shouldApply stages = true ↔ stage ∈ stages)
    (order : MapOrder) (m : AssocMap String P) :
    ((order.values m).filterMap fun p => evaluatePolicy shouldApply ctx message (spec p)).Perm
      ((firedIn stage ctx spec key m).map fun e => e.2.violation ctx message) := by
  refine ((order.perm m).filterMap _).trans (List.Perm.of_eq ?_)
  unfold firedIn
  induction m.entries with
  | nil => rfl
  | cons e l ih =>
    by_cases h : (spec e.2).Fires stage ctx <;>
      simp_all [evaluatePolicy_eq ctx message happly]

theorem nodup_firedIn (hkey : Function.Injective key) (m : AssocMap String P) :
    ((firedIn stage ctx spec key m).map Prod.fst).Nodup := by
  have hentries : (m.entries.map Prod.fst).Nodup := by
    refine List.pairwise_map.mpr (m.distinct.imp fun {a b} h => ?_)
    have hne : ¬ b.1 = a.1 := by simpa using h
    exact fun he => hne he.symm
  have hsub := (List.filter_sublist (p := fun e : String × P =>
    decide ((spec e.2).Fires stage ctx)) (l := m.entries)).map Prod.fst
  have hfiltered := (hentries.sublist hsub).map hkey
  simpa [firedIn, Function.comp_def] using hfiltered

theorem mem_firedIn (m : AssocMap String P) (k : PolicyKey) (s : PolicySpec) :
    (k, s) ∈ firedIn stage ctx spec key m ↔
      ∃ name, k = key name ∧ (m.find? name).map spec = some s ∧ s.Fires stage ctx := by
  simp only [firedIn, List.mem_map, List.mem_filter, decide_eq_true_eq, Prod.mk.injEq]
  constructor
  · intro h
    obtain ⟨e, ⟨he, hf⟩, rfl, rfl⟩ := h
    exact ⟨e.1, rfl, by rw [m.find?_of_mem he]; rfl, hf⟩
  · intro h
    obtain ⟨name, rfl, hs, hf⟩ := h
    obtain ⟨p, hp, rfl⟩ := Option.map_eq_some_iff.mp hs
    obtain ⟨e, he, hname, rfl⟩ := (m.find?_eq_some_iff name p).mp hp
    exact ⟨e, ⟨he, hf⟩, by rw [eq_of_beq hname], rfl⟩

def firedCluster (e : Engine) : List (PolicyKey × PolicySpec) :=
  firedIn stage ctx ClusterStackroxPolicy.spec .cluster e.clusterPolicies

def firedNamespaced (e : Engine) (ns : String) : List (PolicyKey × PolicySpec) :=
  match e.nsPolicies.find? ns with
  | none => []
  | some inner => firedIn stage ctx StackroxPolicy.spec (.namespaced ns) inner

theorem mem_firedCluster (ops : List PolicyOp) (k : PolicyKey) (s : PolicySpec) :
    (k, s) ∈ firedCluster stage ctx (Engine.run ops) ↔
      ∃ name, k = .cluster name ∧ current ops k = some s ∧ s.Fires stage ctx := by
  rw [firedCluster, mem_firedIn]
  refine exists_congr fun name => and_congr_right ?_
  intro h
  subst h
  rw [← lookup_run]
  rfl

theorem mem_firedNamespaced (ops : List PolicyOp) (ns : String) (k : PolicyKey) (s : PolicySpec) :
    (k, s) ∈ firedNamespaced stage ctx (Engine.run ops) ns ↔
      ∃ name, k = .namespaced ns name ∧ current ops k = some s ∧ s.Fires stage ctx := by
  have hlookup (name : String) := lookup_run ops (.namespaced ns name)
  unfold firedNamespaced
  cases hinner : (Engine.run ops).nsPolicies.find? ns with
  | none =>
    simp only [List.not_mem_nil, false_iff]
    intro h
    obtain ⟨name, rfl, hs, _⟩ := h
    rw [← hlookup] at hs
    simp [Engine.lookup, hinner] at hs
  | some inner =>
    rw [mem_firedIn]
    refine exists_congr fun name => and_congr_right ?_
    intro h
    subst h
    rw [← hlookup]
    simp [Engine.lookup, hinner]

theorem nodup_firedCluster (e : Engine) :
    ((firedCluster stage ctx e).map Prod.fst).Nodup :=
  nodup_firedIn _ _ _ (fun _ _ h => by simpa using h) _

theorem nodup_firedNamespaced (e : Engine) (ns : String) :
    ((firedNamespaced stage ctx e ns).map Prod.fst).Nodup := by
  unfold firedNamespaced
  cases e.nsPolicies.find? ns with
  | none => exact List.nodup_nil
  | some inner => exact nodup_firedIn _ _ _ (fun _ _ h => by simpa using h) _

end Fired

/-- Reports of two histories that agree on the scope are the same up to order. -/
theorem ReportsExactly.perm {ops ops' : List PolicyOp} {ns : String}
    {stage : LifecycleStage} {ctx : EvalContext}
    {message : PolicySpec → Result → String} {violations violations' : List Violation}
    (h : ReportsExactly ops ns stage ctx message violations)
    (h' : ReportsExactly ops' ns stage ctx message violations')
    (hcurrent : ∀ key, key.InScope ns → current ops' key = current ops key) :
    violations'.Perm violations := by
  obtain ⟨fired, hnodup, hmem, hperm⟩ := h
  obtain ⟨fired', hnodup', hmem', hperm'⟩ := h'
  have hfired : fired'.Perm fired := by
    refine (List.perm_ext_iff_of_nodup (hnodup'.of_map _) (hnodup.of_map _)).mpr ?_
    intro he
    obtain ⟨key, spec⟩ := he
    rw [hmem', hmem]
    refine and_congr_right fun hscope => ?_
    rw [hcurrent key hscope]
  exact hperm'.trans ((hfired.map _).trans hperm.symm)

private theorem reportsExactly_evaluateAdmission (order : MapOrder) (ops : List PolicyOp)
    (podSpec : PodSpec) (ns : String) :
    ReportsExactly ops ns .deploy (Subject.pod podSpec ns).context
      admissionMessage ((Engine.run ops).evaluateAdmission order podSpec ns) := by
  set ctx := (Subject.pod podSpec ns).context
  refine ⟨firedCluster .deploy ctx (Engine.run ops) ++
    firedNamespaced .deploy ctx (Engine.run ops) ns, ?_, ?_, ?_⟩
  · rw [List.map_append]
    refine List.nodup_append.mpr ⟨nodup_firedCluster _ _ _, nodup_firedNamespaced _ _ _ _, ?_⟩
    -- a cluster key is never a namespaced key
    rintro k hk k' hk' rfl
    obtain ⟨⟨_, s⟩, hs, rfl⟩ := List.mem_map.mp hk
    obtain ⟨⟨_, s'⟩, hs', he⟩ := List.mem_map.mp hk'
    obtain ⟨name, rfl, _⟩ := (mem_firedCluster _ _ ops _ _).mp hs
    obtain ⟨name', rfl, _⟩ := (mem_firedNamespaced _ _ ops ns _ _).mp hs'
    exact PolicyKey.noConfusion he
  · intro key spec
    rw [List.mem_append, mem_firedCluster, mem_firedNamespaced]
    cases key with
    | cluster name => simp [PolicyKey.InScope]
    | namespaced ns' name => simp [PolicyKey.InScope]
  · unfold Engine.evaluateAdmission firedNamespaced
    cases (Engine.run ops).nsPolicies.find? ns with
    | none =>
      rw [List.append_nil]
      exact perm_firedIn _ _ _ _ shouldApplyToAdmissionControl_iff order _
    | some inner =>
      rw [List.map_append]
      exact (perm_firedIn _ _ _ _ shouldApplyToAdmissionControl_iff order _).append
        (perm_firedIn _ _ _ _ shouldApplyToAdmissionControl_iff order _)

/-- Admission reports exactly the current policies of the scope that fire, whatever the
iteration order, and its result depends on the operations of each key in scope alone. -/
theorem admission_exact (order : MapOrder) (ops : List PolicyOp) (podSpec : PodSpec)
    (ns : String) :
    ReportsExactly ops ns .deploy (Subject.pod podSpec ns).context
        admissionMessage ((Engine.run ops).evaluateAdmission order podSpec ns) ∧
      ∀ (order' : MapOrder) (ops' : List PolicyOp),
        (∀ key, key.InScope ns → opsOn key ops' = opsOn key ops) →
          ((Engine.run ops').evaluateAdmission order' podSpec ns).Perm
            ((Engine.run ops).evaluateAdmission order podSpec ns) := by
  have hexact := reportsExactly_evaluateAdmission order ops podSpec ns
  refine ⟨hexact, fun order' ops' hops => ?_⟩
  have hexact' := reportsExactly_evaluateAdmission order' ops' podSpec ns
  exact hexact.perm hexact' fun key hscope => by rw [current, current, hops key hscope]

def hostNetworkPolicy : PolicySpec :=
  ⟨"No Host Network", "HIGH_SEVERITY", false, [.deploy], unaryPolicy "Host Network" false⟩

def hostPod : PodSpec := ⟨[], [⟨"nginx:1.25", none, none⟩], true⟩

def hostViolation : Violation :=
  ⟨"No Host Network", "No Host Network: field \"Host Network\" matched", "high"⟩

/-- The pod has one violation, and the policy of another namespace, set before the cluster
policy, changes nothing. -/
theorem admission_exact_hostPod :
    ReportsExactly [.setCluster ⟨"no-host-network", hostNetworkPolicy⟩] "prod"
        .deploy (Subject.pod hostPod "prod").context admissionMessage [hostViolation] ∧
      (Engine.run [.setCluster ⟨"no-host-network", hostNetworkPolicy⟩]).evaluateAdmission .stored
        hostPod "prod" = [hostViolation] ∧
      ((Engine.run [.setNamespaced ⟨"test", "no-host-network", hostNetworkPolicy⟩,
          .setCluster ⟨"no-host-network", hostNetworkPolicy⟩]).evaluateAdmission .stored
          hostPod "prod").Perm
        ((Engine.run [.setCluster ⟨"no-host-network", hostNetworkPolicy⟩]).evaluateAdmission .stored
          hostPod "prod") := by
  obtain ⟨hexact, hperm⟩ := admission_exact .stored
    [.setCluster ⟨"no-host-network", hostNetworkPolicy⟩] hostPod "prod"
  have hone : (Engine.run [.setCluster ⟨"no-host-network", hostNetworkPolicy⟩]).evaluateAdmission
      .stored hostPod "prod" = [hostViolation] := by
    decide
  refine ⟨hone ▸ hexact, hone, hperm .stored _ fun key hscope => ?_⟩
  cases key with
  | cluster name => simp [opsOn, PolicyOp.key]
  | namespaced ns name =>
    have hns : ns = "prod" := hscope
    simp [opsOn, PolicyOp.key, hns]

/-- A report from the cluster store alone is exact when no policy of the namespace fires. -/
private theorem reportsExactly_firedCluster_iff (ops : List PolicyOp) (ns : String)
    (stage : LifecycleStage) (ctx : EvalContext)
    (message : PolicySpec → Result → String) (violations : List Violation)
    (hv : violations.Perm
      ((firedCluster stage ctx (Engine.run ops)).map fun e => e.2.violation ctx message)) :
    ReportsExactly ops ns stage ctx message violations ↔
      ∀ name spec, current ops (.namespaced ns name) = some spec →
        ¬ spec.Fires stage ctx := by
  constructor
  · rintro ⟨fired, hnodup, hmem, hperm⟩ name spec hcur hfires
    have hin : (PolicyKey.namespaced ns name, spec) ∈ fired := (hmem _ _).mpr ⟨rfl, hcur, hfires⟩
    have hout : (PolicyKey.namespaced ns name, spec) ∉
        firedCluster stage ctx (Engine.run ops) := by
      rw [mem_firedCluster]
      intro h
      obtain ⟨_, he, _⟩ := h
      exact PolicyKey.noConfusion he
    -- the namespaced policy would be one violation more than the cluster store gives
    have hsub : (PolicyKey.namespaced ns name, spec) ::
        firedCluster stage ctx (Engine.run ops) ⊆ fired := by
      rintro ⟨key, s⟩ hx
      rcases List.mem_cons.mp hx with he | hx
      · rwa [he]
      · obtain ⟨n, rfl, hs, hf⟩ := (mem_firedCluster _ _ ops _ _).mp hx
        exact (hmem _ _).mpr ⟨trivial, hs, hf⟩
    have hcluster := (nodup_firedCluster stage ctx (Engine.run ops)).of_map
    have hlt := (List.subperm_of_subset (List.nodup_cons.mpr ⟨hout, hcluster⟩) hsub).length_le
    have hlen := (hperm.symm.trans hv).length_eq
    simp only [List.length_map, List.length_cons] at hlen hlt
    omega
  · intro hno
    refine ⟨firedCluster stage ctx (Engine.run ops), nodup_firedCluster _ _ _, ?_, hv⟩
    intro key spec
    rw [mem_firedCluster]
    cases key with
    | cluster name => simp [PolicyKey.InScope]
    | namespaced ns' name =>
      simp only [reduceCtorEq, false_and, exists_false, PolicyKey.InScope, false_iff, not_and]
      rintro rfl hcur
      exact hno name spec hcur

/-- Runtime events are covered as admission is exactly when no current namespaced policy of
the event's namespace fires: only the cluster store is evaluated. -/
theorem runtime_coverage_iff (order : MapOrder) (ops : List PolicyOp) :
    (∀ event : ProcessEvent,
      ReportsExactly ops event.container.ns .runtime
          (Subject.process event.processName event.executable).context (processMessage event)
          ((Engine.run ops).evaluateProcessEvent order event) ↔
        ∀ name spec, current ops (.namespaced event.container.ns name) = some spec →
          ¬ spec.Fires .runtime
            (Subject.process event.processName event.executable).context) ∧
    ∀ event : NetworkEvent, event.eventType = "ACCEPT" →
      (ReportsExactly ops event.container.ns .runtime
          (Subject.network event.dstPort event.eventType).context (networkMessage event)
          ((Engine.run ops).evaluateNetworkEvent order event) ↔
        ∀ name spec, current ops (.namespaced event.container.ns name) = some spec →
          ¬ spec.Fires .runtime
            (Subject.network event.dstPort event.eventType).context) := by
  refine ⟨fun event => ?_, fun event haccept => ?_⟩
  · exact reportsExactly_firedCluster_iff _ _ _ _ _ _ (perm_firedIn _ _ _ _ shouldApplyToSensor_iff order _)
  · refine reportsExactly_firedCluster_iff _ _ _ _ _ _ ?_
    rw [Engine.evaluateNetworkEvent, if_neg (by simp [haccept])]
    exact perm_firedIn _ _ _ _ shouldApplyToSensor_iff order _

def shellPolicy : PolicySpec :=
  ⟨"Shell In Container", "HIGH_SEVERITY", false, [.runtime],
    [⟨[⟨"Process Name", .unset, false, ["/bin/sh"]⟩]⟩]⟩

def shellEvent : ProcessEvent := ⟨⟨"prod", "web-0"⟩, "sh", "/bin/sh"⟩

def sshEvent : NetworkEvent := ⟨⟨"prod", "web-0"⟩, 22, "ACCEPT"⟩

theorem runtime_coverage_sshEvent :
    ReportsExactly [.setCluster ⟨"shell", shellPolicy⟩] "prod" .runtime
        (Subject.network 22 "ACCEPT").context (networkMessage sshEvent)
        ((Engine.run [.setCluster ⟨"shell", shellPolicy⟩]).evaluateNetworkEvent .stored sshEvent) ↔
      ∀ name spec, current [.setCluster ⟨"shell", shellPolicy⟩] (.namespaced "prod" name) =
          some spec →
        ¬ spec.Fires .runtime (Subject.network 22 "ACCEPT").context :=
  (runtime_coverage_iff .stored [.setCluster ⟨"shell", shellPolicy⟩]).2 sshEvent rfl

/-- A shell started in the namespace of a policy against shells is not reported. -/
theorem runtime_coverage_fails_shellEvent :
    (Engine.run [.setNamespaced ⟨"prod", "shell", shellPolicy⟩]).evaluateProcessEvent .stored
        shellEvent = [] ∧
      current [.setNamespaced ⟨"prod", "shell", shellPolicy⟩] (.namespaced "prod" "shell") =
        some shellPolicy ∧
      shellPolicy.Fires .runtime (Subject.process "sh" "/bin/sh").context ∧
      ¬ ReportsExactly [.setNamespaced ⟨"prod", "shell", shellPolicy⟩] "prod" .runtime
        (Subject.process "sh" "/bin/sh").context (processMessage shellEvent)
        ((Engine.run [.setNamespaced ⟨"prod", "shell", shellPolicy⟩]).evaluateProcessEvent .stored
          shellEvent) := by
  have hcurrent : current [.setNamespaced ⟨"prod", "shell", shellPolicy⟩]
      (.namespaced "prod" "shell") = some shellPolicy := by
    decide
  have hfires : shellPolicy.Fires .runtime
      (Subject.process "sh" "/bin/sh").context := by
    decide
  refine ⟨rfl, hcurrent, hfires, ?_⟩
  intro h
  obtain ⟨fired, _, hmem, hperm⟩ := h
  have hin := (hmem (.namespaced "prod" "shell") shellPolicy).mpr ⟨rfl, hcurrent, hfires⟩
  have hlen := hperm.length_eq
  rw [List.length_map] at hlen
  exact List.ne_nil_of_mem hin (List.length_eq_zero_iff.mp hlen.symm)

/-- A report is empty exactly when no current policy of the scope fires. -/
theorem ReportsExactly.eq_nil_iff {ops : List PolicyOp} {ns : String}
    {stage : LifecycleStage} {ctx : EvalContext}
    {message : PolicySpec → Result → String} {violations : List Violation}
    (h : ReportsExactly ops ns stage ctx message violations) :
    violations = [] ↔ ∀ key spec, key.InScope ns → current ops key = some spec →
      ¬ spec.Fires stage ctx := by
  obtain ⟨fired, _, hmem, hperm⟩ := h
  constructor
  · intro hnil key spec hscope hcurrent hfires
    rw [hnil] at hperm
    have hempty := List.map_eq_nil_iff.mp hperm.symm.eq_nil
    have hin := (hmem key spec).mpr ⟨hscope, hcurrent, hfires⟩
    rw [hempty] at hin
    cases hin
  · intro hnone
    have hempty : fired = [] := by
      apply List.eq_nil_iff_forall_not_mem.mpr
      intro e he
      obtain ⟨hscope, hcurrent, hfires⟩ := (hmem e.1 e.2).mp he
      exact hnone e.1 e.2 hscope hcurrent hfires
    rw [hempty] at hperm
    exact hperm.eq_nil

theorem evaluateAdmission_reports (order : MapOrder) (ops : List PolicyOp) (podSpec : PodSpec)
    (ns : String) :
    ReportsExactly ops ns .deploy (Subject.pod podSpec ns).context
      admissionMessage ((Engine.run ops).evaluateAdmission order podSpec ns) :=
  reportsExactly_evaluateAdmission order ops podSpec ns

end AcsNext.Policy
