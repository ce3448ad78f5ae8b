import AcsNext.Policy.Evaluator

/-! What a list of policy sections says: each group is a criterion on single values, and the
policy is the conjunction of all groups, whatever the order and the repetitions. -/
namespace AcsNext.Policy

/-- Given values, a registered handler asks whether it would match one of them alone. -/
theorem handler_eq_any {fieldName : String} {handler : FieldHandler}
    (hget : getFieldHandler fieldName = some handler) (ctx : EvalContext) {values : List String}
    (hvalues : values ≠ []) : handler ctx values = values.any fun v => handler ctx [v] := by
  -- what does not read the values is the same for each of them
  have hconst (b : Bool) : b = values.any fun _ => b := by
    obtain ⟨v, rest, rfl⟩ := List.exists_cons_of_ne_nil hvalues
    cases b <;> simp
  have hpos : 0 < values.length := List.length_pos_of_ne_nil hvalues
  unfold getFieldHandler at hget
  split at hget <;> cases hget
  case h_2 =>
    unfold fieldImageTag
    cases ctx.podSpec with
    | none => exact hconst false
    | some podSpec =>
      have hcontainer : Container.imageTagMatches values =
          fun c => values.any fun v => c.imageTagMatches [v] := by
        funext c
        unfold Container.imageTagMatches
        split_ifs
        · exact hconst false
        · exact hconst false
        · simp
      rw [hcontainer, Bool.eq_iff_iff]
      simp only [List.any_eq_true]
      exact ⟨fun ⟨c, hc, v, hv, h⟩ => ⟨v, hv, c, hc, h⟩, fun ⟨v, hv, c, hc, h⟩ => ⟨c, hc, v, hv, h⟩⟩
  case h_6 =>
    unfold fieldProcessName
    split_ifs
    · exact hconst false
    · simp
  case h_7 =>
    unfold fieldPort
    split_ifs
    · exact hconst false
    · simp
  all_goals exact hconst _

/-- What a group says before negation: the field alone, or about its values one by one. -/
def PolicyGroup.Criterion (group : PolicyGroup) (handler : FieldHandler) (ctx : EvalContext) :
    Prop :=
  if group.values = [] then handler ctx [] = true
  else if group.booleanOperator = .and then ∀ v ∈ group.values, handler ctx [v] = true
  else ∃ v ∈ group.values, handler ctx [v] = true

theorem PolicyGroup.matchValues_iff (group : PolicyGroup) {handler : FieldHandler}
    (hget : getFieldHandler group.fieldName = some handler) (ctx : EvalContext) :
    group.matchValues handler ctx = true ↔ group.Criterion handler ctx := by
  unfold PolicyGroup.matchValues PolicyGroup.Criterion
  by_cases hnil : group.values = []
  · simp [hnil]
  · have hlength : group.values.length ≠ 0 := by simpa using hnil
    rw [if_neg hlength, if_neg hnil]
    split_ifs
    · simp
    · rw [handler_eq_any hget ctx hnil]
      simp

theorem PolicyGroup.holds_iff (group : PolicyGroup) (ctx : EvalContext) :
    group.Holds ctx ↔ ∃ handler, getFieldHandler group.fieldName = some handler ∧
      Xor (group.negate = true) (group.Criterion handler ctx) := by
  unfold PolicyGroup.Holds
  refine exists_congr fun handler => and_congr_right fun hget => ?_
  rw [← group.matchValues_iff hget ctx]
  cases group.negate <;> cases group.matchValues handler ctx <;> simp [Xor]

/-- The lists differ in the order and the number of their elements, and in elements for
which `r` has others stand. -/
def Rearranged {α : Type*} (r : α → α → Prop) (xs ys : List α) : Prop :=
  (∀ x ∈ xs, ∃ y ∈ ys, r x y) ∧ ∀ y ∈ ys, ∃ x ∈ xs, r x y

theorem Rearranged.of_mem_iff {α : Type*} {r : α → α → Prop} (hr : ∀ x, r x x) {xs ys : List α}
    (h : ∀ x, x ∈ xs ↔ x ∈ ys) : Rearranged r xs ys :=
  ⟨fun x hx => ⟨x, (h x).mp hx, hr x⟩, fun y hy => ⟨y, (h y).mpr hy, hr y⟩⟩

theorem Rearranged.forall_iff {α : Type*} {r : α → α → Prop} {p : α → Prop} {xs ys : List α}
    (h : Rearranged r xs ys) (hp : ∀ x y, r x y → (p x ↔ p y)) :
    (∀ x ∈ xs, p x) ↔ ∀ y ∈ ys, p y := by
  constructor
  · intro hall y hy
    obtain ⟨x, hx, hxy⟩ := h.2 y hy
    exact (hp x y hxy).mp (hall x hx)
  · intro hall x hx
    obtain ⟨y, hy, hxy⟩ := h.1 x hx
    exact (hp x y hxy).mpr (hall y hy)

def PolicyGroup.Rearranged (group group' : PolicyGroup) : Prop :=
  group.fieldName = group'.fieldName ∧ group.booleanOperator = group'.booleanOperator ∧
    group.negate = group'.negate ∧ Policy.Rearranged (· = ·) group.values group'.values

def PolicySection.Rearranged (policySection policySection' : PolicySection) : Prop :=
  Policy.Rearranged PolicyGroup.Rearranged policySection.policyGroups policySection'.policyGroups

theorem PolicyGroup.Rearranged.criterion_iff {group group' : PolicyGroup}
    (h : group.Rearranged group') (handler : FieldHandler) (ctx : EvalContext) :
    group.Criterion handler ctx ↔ group'.Criterion handler ctx := by
  obtain ⟨_, hop, _, hvalues⟩ := h
  have hmem : ∀ v, v ∈ group.values ↔ v ∈ group'.values := fun v => by
    constructor
    · intro hv
      obtain ⟨w, hw, rfl⟩ := hvalues.1 v hv
      exact hw
    · intro hv
      obtain ⟨w, hw, rfl⟩ := hvalues.2 v hv
      exact hw
  have hnil : group.values = [] ↔ group'.values = [] := by
    simp only [List.eq_nil_iff_forall_not_mem, hmem]
  unfold PolicyGroup.Criterion
  simp only [hnil, hop, hmem]

theorem PolicyGroup.Rearranged.holds_iff {group group' : PolicyGroup}
    (h : group.Rearranged group') (ctx : EvalContext) : group.Holds ctx ↔ group'.Holds ctx := by
  rw [PolicyGroup.holds_iff, PolicyGroup.holds_iff, h.1, h.2.2.1]
  simp only [h.criterion_iff]

def PolicyGroup.message (group : PolicyGroup) : String :=
  if 0 < group.values.length then
    "field \"" ++ group.fieldName ++ "\" matched values [" ++ " ".intercalate group.values ++ "]"
  else "field \"" ++ group.fieldName ++ "\" matched"

theorem messages_evaluateGroup {group : PolicyGroup} {ctx : EvalContext}
    (h : (evaluateGroup group ctx).matched = true) :
    (evaluateGroup group ctx).messages = [group.message] := by
  unfold evaluateGroup at h ⊢
  cases hget : getFieldHandler group.fieldName with
  | none => simp [hget] at h
  | some handler =>
    simp only [hget] at h ⊢
    split_ifs at h ⊢ <;> simp_all [PolicyGroup.message]

theorem messages_evaluateAll {α : Type*} (evaluate : α → Result) (xs : List α)
    (messages : List String) (h : (evaluateAll evaluate xs messages).matched = true) :
    (evaluateAll evaluate xs messages).messages =
      messages ++ xs.flatMap fun x => (evaluate x).messages := by
  induction xs generalizing messages with
  | nil => simp [evaluateAll]
  | cons x xs ih =>
    unfold evaluateAll at h ⊢
    split_ifs at h ⊢ with hx
    rw [ih _ h, List.flatMap_cons, List.append_assoc]

theorem messages_evaluateSections {sections : List PolicySection} {ctx : EvalContext}
    (h : (evaluateSections sections ctx).matched = true) :
    (evaluateSections sections ctx).messages = (allGroups sections).map PolicyGroup.message := by
  have hsections : ∀ s ∈ sections, (evaluateSection s ctx).matched = true := by
    unfold evaluateSections at h
    rwa [matched_evaluateAll, List.all_eq_true] at h
  unfold evaluateSections at h ⊢
  rw [messages_evaluateAll _ _ _ h, List.nil_append, allGroups, List.map_flatMap]
  refine List.flatMap_congr fun s hs => ?_
  have hs := hsections s hs
  unfold evaluateSection at hs ⊢
  have hgroups : ∀ g ∈ s.policyGroups, (evaluateGroup g ctx).messages = [g.message] := by
    have hall := hs
    rw [matched_evaluateAll, List.all_eq_true] at hall
    exact fun g hg => messages_evaluateGroup (hall g hg)
  rw [messages_evaluateAll _ _ _ hs, List.nil_append, List.flatMap_congr hgroups]
  exact List.map_eq_flatMap.symm

/-- A policy matches when each group of each section does: its field is registered, and its
criterion holds or, negated, fails. Order and repetitions do not matter, and a match has one
message for each group, in order. -/
theorem evaluateSections_semantics (sections : List PolicySection) (ctx : EvalContext) :
    ((evaluateSections sections ctx).matched = true ↔
      ∀ s ∈ sections, ∀ group ∈ s.policyGroups, ∃ handler,
        getFieldHandler group.fieldName = some handler ∧
          Xor (group.negate = true) (group.Criterion handler ctx)) ∧
    (∀ sections', Rearranged PolicySection.Rearranged sections sections' →
      (evaluateSections sections' ctx).matched = (evaluateSections sections ctx).matched) ∧
    ((evaluateSections sections ctx).matched = true →
      (evaluateSections sections ctx).messages =
        (allGroups sections).map PolicyGroup.message) := by
  have hmatched (sections : List PolicySection) : (evaluateSections sections ctx).matched = true ↔
      ∀ s ∈ sections, ∀ group ∈ s.policyGroups, group.Holds ctx := by
    rw [matched_evaluateSections_iff, allGroups]
    simp only [List.mem_flatMap, forall_exists_index, and_imp]
    exact ⟨fun h s hs group hg => h group s hs hg, fun h group s hs hg => h s hs group hg⟩
  refine ⟨?_, fun sections' hsections => ?_, messages_evaluateSections⟩
  · rw [hmatched]
    simp only [PolicyGroup.holds_iff]
  · rw [Bool.eq_iff_iff, hmatched, hmatched]
    refine (hsections.forall_iff fun s s' hs => ?_).symm
    exact hs.forall_iff fun group group' hgroup => hgroup.holds_iff ctx

def portSection (values : List String) : PolicySection := ⟨[⟨"Port", .unset, false, values⟩]⟩

/-- The sections in the other order, and one of them twice, with its values in the other
order. -/
theorem evaluateSections_semantics_portSection :
    (evaluateSections [⟨[]⟩, portSection ["443", "22"], portSection ["22", "443"]]
      (Subject.network 22 "ACCEPT").context).matched = true := by
  have hsame : (portSection ["22", "443"]).Rearranged (portSection ["443", "22"]) := by
    have hvalues : Rearranged (· = ·) ["22", "443"] ["443", "22"] :=
      .of_mem_iff (fun _ => rfl) (by simp [or_comm])
    have hgroup : PolicyGroup.Rearranged ⟨"Port", .unset, false, ["22", "443"]⟩
        ⟨"Port", .unset, false, ["443", "22"]⟩ := ⟨rfl, rfl, rfl, hvalues⟩
    constructor
    · simpa [portSection] using hgroup
    · simpa [portSection] using hgroup
  have hrefl (s : PolicySection) : s.Rearranged s :=
    .of_mem_iff (fun _ => ⟨rfl, rfl, rfl, .of_mem_iff (fun _ => rfl) fun _ => Iff.rfl⟩)
      fun _ => Iff.rfl
  rw [(evaluateSections_semantics [portSection ["22", "443"], ⟨[]⟩] _).2.1]
  · rfl
  · constructor
    · simp [hrefl]
    · simp [hrefl, hsame]

end AcsNext.Policy
