import AcsNext.Collector.YamlExact

/-! The validation of the keys of a document: which keys it lets through that no field is looked
up by. -/
namespace AcsNext.Collector

/-- The names of fields: a small letter, then small letters, digits and underscores. -/
def isSnakeCase : Text → Bool
  | [] => false
  | c :: rest => ('a' ≤ c && c ≤ 'z') &&
      rest.all fun d => ('a' ≤ d && d ≤ 'z') || ('0' ≤ d && d ≤ '9') || d == '_'

/-- No underscores, and no capital letter at the front. -/
def CamelCase (name : Text) : Prop :=
  '_' ∉ name ∧ ∀ c ∈ name.head?, charIsUpper c = false

theorem charToUpper_charToLower {c : Char} (h : charIsUpper c = true) :
    charToUpper (charToLower c) = c ∧ charToLower c ≠ '_' := by
  simp only [charIsUpper, Bool.and_eq_true, decide_eq_true_eq] at h
  have hlow : 65 ≤ c.toNat := h.1
  have hhigh : c.toNat ≤ 90 := h.2
  rw [← Char.ofNat_toNat c]
  generalize c.toNat = n at hlow hhigh
  interval_cases n <;> decide

theorem charToLower_of_not_upper {c : Char} (h : charIsUpper c = false) : charToLower c = c := by
  unfold charToLower
  rw [if_neg]
  intro hupper
  simp [charIsUpper, hupper] at h

theorem charToUpper_ne_underscore {c : Char} (h : c ≠ '_') : charToUpper c ≠ '_' := by
  unfold charToUpper
  split_ifs with hlower
  · have hlow : 97 ≤ c.toNat := hlower.1
    have hhigh : c.toNat ≤ 122 := hlower.2
    generalize c.toNat = n at hlow hhigh
    interval_cases n <;> decide
  · exact h

theorem snakeToCamelFrom_camelToSnakeFrom {s : Text} (h : '_' ∉ s) :
    snakeToCamelFrom false (camelToSnakeFrom false s) = s := by
  induction s with
  | nil => rfl
  | cons c s ih =>
    simp only [List.mem_cons, not_or] at h
    have hrest := ih h.2
    cases hupper : charIsUpper c with
    | true =>
      obtain ⟨hback, hne⟩ := charToUpper_charToLower hupper
      simp [camelToSnakeFrom, snakeToCamelFrom, hupper, hback, hne, hrest]
    | false =>
      simp [camelToSnakeFrom, snakeToCamelFrom, hupper, charToLower_of_not_upper hupper, hrest,
        Ne.symm h.1]

/-- On such names the two conversions are inverse. -/
theorem snakeCaseToCamel_camelCaseToSnake {s : Text} (h : CamelCase s) :
    snakeCaseToCamel (camelCaseToSnake s) = s := by
  obtain ⟨hunderscore, hfront⟩ := h
  cases s with
  | nil => rfl
  | cons c s =>
    simp only [List.mem_cons, not_or] at hunderscore
    have hlower := charToLower_of_not_upper (hfront c rfl)
    simp [snakeCaseToCamel, camelCaseToSnake, camelToSnakeFrom, snakeToCamelFrom, hlower,
      Ne.symm hunderscore.1, snakeToCamelFrom_camelToSnakeFrom hunderscore.2]

theorem not_mem_snakeToCamelFrom (capitalize : Bool) (s : Text) :
    '_' ∉ snakeToCamelFrom capitalize s := by
  induction s generalizing capitalize with
  | nil => simp [snakeToCamelFrom]
  | cons c s ih =>
    rw [snakeToCamelFrom]
    split_ifs with hc hcapitalize
    · exact ih true
    · exact List.not_mem_cons_of_ne_of_not_mem (charToUpper_ne_underscore hc).symm (ih false)
    · exact List.not_mem_cons_of_ne_of_not_mem (Ne.symm hc) (ih false)

theorem camelCase_snakeCaseToCamel {name : Text} (h : isSnakeCase name = true) :
    CamelCase (snakeCaseToCamel name) := by
  refine ⟨not_mem_snakeToCamelFrom false name, ?_⟩
  cases name with
  | nil => cases h
  | cons c rest =>
    have hlower : 'a' ≤ c := by
      simp only [isSnakeCase, Bool.and_eq_true, decide_eq_true_eq] at h
      exact h.1.1
    have hne : c ≠ '_' := by
      rintro rfl
      exact absurd hlower (by decide)
    have hhead : (snakeCaseToCamel (c :: rest)).head? = some c := by
      simp [snakeCaseToCamel, snakeToCamelFrom, hne]
    intro d hd
    obtain rfl : c = d := Option.some.inj (hhead.symm.trans hd)
    have hnot : ¬ c ≤ 'Z' := fun hle => absurd (Char.le_trans hlower hle) (by decide)
    simp [charIsUpper, hnot]

mutual

def YamlNode.hasKeys : YamlNode → Bool
  | .map entries => !entries.isEmpty
  | .sequence items => YamlNode.anyHasKeys items
  | _ => false

def YamlNode.anyHasKeys : List YamlNode → Bool
  | [] => false
  | item :: items => item.hasKeys || YamlNode.anyHasKeys items

end

/-- All keys outside of sequences have the property. -/
def EveryKey (P : YamlNode → Prop) : YamlEntries → Prop
  | [] => True
  | (key, value) :: entries =>
    P key ∧
    (match value with
      | .map sub => EveryKey P sub
      | _ => True) ∧
    EveryKey P entries

def StringKeys (entries : YamlEntries) : Prop :=
  EveryKey (fun key => ∃ text, key = .scalar text) entries

def CamelCaseKeys (entries : YamlEntries) : Prop :=
  EveryKey (fun key => ∀ text, key = .scalar text → CamelCase text) entries

theorem everyKey_nil (P : YamlNode → Prop) : EveryKey P [] := by
  rw [EveryKey]
  exact trivial

theorem everyKey_cons {P : YamlNode → Prop} {key value : YamlNode} {entries : YamlEntries} :
    EveryKey P ((key, value) :: entries) ↔
      P key ∧ (∀ sub, value = .map sub → EveryKey P sub) ∧ EveryKey P entries := by
  cases value with
  | map sub => simp [EveryKey]
  | _ => simp [EveryKey]

/-- A sequence in the document that is in no other sequence. -/
inductive SequenceIn (items : List YamlNode) : YamlEntries → Prop
  | here {key : YamlNode} {entries : YamlEntries} (hmem : (key, .sequence items) ∈ entries) :
      SequenceIn items entries
  | inside {key : YamlNode} {sub entries : YamlEntries} (hmem : (key, .map sub) ∈ entries)
      (hsub : SequenceIn items sub) : SequenceIn items entries

/-- Induction over the entries of a map and of the maps in it. -/
theorem YamlEntries.nested_induction {P : YamlEntries → Prop} (nil : P [])
    (cons : ∀ key value entries, (∀ sub, value = .map sub → P sub) → P entries →
      P ((key, value) :: entries)) (entries : YamlEntries) : P entries := by
  induction hsize : sizeOf entries using Nat.strong_induction_on generalizing entries with
  | _ size ih =>
    cases entries with
    | nil => exact nil
    | cons entry entries =>
      obtain ⟨key, value⟩ := entry
      simp only [List.cons.sizeOf_spec, Prod.mk.sizeOf_spec] at hsize
      apply cons
      · rintro sub rfl
        rw [YamlNode.map.sizeOf_spec] at hsize
        exact ih (sizeOf sub) (by omega) sub rfl
      · exact ih (sizeOf entries) (by omega) entries rfl

namespace ParserYaml

variable {M : Type*} (p : ParserYaml) (schema : Schema M) (conv : YamlConversion)

/-- Every key is the name under which a field of the message around it is looked up. The keys in
a sequence are in no message. -/
def KeysLookedUp (m : M) : YamlEntries → Prop
  | [] => True
  | (key, value) :: entries =>
    (∃ field ∈ schema.fields m, key = .scalar (p.lookupName field) ∧
      match value with
      | .map sub => ∃ m', field.type = .message m' ∧ field.repeated = false ∧ KeysLookedUp m' sub
      | .sequence items => YamlNode.anyHasKeys items = false
      | _ => True) ∧
    KeysLookedUp m entries

/-- The node is one that `Parse` looks up for a field. -/
def LooksUpNode (m : M) (entries : YamlEntries) (node : YamlNode) : Prop :=
  ∃ f ∈ schema.fields m, ∃ n, yamlLookup entries (p.lookupName f) = some n ∧
    ∃ path g, ReachesField p schema f n path g node

/-- `as<T>` throws for a node that is no scalar, save that null may be a text. -/
def ScalarsOnly : Prop :=
  (∀ type items, conv.as type (.sequence items) = none) ∧
    ∀ type entries, conv.as type (.map entries) = none

variable {p schema conv}

theorem keysLookedUp_cons {m : M} {key value : YamlNode} {entries : YamlEntries} :
    KeysLookedUp p schema m ((key, value) :: entries) ↔
      (∃ field ∈ schema.fields m, key = .scalar (p.lookupName field) ∧
        match value with
        | .map sub => ∃ m', field.type = .message m' ∧ field.repeated = false ∧
            KeysLookedUp p schema m' sub
        | .sequence items => YamlNode.anyHasKeys items = false
        | _ => True) ∧
      KeysLookedUp p schema m entries := by
  rw [KeysLookedUp]

/-- What `FindUnknownFields` has found of an entry if it finds no error. -/
theorem findUnknownFields_cons {m : M} {key value : YamlNode} {entries : YamlEntries}
    (h : p.findUnknownFields schema conv m ((key, value) :: entries) = some []) :
    (∃ text, conv.as .string key = some text ∧ ∃ field ∈ schema.fields m,
      field.name = (if p.readCamelcase then camelCaseToSnake text else text) ∧
      ∀ sub, value = .map sub → ∃ m', field.type = .message m' ∧ field.repeated = false ∧
        p.findUnknownFields schema conv m' sub = some []) ∧
    p.findUnknownFields schema conv m entries = some [] := by
  rw [findUnknownFields] at h
  obtain ⟨text, htext, h⟩ := Option.bind_eq_some_iff.mp h
  obtain ⟨errors, hentry, h⟩ := Option.bind_eq_some_iff.mp h
  obtain ⟨errors', hentries, h⟩ := Option.bind_eq_some_iff.mp h
  obtain ⟨rfl, rfl⟩ : errors = [] ∧ errors' = [] := by simpa using h
  refine ⟨⟨text, htext, ?_⟩, hentries⟩
  cases hfind : (schema.fields m).find? fun field =>
      field.name = if p.readCamelcase then camelCaseToSnake text else text with
  | none => simp [hfind] at hentry
  | some field =>
    refine ⟨field, List.mem_of_find?_eq_some hfind, by simpa using List.find?_some hfind, ?_⟩
    rintro sub rfl
    rw [hfind] at hentry
    dsimp only at hentry
    rw [findUnknownInValue] at hentry
    cases htype : field.type with
    | message m' =>
      rw [htype] at hentry
      dsimp only at hentry
      split_ifs at hentry with hrepeated
      exact ⟨m', rfl, by simpa using hrepeated, hentry⟩
    | _ => simp [htype] at hentry

section Keys

variable {m : M} {entries : YamlEntries} {items : List YamlNode}

theorem lookupName_eq_of_snake {field : FieldDescriptor M} {text : Text}
    (hname : field.name = if p.readCamelcase then camelCaseToSnake text else text)
    (hcamel : p.readCamelcase = true → CamelCase text) : p.lookupName field = text := by
  unfold lookupName
  rw [hname]
  split_ifs with h
  · exact snakeCaseToCamel_camelCaseToSnake (hcamel h)
  · rfl

/-- Validation is right for keys that the conversions do not change, outside of sequences. -/
theorem keysLookedUp_of_findUnknownFields (hkeys : StringKeys entries)
    (hcamel : p.readCamelcase = true → CamelCaseKeys entries)
    (hsequences : ∀ items, SequenceIn items entries → YamlNode.anyHasKeys items = false)
    (h : p.findUnknownFields schema conv m entries = some []) :
    KeysLookedUp p schema m entries := by
  induction entries using YamlEntries.nested_induction generalizing m with
  | nil => simp [KeysLookedUp]
  | cons key value entries ihsub ih =>
    obtain ⟨⟨text, htext, field, hfield, hname, hsub⟩, hentries⟩ := findUnknownFields_cons h
    obtain ⟨⟨text', rfl⟩, hkeysSub, hkeysRest⟩ := everyKey_cons.mp hkeys
    have hcamel' := fun hread => everyKey_cons.mp (hcamel hread)
    obtain rfl : text' = text := Option.some.inj ((conv.as_string_scalar text').symm.trans htext)
    have hlookup : p.lookupName field = text' :=
      lookupName_eq_of_snake hname fun hread => (hcamel' hread).1 text' rfl
    refine keysLookedUp_cons.mpr ⟨⟨field, hfield, by rw [hlookup], ?_⟩, ?_⟩
    · cases value with
      | map sub =>
        obtain ⟨m', htype, hsingular, hfound⟩ := hsub sub rfl
        refine ⟨m', htype, hsingular, ihsub sub rfl (hkeysSub sub rfl) ?_ ?_ hfound⟩
        · exact fun hread => (hcamel' hread).2.1 sub rfl
        · exact fun items hin => hsequences items (.inside List.mem_cons_self hin)
      | sequence items => exact hsequences items (.here List.mem_cons_self)
      | _ => exact trivial
    · apply ih hkeysRest (fun hread => (hcamel' hread).2.2) _ hentries
      intro items hin
      apply hsequences
      cases hin with
      | here hmem => exact .here (List.mem_cons_of_mem _ hmem)
      | inside hmem hin => exact .inside (List.mem_cons_of_mem _ hmem) hin

theorem camelCaseKeys_of_keysLookedUp
    (hschema : ∀ m, ∀ f ∈ schema.fields m, isSnakeCase f.name = true)
    (hread : p.readCamelcase = true)
    (h : KeysLookedUp p schema m entries) : CamelCaseKeys entries := by
  induction entries using YamlEntries.nested_induction generalizing m with
  | nil => exact everyKey_nil _
  | cons key value entries ihsub ih =>
    obtain ⟨⟨field, hfield, rfl, hvalue⟩, hentries⟩ := keysLookedUp_cons.mp h
    refine everyKey_cons.mpr ⟨?_, ?_, ih hentries⟩
    · intro text htext
      obtain rfl : p.lookupName field = text := YamlNode.scalar.inj htext
      unfold lookupName
      rw [if_pos hread]
      exact camelCase_snakeCaseToCamel (hschema m field hfield)
    · rintro sub rfl
      obtain ⟨m', _, _, hsub⟩ := hvalue
      exact ihsub sub rfl hsub

theorem KeysLookedUp.value_of_mem {key value : YamlNode} (h : KeysLookedUp p schema m entries)
    (hmem : (key, value) ∈ entries) :
    (∀ items, value = .sequence items → YamlNode.anyHasKeys items = false) ∧
      ∀ sub, value = .map sub → ∃ m', KeysLookedUp p schema m' sub := by
  induction entries with
  | nil => cases hmem
  | cons entry entries ih =>
    obtain ⟨⟨field, _, _, hvalue⟩, hentries⟩ := keysLookedUp_cons.mp h
    obtain rfl | hmem := List.mem_cons.mp hmem
    · constructor
      · rintro items rfl
        exact hvalue
      · rintro sub rfl
        obtain ⟨m', _, _, hsub⟩ := hvalue
        exact ⟨m', hsub⟩
    · exact ih hentries hmem

theorem KeysLookedUp.anyHasKeys_eq_false (h : KeysLookedUp p schema m entries)
    (hin : SequenceIn items entries) : YamlNode.anyHasKeys items = false := by
  induction hin generalizing m with
  | here hmem => exact (h.value_of_mem hmem).1 items rfl
  | inside hmem _ ih =>
    obtain ⟨m', hsub⟩ := (h.value_of_mem hmem).2 _ rfl
    exact ih hsub

end Keys

section Reads

variable {m : M} {entries : YamlEntries} {items : List YamlNode} {msg msg' : ProtoMessage}

theorem runFields_step_of_mem {step : FieldDescriptor M → ProtoMessage → ParseStep}
    {field : FieldDescriptor M} {fields : List (FieldDescriptor M)} (hmem : field ∈ fields)
    (h : runFields step fields msg = some ([], msg')) :
    ∃ before after, step field before = some ([], after) := by
  induction fields generalizing msg with
  | nil => cases hmem
  | cons f fields ih =>
    obtain ⟨between, hstep, hrest⟩ := runFields_cons_exact h
    obtain rfl | hmem := List.mem_cons.mp hmem
    · exact ⟨msg, between, hstep⟩
    · exact ih hmem hrest

theorem parseValue_of_runFields {field : FieldDescriptor M} {fields : List (FieldDescriptor M)}
    {pos : FieldPath} {path : Text} {node : YamlNode} (hmem : field ∈ fields)
    (hlookup : yamlLookup entries (p.lookupName field) = some node)
    (h : runFields (fun f msg => p.parseField schema conv f pos path msg entries) fields msg =
      some ([], msg')) :
    ∃ before after, p.parseValue schema conv field pos path before node = some ([], after) := by
  obtain ⟨before, after, hstep⟩ := runFields_step_of_mem hmem h
  rw [parseField_eq, hlookup] at hstep
  exact ⟨before, after, hstep⟩

/-- If a field is parsed without an error, then so are the fields in it. -/
theorem ReachesField.parseValue_eq {f g : FieldDescriptor M} {node n : YamlNode}
    {rel pos : FieldPath} {path : Text} (hreach : ReachesField p schema f node rel g n)
    (h : p.parseValue schema conv f pos path msg node = some ([], msg')) :
    ∃ pos path before after, p.parseValue schema conv g pos path before n = some ([], after) := by
  induction hreach generalizing pos path msg msg' with
  | here f n => exact ⟨pos, path, msg, msg', h⟩
  | inside hsingular htype hmem hlookup hrest ih =>
    rw [parseValue_message hsingular htype] at h
    obtain ⟨before, after, hvalue⟩ := parseValue_of_runFields hmem hlookup h
    exact ih hvalue

theorem isSome_of_mem_mapM {α β : Type} {f : α → Option β} {l : List α} {vs : List β} {x : α}
    (h : l.mapM f = some vs) (hx : x ∈ l) : (f x).isSome = true := by
  induction l generalizing vs with
  | nil => cases hx
  | cons y l ih =>
    rw [List.mapM_cons] at h
    obtain ⟨v, hv, h⟩ := Option.bind_eq_some_iff.mp h
    obtain ⟨vs', hvs, _⟩ := Option.bind_eq_some_iff.mp h
    obtain rfl | hx := List.mem_cons.mp hx
    · simp [hv]
    · exact ih hvs hx

theorem anyHasKeys_eq_false_of_forall (h : ∀ item ∈ items, item.hasKeys = false) :
    YamlNode.anyHasKeys items = false := by
  induction items with
  | nil => rfl
  | cons item items ih =>
    rw [YamlNode.anyHasKeys, h item List.mem_cons_self,
      ih fun item' hitem' => h item' (List.mem_cons_of_mem item hitem')]
    rfl

theorem hasKeys_eq_false_of_as (hconv : ScalarsOnly conv) {type : CppType} {node : YamlNode}
    (h : (conv.as type node).isSome = true) : node.hasKeys = false := by
  cases node with
  | sequence items => simp [hconv.1] at h
  | map entries => simp [hconv.2] at h
  | _ => rfl

theorem isSome_as_of_enumNumber {field : FieldDescriptor M} {node : YamlNode}
    (h : (enumNumber conv field node).isSome = true) : (conv.as .string node).isSome = true := by
  unfold enumNumber at h
  cases hconv : conv.as .string node with
  | none => split at h <;> simp [hconv] at h
  | some text => rfl

/-- The elements of a sequence that is parsed without an error are scalars. -/
theorem anyHasKeys_of_parseValue (hconv : ScalarsOnly conv) {field : FieldDescriptor M}
    {pos : FieldPath} {path : Text}
    (h : p.parseValue schema conv field pos path msg (.sequence items) = some ([], msg')) :
    YamlNode.anyHasKeys items = false := by
  by_cases hrepeated : field.repeated = true
  · rw [parseValue_repeated hrepeated] at h
    obtain ⟨value, hown, _⟩ := parseArray_exact hrepeated h
    apply anyHasKeys_eq_false_of_forall
    intro item hitem
    unfold HoldsOwn at hown
    rw [hrepeated] at hown
    cases hcpp : field.type.cppType with
    | scalar type =>
      rw [hcpp] at hown
      obtain ⟨items', vs, hitems, hall, _⟩ := hown
      obtain rfl : items = items' := YamlNode.sequence.inj hitems
      exact hasKeys_eq_false_of_as hconv (isSome_of_mem_mapM hall hitem)
    | enum =>
      rw [hcpp] at hown
      obtain ⟨items', numbers, hitems, hall, _⟩ := hown
      obtain rfl : items = items' := YamlNode.sequence.inj hitems
      exact hasKeys_eq_false_of_as hconv (isSome_as_of_enumNumber (isSome_of_mem_mapM hall hitem))
    | message =>
      rw [hcpp] at hown
      exact hown.elim
  have hsingular : field.repeated = false := by simpa using hrepeated
  by_cases hmessage : ∃ m, field.type = .message m
  · obtain ⟨m, htype⟩ := hmessage
    rw [parseValue_message hsingular htype] at h
    simp at h
  · rw [parseValue_scalar hsingular fun m htype => hmessage ⟨m, htype⟩] at h
    simp at h

theorem anyHasKeys_of_looksUpNode (hconv : ScalarsOnly conv)
    (h : p.parseFields schema conv m entries msg = some ([], msg'))
    (hnode : LooksUpNode p schema m entries (.sequence items)) :
    YamlNode.anyHasKeys items = false := by
  obtain ⟨f, hf, n, hlookup, rel, g, hreach⟩ := hnode
  obtain ⟨before, after, hvalue⟩ := parseValue_of_runFields hf hlookup h
  obtain ⟨pos, path, before', after', hsequence⟩ := hreach.parseValue_eq hvalue
  exact anyHasKeys_of_parseValue hconv hsequence

end Reads

section Validation

variable {m : M} {entries : YamlEntries} {msg msg' : ProtoMessage}

theorem parse_map_exact (hmode : p.validationMode ≠ .permissive)
    (h : p.parse schema conv m (.map entries) msg = some ([], msg')) :
    p.parseFields schema conv m entries msg = some ([], msg') ∧
      p.findUnknownFields schema conv m entries = some [] := by
  rw [parse] at h
  cases hfields : p.parseFields schema conv m entries msg with
  | none => simp [hfields] at h
  | some result =>
    obtain ⟨errors, msg₁⟩ := result
    cases hunknown : p.findUnknownFields schema conv m entries with
    | none => simp [hfields, hmode, findUnknownInNode, hunknown] at h
    | some errors' =>
      simp only [hfields, hmode, if_false, findUnknownInNode, hunknown, Option.some.injEq,
        Prod.mk.injEq, List.append_eq_nil_iff] at h
      obtain ⟨⟨rfl, rfl⟩, rfl⟩ := h
      exact ⟨rfl, rfl⟩

/-- Without an error, all keys are those of fields exactly if the keys are in camel case where
fields are looked up by such names, and if `Parse` itself has seen every sequence with keys in
it. -/
theorem keysLookedUp_iff (hschema : ∀ m, ∀ f ∈ schema.fields m, isSnakeCase f.name = true)
    (hconv : ScalarsOnly conv) (hmode : p.validationMode ≠ .permissive)
    (hkeys : StringKeys entries)
    (h : p.parse schema conv m (.map entries) msg = some ([], msg')) :
    KeysLookedUp p schema m entries ↔
      (p.readCamelcase = true → CamelCaseKeys entries) ∧
        ∀ items, SequenceIn items entries → YamlNode.anyHasKeys items = true →
          LooksUpNode p schema m entries (.sequence items) := by
  obtain ⟨hfields, hunknown⟩ := parse_map_exact hmode h
  constructor
  · intro hlooked
    refine ⟨fun hread => camelCaseKeys_of_keysLookedUp hschema hread hlooked, ?_⟩
    intro items hin hany
    rw [hlooked.anyHasKeys_eq_false hin] at hany
    cases hany
  · rintro ⟨hcamel, hsequences⟩
    apply keysLookedUp_of_findUnknownFields hkeys hcamel _ hunknown
    intro items hin
    cases hany : YamlNode.anyHasKeys items with
    | false => rfl
    | true =>
      rw [← hany]
      exact anyHasKeys_of_looksUpNode hconv hfields (hsequences items hin hany)

/-- The configuration with the limit of connections: a message in a message. -/
def networkingSchema : Schema Bool where
  fields := fun outer =>
    if outer then [⟨['n', 'e', 't'], .message false, false⟩]
    else [⟨['m', 'a', 'x', '_', 'c', 'o', 'n', 'n'], .int64, false⟩]
  nodup := by decide

/-- `net: {key: 7}`. -/
def networkingDocument (key : Text) : YamlEntries :=
  [(.scalar ['n', 'e', 't'], .map [(.scalar key, .scalar ['7'])])]

theorem stringKeys_networkingDocument (key : Text) : StringKeys (networkingDocument key) := by
  simp [StringKeys, networkingDocument, everyKey_cons, everyKey_nil]

theorem not_sequenceIn_networkingDocument (key : Text) (items : List YamlNode) :
    ¬ SequenceIn items (networkingDocument key) := by
  intro hin
  cases hin with
  | here hmem => simp [networkingDocument] at hmem
  | inside hmem hsub =>
    simp only [networkingDocument, List.mem_singleton, Prod.mk.injEq, YamlNode.map.injEq] at hmem
    obtain ⟨_, rfl⟩ := hmem
    cases hsub with
    | here hmem => simp at hmem
    | inside hmem => simp at hmem

theorem scalarsOnly_decimalConversion : ScalarsOnly decimalConversion :=
  ⟨fun type _ => by cases type <;> rfl, fun type _ => by cases type <;> rfl⟩

/-- The key `maxConn` is that of the field. -/
theorem keysLookedUp_maxConn : ∃ msg',
    parse ⟨true, .strict⟩ networkingSchema decimalConversion true
      (.map (networkingDocument ['m', 'a', 'x', 'C', 'o', 'n', 'n']))
      (fun _ => .message false) = some ([], msg') ∧
    KeysLookedUp ⟨true, .strict⟩ networkingSchema true
      (networkingDocument ['m', 'a', 'x', 'C', 'o', 'n', 'n']) := by
  have hno : (parse ⟨true, .strict⟩ networkingSchema decimalConversion true
      (.map (networkingDocument ['m', 'a', 'x', 'C', 'o', 'n', 'n']))
      (fun _ => .message false)).map Prod.fst = some [] := by
    decide
  obtain ⟨⟨errors, msg'⟩, hparse, rfl⟩ := Option.map_eq_some_iff.mp hno
  refine ⟨msg', hparse, ?_⟩
  apply (keysLookedUp_iff (by decide) scalarsOnly_decimalConversion (by decide)
    (stringKeys_networkingDocument _) hparse).mpr
  constructor
  · intro _
    simp [CamelCaseKeys, networkingDocument, everyKey_cons, everyKey_nil, CamelCase, charIsUpper]
  · exact fun items hin => absurd hin (not_sequenceIn_networkingDocument _ items)

/-- The key `max_conn` is let through in camel case, and no field is looked up by it. -/
theorem validation_misses_snake_case_key :
    (∀ m, ∀ f ∈ networkingSchema.fields m, isSnakeCase f.name = true) ∧
    StringKeys (networkingDocument ['m', 'a', 'x', '_', 'c', 'o', 'n', 'n']) ∧
    (parse ⟨true, .unknownFieldsOnly⟩ networkingSchema decimalConversion true
      (.map (networkingDocument ['m', 'a', 'x', '_', 'c', 'o', 'n', 'n']))
      (fun _ => .message false)).map Prod.fst = some [] ∧
    ¬ KeysLookedUp ⟨true, .unknownFieldsOnly⟩ networkingSchema true
      (networkingDocument ['m', 'a', 'x', '_', 'c', 'o', 'n', 'n']) := by
  refine ⟨by decide, stringKeys_networkingDocument _, by decide, ?_⟩
  intro hlooked
  have hcamel := camelCaseKeys_of_keysLookedUp (by decide) rfl hlooked
  simp [CamelCaseKeys, networkingDocument, everyKey_cons, CamelCase] at hcamel

end Validation

end ParserYaml

end AcsNext.Collector
