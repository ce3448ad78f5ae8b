import AcsNext.Collector.ConfigLoader
import AcsNext.Collector.ParserYaml

/-! What a message holds after a document has been parsed into it. -/
namespace AcsNext.Collector.ParserYaml

variable {M : Type*} (p : ParserYaml) (schema : Schema M) (conv : YamlConversion)

/-- From the field `f`, whose node is `n`, the path leads to the field `g` with the node `n'`. -/
inductive ReachesField : FieldDescriptor M → YamlNode → FieldPath → FieldDescriptor M → YamlNode → Prop
  | here (f : FieldDescriptor M) (n : YamlNode) : ReachesField f n [f.name] f n
  | inside {f f' g : FieldDescriptor M} {m : M} {entries : YamlEntries} {n n' : YamlNode}
      {path : FieldPath} (hsingular : f.repeated = false) (htype : f.type = .message m)
      (hmem : f' ∈ schema.fields m) (hlookup : yamlLookup entries (p.lookupName f') = some n)
      (hrest : ReachesField f' n path g n') :
      ReachesField f (.map entries) (f.name :: path) g n'

def enumNumber (field : FieldDescriptor M) (node : YamlNode) : Option ℤ :=
  match field.type with
  | .enum values => (conv.as .string node).bind fun text =>
      (values.find? fun value => value.1 = text.map charToUpper).map Prod.snd
  | _ => none

/-- The value is the node's, converted to the type of the field. -/
def HoldsOwn (field : FieldDescriptor M) (node : YamlNode) (value : FieldValue) : Prop :=
  match field.repeated, field.type.cppType with
  | false, .scalar type => ∃ v, conv.as type node = some v ∧ value = .scalar type v
  | false, .enum => ∃ number, enumNumber conv field node = some number ∧ value = .enum number
  | false, .message => value = .message true
  | true, .scalar type => ∃ items vs, node = .sequence items ∧
      items.mapM (conv.as type) = some vs ∧ value = .repeatedScalar type vs
  | true, .enum => ∃ items numbers, node = .sequence items ∧
      items.mapM (enumNumber conv field) = some numbers ∧ value = .repeatedEnum numbers
  | true, .message => False

/-- An empty object in the place of a message. -/
def Ignored (field : FieldDescriptor M) (node : YamlNode) : Prop :=
  field.repeated = false ∧ (∃ m, field.type = .message m) ∧ node = .null

/-- Below `pos`, the message holds what the document has for the field `f`, and else what it held
before. -/
structure ExactAt (f : FieldDescriptor M) (node : YamlNode) (pos : FieldPath)
    (msg msg' : ProtoMessage) : Prop where
  holds : ∀ path g n, ReachesField p schema f node path g n → ¬ Ignored g n →
    HoldsOwn conv g n (msg' (pos ++ path))
  keeps : ∀ path, (∀ rel g n, path = pos ++ rel → ReachesField p schema f node rel g n →
    Ignored g n) → msg' path = msg path

/-- The same for a list of fields that are looked up in the entries of a map. -/
structure ExactFields (fields : List (FieldDescriptor M)) (entries : YamlEntries) (pos : FieldPath)
    (msg msg' : ProtoMessage) : Prop where
  holds : ∀ f ∈ fields, ∀ node, yamlLookup entries (p.lookupName f) = some node →
    ∀ path g n, ReachesField p schema f node path g n → ¬ Ignored g n →
      HoldsOwn conv g n (msg' (pos ++ path))
  keeps : ∀ path, (∀ f ∈ fields, ∀ node, yamlLookup entries (p.lookupName f) = some node →
    ∀ rel g n, path = pos ++ rel → ReachesField p schema f node rel g n → Ignored g n) →
      msg' path = msg path

/-- A singular `sint64` field is reached with a number that can be converted to `uint64`. -/
def ReadsSint64 (f : FieldDescriptor M) (node : YamlNode) : Prop :=
  ∃ path g text, ReachesField p schema f node path g (.scalar text) ∧ g.repeated = false ∧
    g.type = .sint64 ∧ (conv.as .uint64 (.scalar text)).isSome = true

variable {p schema conv}

theorem parseField_eq (field : FieldDescriptor M) (at_ : FieldPath) (path : Text)
    (msg : ProtoMessage) (entries : YamlEntries) :
    p.parseField schema conv field at_ path msg entries =
      match yamlLookup entries (p.lookupName field) with
      | none => p.missingField field path msg
      | some node => p.parseValue schema conv field at_ path msg node := by
  induction entries with
  | nil => simp [parseField, yamlLookup]
  | cons entry entries ih =>
    obtain ⟨key, value⟩ := entry
    rw [parseField]
    by_cases h : key.isKey (p.lookupName field) = true
    · simp [h, yamlLookup]
    · rw [if_neg h, ih]
      simp [h, yamlLookup]

theorem sizeOf_lt_of_lookup {entries : YamlEntries} {name : Text} {node : YamlNode}
    (h : yamlLookup entries name = some node) : sizeOf node < sizeOf (YamlNode.map entries) := by
  obtain ⟨entry, hfind, rfl⟩ := Option.map_eq_some_iff.mp h
  have hmem := List.sizeOf_lt_of_mem (List.mem_of_find?_eq_some hfind)
  obtain ⟨key, value⟩ := entry
  simp only [Prod.mk.sizeOf_spec, YamlNode.map.sizeOf_spec] at hmem ⊢
  omega

/-- Induction over what can be looked up in a node. -/
theorem YamlNode.lookup_induction {P : YamlNode → Prop}
    (step : ∀ node, (∀ entries name n, node = .map entries → yamlLookup entries name = some n →
      P n) → P node) (node : YamlNode) : P node := by
  induction hsize : sizeOf node using Nat.strong_induction_on generalizing node with
  | _ size ih =>
    apply step
    rintro entries name n rfl hlookup
    exact ih (sizeOf n) (hsize ▸ sizeOf_lt_of_lookup hlookup) n rfl

theorem ReachesField.head_eq {f g : FieldDescriptor M} {node n : YamlNode} {path : FieldPath}
    (h : ReachesField p schema f node path g n) : ∃ rest, path = f.name :: rest := by
  cases h with
  | here => exact ⟨[], rfl⟩
  | inside => exact ⟨_, rfl⟩

section Scalars

variable {field : FieldDescriptor M} {type : CppType} {node : YamlNode} {at_ : FieldPath}
  {msg msg' : ProtoMessage}

/-- A setter aborts exactly if it is not the one of the field. -/
theorem parseScalarAs_eq_none_iff :
    parseScalarAs conv type node field at_ msg = none ↔
      (conv.as type node).isSome = true ∧
        ¬ (field.type.cppType = .scalar type ∧ field.repeated = false) := by
  unfold parseScalarAs tryConvert setScalar
  cases conv.as type node with
  | none => simp
  | some value =>
    dsimp only
    split_ifs with h <;> simp [h]

theorem parseScalarAs_exact (h : parseScalarAs conv type node field at_ msg = some ([], msg')) :
    ∃ v, conv.as type node = some v ∧ field.type.cppType = .scalar type ∧
      field.repeated = false ∧ msg' = Function.update msg at_ (.scalar type v) := by
  unfold parseScalarAs tryConvert setScalar at h
  cases hconv : conv.as type node with
  | none => simp [hconv] at h
  | some value =>
    rw [hconv] at h
    dsimp only at h
    split_ifs at h with hown
    exact ⟨value, rfl, hown.1, hown.2, (Prod.mk.inj (Option.some.inj h)).2.symm⟩

theorem toOption_findEnumValue (values : List (Text × ℤ)) (text name : Text) :
    (findEnumValue values text name).toOption =
      (values.find? fun value => value.1 = text.map charToUpper).map Prod.snd := by
  unfold findEnumValue
  cases (values.find? fun value => value.1 = text.map charToUpper).map Prod.snd <;> rfl

theorem holdsOwn_of_scalar {v : CppValue type} (hcpp : field.type.cppType = .scalar type)
    (hsingular : field.repeated = false) (hconv : conv.as type node = some v) :
    HoldsOwn conv field node (.scalar type v) := by
  unfold HoldsOwn
  rw [hcpp, hsingular]
  exact ⟨v, hconv, rfl⟩

/-- A singular field that is parsed without an error holds its own value. -/
theorem parseScalar_exact {text name : Text} (hsingular : field.repeated = false)
    (h : parseScalar conv text field name at_ msg = some ([], msg')) :
    ∃ value, HoldsOwn conv field (.scalar text) value ∧ msg' = Function.update msg at_ value := by
  have hscalar : ∀ {t : CppType}, parseScalarAs conv t (.scalar text) field at_ msg =
      some ([], msg') →
      ∃ value, HoldsOwn conv field (.scalar text) value ∧ msg' = Function.update msg at_ value := by
    intro t ht
    obtain ⟨v, hconv, hcpp, _, hmsg⟩ := parseScalarAs_exact ht
    exact ⟨.scalar t v, holdsOwn_of_scalar hcpp hsingular hconv, hmsg⟩
  cases htype : field.type with
  | enum values =>
    have hown : field.type.cppType = .enum ∧ field.repeated = false :=
      ⟨by rw [htype]; rfl, hsingular⟩
    have hnumber := toOption_findEnumValue values text name
    simp only [parseScalar, htype] at h
    cases hfound : findEnumValue values text name with
    | error err => simp [hfound] at h
    | ok number =>
      rw [hfound] at h hnumber
      dsimp only [setEnumValue] at h
      rw [if_pos hown] at h
      refine ⟨.enum number, ?_, (Prod.mk.inj (Option.some.inj h)).2.symm⟩
      unfold HoldsOwn
      rw [hown.1, hsingular]
      refine ⟨number, ?_, rfl⟩
      simp only [enumNumber, htype, conv.as_string_scalar, Option.bind_some]
      exact hnumber.symm
  | bytes => simp [parseScalar, htype] at h
  | message m => simp [parseScalar, htype] at h
  | group => simp [parseScalar, htype] at h
  | _ =>
    simp only [parseScalar, htype] at h
    exact hscalar h

/-- The only setter that is not the field's own is that of `sint64`. -/
theorem parseScalar_eq_none_iff {text name : Text} (hsingular : field.repeated = false) :
    parseScalar conv text field name at_ msg = none ↔
      field.type = .sint64 ∧ (conv.as .uint64 (.scalar text)).isSome = true := by
  cases htype : field.type with
  | enum values =>
    have hown : field.type.cppType = .enum ∧ field.repeated = false :=
      ⟨by rw [htype]; rfl, hsingular⟩
    simp only [parseScalar, htype]
    cases findEnumValue values text name with
    | error err => simp
    | ok number =>
      dsimp only [setEnumValue]
      rw [if_pos hown]
      simp
  | bytes => simp [parseScalar, htype]
  | message m => simp [parseScalar, htype]
  | group => simp [parseScalar, htype]
  | _ =>
    simp [parseScalar, htype, parseScalarAs_eq_none_iff, FieldType.cppType, hsingular]

end Scalars

section Arrays

variable {field : FieldDescriptor M} {items : List YamlNode} {at_ : FieldPath}
  {msg msg' : ProtoMessage}

theorem mapM_toOption_of_convertItems {α : Type} {convert : YamlNode → Except ParserError α}
    (h : (convertItems convert items).1 = []) :
    items.mapM (fun item => (convert item).toOption) = some (convertItems convert items).2 := by
  induction items with
  | nil => rfl
  | cons item items ih =>
    rw [convertItems] at h ⊢
    cases hitem : convert item with
    | error err => simp [hitem] at h
    | ok value =>
      rw [hitem] at h
      have hvalue : (convert item).toOption = some value := by rw [hitem]; rfl
      simp [hvalue, ih h]

theorem toOption_tryConvert (type : CppType) (node : YamlNode) :
    (tryConvert conv type node).toOption = conv.as type node := by
  unfold tryConvert
  cases conv.as type node <;> rfl

theorem toOption_convertEnumItem {values : List (Text × ℤ)} (htype : field.type = .enum values)
    (name : Text) (node : YamlNode) :
    (convertEnumItem conv values name node).toOption = enumNumber conv field node := by
  unfold convertEnumItem tryConvert enumNumber
  rw [htype]
  cases conv.as .string node with
  | none => rfl
  | some text => exact toOption_findEnumValue values text name

theorem parseArray_ne_none (hrepeated : field.repeated = true) :
    p.parseArray conv items field at_ msg ≠ none := by
  cases htype : field.type <;>
    simp [parseArray, parseArrayInner, parseArrayEnum, htype, FieldType.cppType, hrepeated]

/-- A repeated field that is parsed without an error holds the converted elements. -/
theorem parseArray_exact (hrepeated : field.repeated = true)
    (h : p.parseArray conv items field at_ msg = some ([], msg')) :
    ∃ value, HoldsOwn conv field (.sequence items) value ∧
      msg' = Function.update msg at_ value := by
  unfold HoldsOwn
  rw [hrepeated]
  rw [parseArray] at h
  cases hcpp : field.type.cppType with
  | scalar type =>
    rw [hcpp] at h
    simp only [parseArrayInner, hcpp, hrepeated, and_self, if_true, Option.some.injEq,
      Prod.mk.injEq] at h
    obtain ⟨hnone, hmsg⟩ := h
    have hall := mapM_toOption_of_convertItems hnone
    simp only [toOption_tryConvert] at hall
    exact ⟨_, ⟨items, _, rfl, hall, rfl⟩, hmsg.symm⟩
  | enum =>
    rw [hcpp] at h
    simp only [parseArrayEnum] at h
    cases htype : field.type with
    | enum values =>
      simp only [htype, Option.some.injEq, Prod.mk.injEq] at h
      obtain ⟨hnone, hmsg⟩ := h
      have hall := mapM_toOption_of_convertItems hnone
      simp only [toOption_convertEnumItem htype] at hall
      exact ⟨_, ⟨items, _, rfl, hall, rfl⟩, hmsg.symm⟩
    | _ => simp [htype] at h
  | message => simp [hcpp] at h

end Arrays

section Loops

variable {step : FieldDescriptor M → ProtoMessage → ParseStep} {field : FieldDescriptor M}
  {fields : List (FieldDescriptor M)} {entries : YamlEntries} {pos : FieldPath}
  {msg msg' msg'' : ProtoMessage}

/-- A loop aborts exactly if one of its steps does, whatever the message before that step. -/
theorem runFields_eq_none_iff {Aborts : FieldDescriptor M → Prop}
    (hstep : ∀ f ∈ fields, ∀ msg, step f msg = none ↔ Aborts f) (msg : ProtoMessage) :
    runFields step fields msg = none ↔ ∃ f ∈ fields, Aborts f := by
  induction fields generalizing msg with
  | nil => simp [runFields]
  | cons f fields ih =>
    have hhead := hstep f List.mem_cons_self msg
    have hrest := ih fun f' hf' => hstep f' (List.mem_cons_of_mem f hf')
    rw [runFields, List.exists_mem_cons_iff]
    cases hf : step f msg with
    | none => simp [hhead.mp hf]
    | some result =>
      have hno : ¬ Aborts f := fun hab => by simp [hhead.mpr hab] at hf
      obtain ⟨errors, msg'⟩ := result
      dsimp only
      rw [or_iff_right hno, ← hrest msg']
      cases runFields step fields msg' <;> simp

theorem runFields_cons_exact (h : runFields step (field :: fields) msg = some ([], msg'')) :
    ∃ msg', step field msg = some ([], msg') ∧ runFields step fields msg' = some ([], msg'') := by
  rw [runFields] at h
  cases hf : step field msg with
  | none => simp [hf] at h
  | some result =>
    obtain ⟨errors, msg'⟩ := result
    rw [hf] at h
    dsimp only at h
    cases hrest : runFields step fields msg' with
    | none => simp [hrest] at h
    | some result' =>
      obtain ⟨errors', last⟩ := result'
      simp only [hrest, Option.some.injEq, Prod.mk.injEq, List.append_eq_nil_iff] at h
      obtain ⟨⟨rfl, rfl⟩, rfl⟩ := h
      exact ⟨msg', rfl, hrest⟩

theorem exactFields_nil : ExactFields p schema conv [] entries pos msg msg where
  holds := by simp
  keeps := fun _ _ => rfl

/-- What a field writes lies under its name, so the fields after it do not change it. -/
theorem exactFields_cons (hname : field.name ∉ fields.map FieldDescriptor.name)
    (hmissing : yamlLookup entries (p.lookupName field) = none → msg' = msg)
    (hfirst : ∀ node, yamlLookup entries (p.lookupName field) = some node →
      ExactAt p schema conv field node pos msg msg')
    (hrest : ExactFields p schema conv fields entries pos msg' msg'') :
    ExactFields p schema conv (field :: fields) entries pos msg msg'' where
  holds := by
    intro f hf node hnode path g n hreach hignored
    obtain rfl | hf := List.mem_cons.mp hf
    · have hown := (hfirst node hnode).holds path g n hreach hignored
      rw [hrest.keeps (pos ++ path) ?_]
      · exact hown
      intro f' hf' node' _ rel g' n' hpath hreach'
      obtain ⟨tail, rfl⟩ := hreach.head_eq
      obtain ⟨tail', rfl⟩ := hreach'.head_eq
      have hsame : f.name = f'.name := (List.cons.inj (List.append_cancel_left hpath)).1
      exact absurd (List.mem_map.mpr ⟨f', hf', hsame.symm⟩) hname
    · exact hrest.holds f hf node hnode path g n hreach hignored
  keeps := by
    intro path hpath
    have hkept := hrest.keeps path fun f hf => hpath f (List.mem_cons_of_mem field hf)
    rw [hkept]
    cases hnode : yamlLookup entries (p.lookupName field) with
    | none => rw [hmissing hnode]
    | some node => exact (hfirst node hnode).keeps path (hpath field List.mem_cons_self node hnode)

theorem missingField_exact {path : Text} (h : p.missingField field path msg = some ([], msg')) :
    msg' = msg := by
  unfold missingField at h
  split_ifs at h
  · simp at h
  · exact (Prod.mk.inj (Option.some.inj h)).2.symm

/-- A loop without an error over fields with distinct names, each of which is parsed exactly. -/
theorem runFields_exact {path : Text}
    (hnodup : (fields.map FieldDescriptor.name).Nodup)
    (hvalue : ∀ f ∈ fields, ∀ node, yamlLookup entries (p.lookupName f) = some node →
      ∀ msg msg', p.parseValue schema conv f pos path msg node = some ([], msg') →
        ExactAt p schema conv f node pos msg msg')
    (h : runFields (fun f msg => p.parseField schema conv f pos path msg entries) fields msg =
      some ([], msg'')) :
    ExactFields p schema conv fields entries pos msg msg'' := by
  induction fields generalizing msg with
  | nil =>
    rw [runFields] at h
    obtain rfl : msg = msg'' := (Prod.mk.inj (Option.some.inj h)).2
    exact exactFields_nil
  | cons f fields ih =>
    rw [List.map_cons, List.nodup_cons] at hnodup
    obtain ⟨msg', hstep, hloop⟩ := runFields_cons_exact h
    rw [parseField_eq] at hstep
    have hrest := ih hnodup.2 (fun f' hf' => hvalue f' (List.mem_cons_of_mem f hf')) hloop
    refine exactFields_cons hnodup.1 ?_ ?_ hrest
    · intro hnode
      rw [hnode] at hstep
      exact missingField_exact hstep
    · intro node hnode
      rw [hnode] at hstep
      exact hvalue f List.mem_cons_self node hnode _ _ hstep

end Loops

section Values

variable {field : FieldDescriptor M} {node : YamlNode} {pos : FieldPath} {path : Text}
  {msg msg' : ProtoMessage}

theorem parseValue_repeated (hrepeated : field.repeated = true) :
    p.parseValue schema conv field pos path msg node =
      match node with
      | .sequence items => p.parseArray conv items field (pos ++ [field.name]) msg
      | _ => some ([.typeMismatch (p.lookupName field) .sequence node.type], msg) := by
  unfold parseValue
  apply (if_pos hrepeated).trans
  cases node <;> rfl

theorem parseValue_message {m : M} (hsingular : field.repeated = false)
    (htype : field.type = .message m) :
    p.parseValue schema conv field pos path msg node =
      match node with
      | .null => some ([], msg)
      | .map entries =>
        runFields (fun f msg => p.parseField schema conv f (pos ++ [field.name])
            (concatPath path (p.lookupName field)) msg entries) (schema.fields m)
          (Function.update msg (pos ++ [field.name]) (.message true))
      | _ => some ([.typeMismatch (p.lookupName field) .map node.type], msg) := by
  unfold parseValue
  rw [if_neg (by simp [hsingular])]
  cases node <;> simp [htype]

theorem parseValue_scalar (hsingular : field.repeated = false)
    (htype : ∀ m, field.type ≠ .message m) :
    p.parseValue schema conv field pos path msg node =
      match node with
      | .scalar text =>
        parseScalar conv text field (p.lookupName field) (pos ++ [field.name]) msg
      | _ => some ([.nonScalar], msg) := by
  unfold parseValue
  rw [if_neg (by simp [hsingular])]
  cases hft : field.type with
  | message m => exact absurd hft (htype m)
  | _ => cases node <;> simp

/-- The node is not the map of a singular message, so no fields are in it. -/
def IsLeaf (field : FieldDescriptor M) (node : YamlNode) : Prop :=
  ∀ m entries, field.repeated = false → field.type = .message m → node ≠ .map entries

theorem ReachesField.eq_here {g : FieldDescriptor M} {n : YamlNode} {rel : FieldPath}
    (h : ReachesField p schema field node rel g n) (hleaf : IsLeaf field node) :
    rel = [field.name] ∧ g = field ∧ n = node := by
  cases h with
  | here => exact ⟨rfl, rfl, rfl⟩
  | inside hsingular htype => exact absurd rfl (hleaf _ _ hsingular htype)

theorem exactAt_update {value : FieldValue} (hleaf : IsLeaf field node)
    (hignored : ¬ Ignored field node) (hown : HoldsOwn conv field node value) :
    ExactAt p schema conv field node pos msg
      (Function.update msg (pos ++ [field.name]) value) where
  holds := by
    intro rel g n hreach _
    obtain ⟨rfl, rfl, rfl⟩ := hreach.eq_here hleaf
    rw [Function.update_self]
    exact hown
  keeps := by
    intro path hpath
    apply Function.update_of_ne
    rintro rfl
    exact hignored (hpath _ field node rfl (.here field node))

theorem exactAt_ignored (hignored : Ignored field node) :
    ExactAt p schema conv field node pos msg msg where
  holds := by
    intro rel g n hreach hnot
    obtain ⟨_, rfl, rfl⟩ := hreach.eq_here fun m entries _ _ hmap => by
      simp [hmap, Ignored] at hignored
    exact absurd hignored hnot
  keeps := fun _ _ => rfl

/-- A message that is there, with the fields that the map has for it. -/
theorem exactAt_map {m : M} {entries : YamlEntries} (hsingular : field.repeated = false)
    (htype : field.type = .message m)
    (h : ExactFields p schema conv (schema.fields m) entries (pos ++ [field.name])
      (Function.update msg (pos ++ [field.name]) (.message true)) msg') :
    ExactAt p schema conv field (.map entries) pos msg msg' where
  holds := by
    intro rel g n hreach hignored
    cases hreach with
    | here =>
      rw [h.keeps]
      · rw [Function.update_self]
        simp [HoldsOwn, hsingular, htype, FieldType.cppType]
      intro f _ node _ rel g n hpath hreach
      obtain ⟨tail, rfl⟩ := hreach.head_eq
      simp at hpath
    | inside hs ht hmem hlookup hrest =>
      obtain rfl : m = _ := FieldType.message.inj (htype.symm.trans ht)
      have hin := h.holds _ hmem _ hlookup _ _ _ hrest hignored
      rwa [List.append_assoc] at hin
  keeps := by
    intro path hpath
    rw [h.keeps path]
    · apply Function.update_of_ne
      rintro rfl
      have hnull := hpath _ field _ rfl (.here field (.map entries))
      simp [Ignored] at hnull
    · intro f hf node hnode rel g n hrel hreach
      apply hpath (field.name :: rel) g n
      · rw [hrel, List.append_assoc]
        rfl
      · exact .inside hsingular htype hf hnode hreach

/-- A value that is parsed without an error is parsed exactly. -/
theorem parseValue_exact (h : p.parseValue schema conv field pos path msg node = some ([], msg')) :
    ExactAt p schema conv field node pos msg msg' := by
  induction node using YamlNode.lookup_induction generalizing field pos path msg msg' with
  | step node ih =>
    by_cases hrepeated : field.repeated = true
    · rw [parseValue_repeated hrepeated] at h
      cases node with
      | sequence items =>
        obtain ⟨value, hown, rfl⟩ := parseArray_exact hrepeated h
        apply exactAt_update _ _ hown
        · simp [IsLeaf]
        · simp [Ignored]
      | _ => simp at h
    have hsingular : field.repeated = false := by simpa using hrepeated
    by_cases hmessage : ∃ m, field.type = .message m
    · obtain ⟨m, htype⟩ := hmessage
      rw [parseValue_message hsingular htype] at h
      cases node with
      | null =>
        obtain rfl : msg = msg' := (Prod.mk.inj (Option.some.inj h)).2
        exact exactAt_ignored ⟨hsingular, ⟨m, htype⟩, rfl⟩
      | map entries =>
        apply exactAt_map hsingular htype
        apply runFields_exact (schema.nodup m) _ h
        intro f _ n hlookup msg msg' hvalue
        exact ih entries _ n rfl hlookup hvalue
      | _ => simp at h
    · rw [parseValue_scalar hsingular fun m htype => hmessage ⟨m, htype⟩] at h
      cases node with
      | scalar text =>
        obtain ⟨value, hown, rfl⟩ := parseScalar_exact hsingular h
        apply exactAt_update _ _ hown
        · simp [IsLeaf]
        · simp [Ignored]
      | _ => simp at h

theorem readsSint64_iff_of_leaf (hleaf : IsLeaf field node) :
    ReadsSint64 p schema conv field node ↔
      ∃ text, node = .scalar text ∧ field.repeated = false ∧ field.type = .sint64 ∧
        (conv.as .uint64 (.scalar text)).isSome = true := by
  constructor
  · rintro ⟨rel, g, text, hreach, hown⟩
    obtain ⟨_, rfl, rfl⟩ := hreach.eq_here hleaf
    exact ⟨text, rfl, hown⟩
  · rintro ⟨text, rfl, hown⟩
    exact ⟨_, field, text, .here field _, hown⟩

theorem readsSint64_map_iff {m : M} {entries : YamlEntries} (hsingular : field.repeated = false)
    (htype : field.type = .message m) :
    ReadsSint64 p schema conv field (.map entries) ↔
      ∃ f ∈ schema.fields m, ∃ n, yamlLookup entries (p.lookupName f) = some n ∧
        ReadsSint64 p schema conv f n := by
  constructor
  · rintro ⟨rel, g, text, hreach, hown⟩
    cases hreach with
    | inside _ ht hmem hlookup hrest =>
      obtain rfl : m = _ := FieldType.message.inj (htype.symm.trans ht)
      exact ⟨_, hmem, _, hlookup, _, g, text, hrest, hown⟩
  · rintro ⟨f, hf, n, hlookup, rel, g, text, hreach, hown⟩
    exact ⟨_, g, text, .inside hsingular htype hf hlookup hreach, hown⟩

theorem parseField_eq_none_iff {entries : YamlEntries}
    (hvalue : ∀ n, yamlLookup entries (p.lookupName field) = some n →
      (p.parseValue schema conv field pos path msg n = none ↔ ReadsSint64 p schema conv field n)) :
    p.parseField schema conv field pos path msg entries = none ↔
      ∃ n, yamlLookup entries (p.lookupName field) = some n ∧
        ReadsSint64 p schema conv field n := by
  rw [parseField_eq]
  cases hlookup : yamlLookup entries (p.lookupName field) with
  | none =>
    unfold missingField
    split_ifs <;> simp
  | some n => simp [hvalue n hlookup]

/-- The setter of another type is used exactly for a `sint64` field in the document. -/
theorem parseValue_eq_none_iff :
    p.parseValue schema conv field pos path msg node = none ↔
      ReadsSint64 p schema conv field node := by
  induction node using YamlNode.lookup_induction generalizing field pos path msg with
  | step node ih =>
    by_cases hrepeated : field.repeated = true
    · rw [parseValue_repeated hrepeated, readsSint64_iff_of_leaf (by simp [IsLeaf, hrepeated])]
      cases node with
      | sequence items => simp [parseArray_ne_none hrepeated]
      | _ => simp [hrepeated]
    have hsingular : field.repeated = false := by simpa using hrepeated
    by_cases hmessage : ∃ m, field.type = .message m
    · obtain ⟨m, htype⟩ := hmessage
      rw [parseValue_message hsingular htype]
      cases node with
      | map entries =>
        rw [readsSint64_map_iff hsingular htype]
        apply runFields_eq_none_iff
        intro f _ msg
        exact parseField_eq_none_iff fun n hlookup => ih entries _ n rfl hlookup
      | _ =>
        rw [readsSint64_iff_of_leaf (by simp [IsLeaf])]
        simp [htype]
    · have hscalar : ∀ m, field.type ≠ .message m := fun m htype => hmessage ⟨m, htype⟩
      rw [parseValue_scalar hsingular hscalar,
        readsSint64_iff_of_leaf fun m entries _ htype => absurd htype (hscalar m)]
      cases node with
      | scalar text => simp [parseScalar_eq_none_iff hsingular, hsingular]
      | _ => simp

end Values

section Documents

variable (p schema conv)

/-- The configuration that `LoadConfiguration` gets from `Parse`, unless there are errors; `msg` is
the one of `NewRuntimeConfig`. -/
def parsedConfig (m : M) (msg : ProtoMessage) (document : YamlNode) : Option ProtoMessage :=
  match p.parse schema conv m document msg with
  | some ([], msg') => some msg'
  | _ => none

/-- The map is parsed without a setter of another type, and with an error or exactly. The active
configuration is replaced if there is no error, and else it is kept. -/
def LoadsExactly (m : M) (entries : YamlEntries) (msg : ProtoMessage) : Prop :=
  ∃ errors msg', p.parse schema conv m (.map entries) msg = some (errors, msg') ∧
    (errors ≠ [] ∨ ExactFields p schema conv (schema.fields m) entries [] msg msg') ∧
    ∀ (w : ConfigLoader YamlNode ProtoMessage) (inode : ℕ),
      w.file = some ⟨inode, .map entries⟩ →
        w.loadConfiguration (p.parsedConfig schema conv m msg) =
          if errors = [] then
            ({ w with runtimeConfig := some msg', lastLoaded := some msg' }, .success)
          else (w, .parseError)

variable {p schema conv} {m : M} {entries : YamlEntries} {msg : ProtoMessage}

theorem parse_map_of_permissive (hmode : p.validationMode = .permissive) :
    p.parse schema conv m (.map entries) msg = p.parseFields schema conv m entries msg := by
  rw [parse]
  cases p.parseFields schema conv m entries msg with
  | none => rfl
  | some result => simp [hmode]

theorem parseFields_eq_none_iff :
    p.parseFields schema conv m entries msg = none ↔
      ∃ f ∈ schema.fields m, ∃ n, yamlLookup entries (p.lookupName f) = some n ∧
        ReadsSint64 p schema conv f n := by
  apply runFields_eq_none_iff
  intro f _ msg
  exact parseField_eq_none_iff fun _ _ => parseValue_eq_none_iff

theorem parseFields_exact {msg' : ProtoMessage}
    (h : p.parseFields schema conv m entries msg = some ([], msg')) :
    ExactFields p schema conv (schema.fields m) entries [] msg msg' :=
  runFields_exact (schema.nodup m) (fun _ _ _ _ _ _ hvalue => parseValue_exact hvalue) h

theorem loadConfiguration_eq_ite {w : ConfigLoader YamlNode ProtoMessage} {document : YamlNode}
    {inode : ℕ} {errors : List ParserError} {msg' : ProtoMessage}
    (hfile : w.file = some ⟨inode, document⟩)
    (h : p.parse schema conv m document msg = some (errors, msg')) :
    w.loadConfiguration (p.parsedConfig schema conv m msg) =
      if errors = [] then
        ({ w with runtimeConfig := some msg', lastLoaded := some msg' }, .success)
      else (w, .parseError) := by
  unfold ConfigLoader.loadConfiguration parsedConfig
  rw [hfile]
  dsimp only
  rw [h]
  cases errors with
  | nil => rfl
  | cons err errors => rfl

/-- Loading is exact unless a singular `sint64` field is in the document: `ParseScalar` handles
it with the unsigned types. -/
theorem loadsExactly_iff (camelcase : Bool) (schema : Schema M) (conv : YamlConversion) (m : M)
    (entries : YamlEntries) (msg : ProtoMessage) :
    LoadsExactly ⟨camelcase, .permissive⟩ schema conv m entries msg ↔
      ∀ f ∈ schema.fields m, ∀ n,
        yamlLookup entries (lookupName ⟨camelcase, .permissive⟩ f) = some n →
          ¬ ReadsSint64 ⟨camelcase, .permissive⟩ schema conv f n := by
  have hparse : parse ⟨camelcase, .permissive⟩ schema conv m (.map entries) msg =
      parseFields ⟨camelcase, .permissive⟩ schema conv m entries msg :=
    parse_map_of_permissive rfl
  constructor
  · rintro ⟨errors, msg', hresult, _⟩ f hf n hlookup hreads
    rw [hparse, parseFields_eq_none_iff.mpr ⟨f, hf, n, hlookup, hreads⟩] at hresult
    cases hresult
  · intro hno
    cases hresult : parseFields ⟨camelcase, .permissive⟩ schema conv m entries msg with
    | none =>
      obtain ⟨f, hf, n, hlookup, hreads⟩ := parseFields_eq_none_iff.mp hresult
      exact absurd hreads (hno f hf n hlookup)
    | some result =>
      obtain ⟨errors, msg'⟩ := result
      refine ⟨errors, msg', hparse.trans hresult, ?_, fun w inode hfile =>
        loadConfiguration_eq_ite hfile (hparse.trans hresult)⟩
      cases errors with
      | nil => exact .inr (parseFields_exact hresult)
      | cons err errors => exact .inl (List.cons_ne_nil err errors)

def decimal (text : Text) : Option ℕ :=
  if text ≠ [] ∧ text.all Char.isDigit then
    some (text.foldl (fun n c => 10 * n + (c.toNat - '0'.toNat)) 0)
  else none

def decimalConversion : YamlConversion where
  as := fun type node =>
    match type, node with
    | .string, .scalar text => some text
    | .uint64, .scalar text => decimal text
    | .int64, .scalar text => (decimal text).map Int.ofNat
    | _, _ => none
  what := fun _ => "bad conversion".toList
  as_string_scalar := fun _ => rfl

/-- A message with a field for an offset, which may be negative. -/
def offsetSchema : Schema Unit where
  fields := fun _ => [⟨['o', 'f', 'f', 's', 'e', 't'], .sint64, false⟩]
  nodup := by decide

/-- For `offset: 7`, the setter of `uint64` is used. -/
theorem loading_sint64_aborts :
    ¬ LoadsExactly ⟨true, .permissive⟩ offsetSchema decimalConversion ()
      [(.scalar ['o', 'f', 'f', 's', 'e', 't'], .scalar ['7'])] (fun _ => .scalar .int64 0) := by
  rintro ⟨errors, msg', hresult, _⟩
  have hnone : (parse ⟨true, .permissive⟩ offsetSchema decimalConversion ()
      (.map [(.scalar ['o', 'f', 'f', 's', 'e', 't'], .scalar ['7'])])
      (fun _ => .scalar .int64 0)).map Prod.fst = none := by
    decide
  rw [hresult] at hnone
  cases hnone

end Documents

end AcsNext.Collector.ParserYaml
