import Mathlib.Tactic

/-! The parser of the runtime configuration: it fills a message from a YAML document, field by
field of the message's descriptor. -/
namespace AcsNext.Collector

/-- The characters of a `std::string`. -/
abbrev Text := List Char

/-- A node of a document. The keys of a map are nodes too, and may occur more than once. -/
inductive YamlNode where
  | null
  | scalar (text : Text)
  | sequence (items : List YamlNode)
  | map (entries : List (YamlNode × YamlNode))

abbrev YamlEntries := List (YamlNode × YamlNode)

inductive YamlNodeType where
  | null
  | scalar
  | sequence
  | map
deriving DecidableEq, Repr

namespace YamlNode

def type : YamlNode → YamlNodeType
  | .null => .null
  | .scalar _ => .scalar
  | .sequence _ => .sequence
  | .map _ => .map

def isKey (key : YamlNode) (name : Text) : Bool :=
  match key with
  | .scalar text => text == name
  | _ => false

end YamlNode

def yamlLookup (entries : YamlEntries) (name : Text) : Option YamlNode :=
  (entries.find? fun entry => entry.1.isKey name).map Prod.snd

inductive CppType where
  | int32
  | int64
  | uint32
  | uint64
  | double
  | float
  | bool
  | string
deriving DecidableEq, Repr

/-- `FieldDescriptor::Type`, with the message or the values of an enumeration that it refers to. -/
inductive FieldType (M : Type*) where
  | double
  | float
  | int64
  | uint64
  | int32
  | fixed64
  | fixed32
  | bool
  | string
  | group
  | message (m : M)
  | bytes
  | uint32
  | enum (values : List (Text × ℤ))
  | sfixed32
  | sfixed64
  | sint32
  | sint64
deriving DecidableEq

inductive FieldCppType where
  | scalar (type : CppType)
  | enum
  | message
deriving DecidableEq

def FieldType.cppType {M : Type*} : FieldType M → FieldCppType
  | .double => .scalar .double
  | .float => .scalar .float
  | .int64 | .sint64 | .sfixed64 => .scalar .int64
  | .uint64 | .fixed64 => .scalar .uint64
  | .int32 | .sint32 | .sfixed32 => .scalar .int32
  | .uint32 | .fixed32 => .scalar .uint32
  | .bool => .scalar .bool
  | .string | .bytes => .scalar .string
  | .enum _ => .enum
  | .message _ | .group => .message

def FieldType.typeName {M : Type*} : FieldType M → String
  | .double => "double"
  | .float => "float"
  | .int64 => "int64"
  | .uint64 => "uint64"
  | .int32 => "int32"
  | .fixed64 => "fixed64"
  | .fixed32 => "fixed32"
  | .bool => "bool"
  | .string => "string"
  | .group => "group"
  | .message _ => "message"
  | .bytes => "bytes"
  | .uint32 => "uint32"
  | .enum _ => "enum"
  | .sfixed32 => "sfixed32"
  | .sfixed64 => "sfixed64"
  | .sint32 => "sint32"
  | .sint64 => "sint64"

structure FieldDescriptor (M : Type*) where
  name : Text
  type : FieldType M
  repeated : Bool
deriving DecidableEq

/-- The descriptors of all messages; no two fields of a message have one name. -/
structure Schema (M : Type*) where
  fields : M → List (FieldDescriptor M)
  nodup : ∀ m, ((fields m).map FieldDescriptor.name).Nodup

abbrev CppValue : CppType → Type
  | .int32 | .int64 => ℤ
  | .uint32 | .uint64 => ℕ
  | .double => Float
  | .float => Float32
  | .bool => Bool
  | .string => Text

/-- What a field holds. Of a message it is whether it is there; its fields have values of their
own. -/
inductive FieldValue where
  | scalar (type : CppType) (value : CppValue type)
  | enum (number : ℤ)
  | repeatedScalar (type : CppType) (values : List (CppValue type))
  | repeatedEnum (numbers : List ℤ)
  | message (present : Bool)

/-- The names of the fields that lead to a field. -/
abbrev FieldPath := List Text

/-- A message with all messages in it. -/
abbrev ProtoMessage := FieldPath → FieldValue

/-- `node.as<T>()`: none where it throws, with the text of the exception. -/
structure YamlConversion where
  as : (type : CppType) → YamlNode → Option (CppValue type)
  what : YamlNode → Text
  as_string_scalar : ∀ text, as .string (.scalar text) = some text

inductive ParserError where
  | invalidConfiguration
  | missingField (path : Text)
  | typeMismatch (name : Text) (expected got : YamlNodeType)
  | nonScalar
  | conversion (what : Text)
  | invalidEnumValue (enumName name : Text)
  | unexpectedBytes
  | unexpectedType (typeName : String)
  | unsupportedRepeatedMessage
  | unknownField (name : Text)
  | invalidType (got : YamlNodeType) (name : Text) (typeName : String)
deriving DecidableEq

def YamlNodeType.toText : YamlNodeType → String
  | .null => "Null"
  | .scalar => "Scalar"
  | .sequence => "Sequence"
  | .map => "Map"

/-- The text of an error; `file` is the path of the file, in quotes. -/
def ParserError.what (file : String) : ParserError → String
  | .invalidConfiguration => "Invalid configuration"
  | .missingField path => file ++ ": Missing field '" ++ String.ofList path ++ "'"
  | .typeMismatch name expected got => file ++ ": Type mismatch for '" ++ String.ofList name ++
      "' - expected " ++ expected.toText ++ ", got " ++ got.toText
  | .nonScalar => file ++ ": Attempting to parse non-scalar field as scalar"
  | .conversion what => file ++ ": " ++ String.ofList what
  | .invalidEnumValue enumName name => file ++ ": Invalid enum value '" ++
      String.ofList enumName ++ "' for field " ++ String.ofList name
  | .unexpectedBytes => "Unexpected type BYTES"
  | .unexpectedType typeName => "Unexpected type: " ++ typeName
  | .unsupportedRepeatedMessage => "Unsupport repeated type MESSAGE"
  | .unknownField name => file ++ ": Unknown field '" ++ String.ofList name ++ "'"
  | .invalidType got name typeName => file ++ ": Invalid type '" ++ got.toText ++ "' for field " ++
      String.ofList name ++ ", expected '" ++ typeName ++ "'"

def charToUpper (c : Char) : Char := if 'a' ≤ c ∧ c ≤ 'z' then Char.ofNat (c.toNat - 32) else c

def charToLower (c : Char) : Char := if 'A' ≤ c ∧ c ≤ 'Z' then Char.ofNat (c.toNat + 32) else c

def charIsUpper (c : Char) : Bool := 'A' ≤ c && c ≤ 'Z'

def snakeToCamelFrom (capitalize : Bool) : Text → Text
  | [] => []
  | c :: s =>
    if c = '_' then snakeToCamelFrom true s
    else (if capitalize then charToUpper c else c) :: snakeToCamelFrom false s

def snakeCaseToCamel (s : Text) : Text := snakeToCamelFrom false s

def camelToSnakeFrom (first : Bool) : Text → Text
  | [] => []
  | c :: s =>
    if !first && charIsUpper c then '_' :: charToLower c :: camelToSnakeFrom false s
    else charToLower c :: camelToSnakeFrom false s

def camelCaseToSnake (s : Text) : Text := camelToSnakeFrom true s

def concatPath (path name : Text) : Text := if path = [] then name else path ++ '.' :: name

inductive ValidationMode where
  | strict
  | permissive
  | unknownFieldsOnly
deriving DecidableEq, Repr

structure ParserYaml where
  readCamelcase : Bool
  validationMode : ValidationMode
deriving DecidableEq, Repr

/-- The errors of a step and the message after it. There is none if reflection is used for a field
of another type, which aborts the process. -/
abbrev ParseStep := Option (List ParserError × ProtoMessage)

section Reflection

variable {M : Type*}

/-- The setter of a singular field of the type, such as `SetInt64`. -/
def setScalar (type : CppType) (value : CppValue type) (field : FieldDescriptor M)
    (at_ : FieldPath) (msg : ProtoMessage) : ParseStep :=
  if field.type.cppType = .scalar type ∧ field.repeated = false then
    some ([], Function.update msg at_ (.scalar type value))
  else none

def setEnumValue (number : ℤ) (field : FieldDescriptor M) (at_ : FieldPath) (msg : ProtoMessage) :
    ParseStep :=
  if field.type.cppType = .enum ∧ field.repeated = false then
    some ([], Function.update msg at_ (.enum number))
  else none

end Reflection

/-- The errors of the elements and the values of those that have none. -/
def convertItems {α : Type*} (convert : YamlNode → Except ParserError α) :
    List YamlNode → List ParserError × List α
  | [] => ([], [])
  | item :: items =>
    let rest := convertItems convert items
    match convert item with
    | .error err => (err :: rest.1, rest.2)
    | .ok value => (rest.1, value :: rest.2)

namespace ParserYaml

variable {M : Type*} (p : ParserYaml) (schema : Schema M) (conv : YamlConversion)

def lookupName (field : FieldDescriptor M) : Text :=
  if p.readCamelcase then snakeCaseToCamel field.name else field.name

def tryConvert (type : CppType) (node : YamlNode) : Except ParserError (CppValue type) :=
  match conv.as type node with
  | some value => .ok value
  | none => .error (.conversion (conv.what node))

/-- `FindValueByName` of the name in capital letters. -/
def findEnumValue (values : List (Text × ℤ)) (text name : Text) : Except ParserError ℤ :=
  match (values.find? fun value => value.1 = text.map charToUpper).map Prod.snd with
  | some number => .ok number
  | none => .error (.invalidEnumValue (text.map charToUpper) name)

def parseScalarAs (type : CppType) (node : YamlNode) (field : FieldDescriptor M)
    (at_ : FieldPath) (msg : ProtoMessage) : ParseStep :=
  match tryConvert conv type node with
  | .error err => some ([err], msg)
  | .ok value => setScalar type value field at_ msg

def parseScalar (text : Text) (field : FieldDescriptor M) (name : Text) (at_ : FieldPath)
    (msg : ProtoMessage) : ParseStep :=
  match field.type with
  | .double => parseScalarAs conv .double (.scalar text) field at_ msg
  | .float => parseScalarAs conv .float (.scalar text) field at_ msg
  | .sfixed64 | .int64 => parseScalarAs conv .int64 (.scalar text) field at_ msg
  | .sint64 | .fixed64 | .uint64 => parseScalarAs conv .uint64 (.scalar text) field at_ msg
  | .fixed32 | .uint32 => parseScalarAs conv .uint32 (.scalar text) field at_ msg
  | .sint32 | .sfixed32 | .int32 => parseScalarAs conv .int32 (.scalar text) field at_ msg
  | .bool => parseScalarAs conv .bool (.scalar text) field at_ msg
  | .string => parseScalarAs conv .string (.scalar text) field at_ msg
  | .bytes => some ([.unexpectedBytes], msg)
  | .enum values =>
    match findEnumValue values text name with
    | .error err => some ([err], msg)
    | .ok number => setEnumValue number field at_ msg
  | .message _ | .group => some ([.unexpectedType field.type.typeName], msg)

/-- The elements that can be converted are stored even if others cannot. -/
def parseArrayInner (type : CppType) (items : List YamlNode) (field : FieldDescriptor M)
    (at_ : FieldPath) (msg : ProtoMessage) : ParseStep :=
  if field.type.cppType = .scalar type ∧ field.repeated = true then
    let converted := convertItems (tryConvert conv type) items
    some (converted.1, Function.update msg at_ (.repeatedScalar type converted.2))
  else none

def convertEnumItem (values : List (Text × ℤ)) (name : Text) (item : YamlNode) :
    Except ParserError ℤ :=
  match tryConvert conv .string item with
  | .error err => .error err
  | .ok text => findEnumValue values text name

def parseArrayEnum (items : List YamlNode) (field : FieldDescriptor M) (at_ : FieldPath)
    (msg : ProtoMessage) : ParseStep :=
  match field.type with
  | .enum values =>
    let converted := convertItems (convertEnumItem conv values (p.lookupName field)) items
    some (converted.1, Function.update msg at_ (.repeatedEnum converted.2))
  | _ => none

def parseArray (items : List YamlNode) (field : FieldDescriptor M) (at_ : FieldPath)
    (msg : ProtoMessage) : ParseStep :=
  match field.type.cppType with
  | .scalar type => parseArrayInner conv type items field at_ msg
  | .enum => p.parseArrayEnum conv items field at_ msg
  | .message => some ([.unsupportedRepeatedMessage], msg)

/-- A loop over fields, which goes on after errors. -/
def runFields (step : FieldDescriptor M → ProtoMessage → ParseStep) :
    List (FieldDescriptor M) → ProtoMessage → ParseStep
  | [], msg => some ([], msg)
  | field :: fields, msg =>
    match step field msg with
    | none => none
    | some (errors, msg) =>
      match runFields step fields msg with
      | none => none
      | some (errors', msg) => some (errors ++ errors', msg)

def missingField (field : FieldDescriptor M) (path : Text) (msg : ProtoMessage) : ParseStep :=
  if p.validationMode = .strict then
    some ([.missingField (concatPath path (p.lookupName field))], msg)
  else some ([], msg)

mutual

/-- `Parse` of a field in a map: the first entry with its name is used. The message is the one at
`at_`. -/
def parseField (field : FieldDescriptor M) (at_ : FieldPath) (path : Text) (msg : ProtoMessage) :
    YamlEntries → ParseStep
  | [] => p.missingField field path msg
  | (key, value) :: entries =>
    if key.isKey (p.lookupName field) then parseValue field at_ path msg value
    else parseField field at_ path msg entries

/-- `Parse` of a field whose node has been found. -/
def parseValue (field : FieldDescriptor M) (at_ : FieldPath) (path : Text) (msg : ProtoMessage)
    (value : YamlNode) : ParseStep :=
  if field.repeated then
    match value with
    | .sequence items => p.parseArray conv items field (at_ ++ [field.name]) msg
    | _ => some ([.typeMismatch (p.lookupName field) .sequence value.type], msg)
  else
    match field.type, value with
    -- empty objects are ignored
    | .message _, .null => some ([], msg)
    | .message m, .map entries =>
      runFields (fun f msg => parseField f (at_ ++ [field.name])
          (concatPath path (p.lookupName field)) msg entries) (schema.fields m)
        (Function.update msg (at_ ++ [field.name]) (.message true))
    | .message _, _ => some ([.typeMismatch (p.lookupName field) .map value.type], msg)
    | _, .scalar text => parseScalar conv text field (p.lookupName field) (at_ ++ [field.name]) msg
    | _, _ => some ([.nonScalar], msg)

end

mutual

/-- `FindUnknownFields` of a map; none where a key is no text, or where `GetMessage` is used for a
repeated field. -/
def findUnknownFields (m : M) : YamlEntries → Option (List ParserError)
  | [] => some []
  | (key, value) :: entries => do
    let text ← conv.as .string key
    let name := if p.readCamelcase then camelCaseToSnake text else text
    let errors ← (match (schema.fields m).find? fun field => field.name = name with
      | none => some [.unknownField name]
      | some field => findUnknownInValue field text value)
    let errors' ← findUnknownFields m entries
    pure (errors ++ errors')

/-- The value of a key that is the name of a field: only maps are looked into. -/
def findUnknownInValue (field : FieldDescriptor M) (text : Text) :
    YamlNode → Option (List ParserError)
  | .map sub =>
    match field.type with
    | .message m' => if field.repeated then none else findUnknownFields m' sub
    | type => some [.invalidType .map text type.typeName]
  | _ => some []

end

def parseFields (m : M) (entries : YamlEntries) (msg : ProtoMessage) : ParseStep :=
  runFields (fun field msg => p.parseField schema conv field [] [] msg entries) (schema.fields m) msg

/-- A sequence has no names, and its elements are no pairs. -/
def findUnknownInNode (m : M) : YamlNode → Option (List ParserError)
  | .map entries => p.findUnknownFields schema conv m entries
  | .sequence (_ :: _) => none
  | _ => some []

def parse (m : M) (node : YamlNode) (msg : ProtoMessage) : ParseStep :=
  match node with
  | .null | .scalar _ => some ([.invalidConfiguration], msg)
  | _ =>
    let entries := match node with
      | .map entries => entries
      | _ => []
    match p.parseFields schema conv m entries msg with
    | none => none
    | some (errors, msg) =>
      if p.validationMode = .permissive then some (errors, msg)
      else
        match p.findUnknownInNode schema conv m node with
        | none => none
        | some errors' => some (errors ++ errors', msg)

end ParserYaml

end AcsNext.Collector
