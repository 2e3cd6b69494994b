import TypeFootprint.Introspection.Result
import TypeFootprint.Json.Reader
import TypeFootprint.Json.Record
import TypeFootprint.Json.Writer

/-!
# Reading the results of the introspection query

Servers differ in what they send.  A list may be absent or `null` where it is empty, an optional
text may be absent or `null`, keys that nobody asked for are passed over, and the schema may stand
by itself or inside the `data` of a response.  A response without a schema is an error: the one
that the response reports first, if it reports any.
-/

set_option autoImplicit false

namespace TypeFootprint.Introspection

/-- Why a text is not a result of the introspection query. -/
inductive DecodeError where
  | json (fault : JsonFault)
  | missingSchema
  | reported (message : String)
deriving DecidableEq

/-! ## References -/

/-- What a one-member object may hold behind the kind it names: `null`, or inside a type also an
empty object. -/
def unitFault? (inType : Bool) : Json → Option ShapeFault
  | .null => none
  | .object [] => if inType then none else some (.wrongType .map "unit")
  | v => some (.wrongType v.found "unit")

/-- The kind that is written like this. -/
def kindOf (text : String) : Except ShapeFault ReferenceKind :=
  match ReferenceKind.all.find? fun k ↦ k.keyword == text with
  | some k => .ok k
  | none => .error (.unknownVariant text (ReferenceKind.all.map ReferenceKind.keyword))

/-- The kind of a reference: a string, or an object with the kind as its only key. -/
def readKind (inType : Bool) : Json → Except ShapeFault ReferenceKind
  | .string text => kindOf text
  | .object [(key, v)] => do
    let k ← kindOf key
    match unitFault? inType v with
    | some e => .error e
    | none => .ok k
  | .object _ => .error .notSingleKey
  | v => v.mismatch "string or map"

/-- The record of a reference. -/
def referenceRecord : RecordName := ⟨"struct TypeRef", 3⟩

/-- A value together with its reading as a reference. -/
abbrev ReadReference := Json × Except ShapeFault Reference

/-- What a reference is inside of another one: a value that may be `null`. -/
def readInner : ReadReference → Except ShapeFault (Option Reference)
  | (.null, _) => .ok none
  | (_, reading) => reading.map some

/-- Puts a reference together from its parts. -/
def assembleReference (inType : Bool) (p : RecordParts ReadReference) :
    Except ShapeFault Reference := do
  let kind : Slot ReadReference ReferenceKind := .required "kind" fun v ↦ readKind inType v.1
  let name : Slot ReadReference (Option String) :=
    .optional "name" fun v ↦ v.1.asOptional Json.asString
  let inner : Slot ReadReference (Option Reference) := .optional "ofType" readInner
  p.check [kind.check, name.check, inner.check]
  let k ← p.get referenceRecord 0 kind
  let n ← p.get referenceRecord 1 name
  let i ← p.get referenceRecord 2 inner
  p.finish referenceRecord inType
  match i with
  | none => .ok (.plain k n)
  | some i => .ok (.wrapping k n i)

mutual

/-- Reads a reference. -/
def readReference (inType : Bool) : Json → Except ShapeFault Reference
  | .object members => assembleReference inType (.keyed (readMembers inType members))
  | .array items => assembleReference inType (.listed (readItems inType items))
  | v => v.mismatch referenceRecord.text

/-- Each member with its reading as a reference. -/
def readMembers (inType : Bool) : List (String × Json) → List (String × ReadReference)
  | [] => []
  | (k, v) :: rest => (k, v, readReference inType v) :: readMembers inType rest

/-- Each item with its reading as a reference. -/
def readItems (inType : Bool) : List Json → List ReadReference
  | [] => []
  | v :: rest => (v, readReference inType v) :: readItems inType rest

end

/-! ## Fields, arguments and values -/

/-- The slot of a name. -/
def nameSlot : Slot Json String := .required "name" Json.asString

/-- A slot for a text that may be missing. -/
def textSlot (key : String) : Slot Json (Option String) :=
  .optional key (Json.asOptional Json.asString)

/-- A slot for a list that may be missing. -/
def listSlot {α : Type} (key : String) (read : Json → Except ShapeFault α) : Slot Json (List α) :=
  .withDefault key [] (Json.asList read)

/-- A slot for a truth value that is false where it is missing. -/
def flagSlot (key : String) : Slot Json Bool := .withDefault key false Json.asBoolean

/-- The slot of a type reference. -/
def typeSlot (inType : Bool) : Slot Json Reference := .required "type" (readReference inType)

/-- Reads a reference that is nothing but a name. -/
def readNamed (inType : Bool) (v : Json) : Except ShapeFault String := do
  let record : RecordName := ⟨"struct NamedRef", 1⟩
  let p ← v.asParts record
  p.check [nameSlot.check]
  let name ← p.get record 0 nameSlot
  p.finish record inType
  .ok name

/-- Reads an argument or a field of an input object. -/
def readInput (inType : Bool) (v : Json) : Except ShapeFault InputEntry := do
  let record : RecordName := ⟨"struct InputValue", 4⟩
  let p ← v.asParts record
  p.check [nameSlot.check, (textSlot "description").check, (typeSlot inType).check,
    (textSlot "defaultValue").check]
  let name ← p.get record 0 nameSlot
  let description ← p.get record 1 (textSlot "description")
  let type ← p.get record 2 (typeSlot inType)
  let default? ← p.get record 3 (textSlot "defaultValue")
  p.finish record inType
  .ok ⟨name, description, type, default?⟩

/-- Reads a field. -/
def readField (v : Json) : Except ShapeFault FieldEntry := do
  let record : RecordName := ⟨"struct Field", 6⟩
  let arguments := listSlot "args" (readInput true)
  let p ← v.asParts record
  p.check [nameSlot.check, (textSlot "description").check, arguments.check,
    (typeSlot true).check, (flagSlot "isDeprecated").check, (textSlot "deprecationReason").check]
  let name ← p.get record 0 nameSlot
  let description ← p.get record 1 (textSlot "description")
  let args ← p.get record 2 arguments
  let type ← p.get record 3 (typeSlot true)
  let deprecated ← p.get record 4 (flagSlot "isDeprecated")
  let reason ← p.get record 5 (textSlot "deprecationReason")
  p.finish record true
  .ok ⟨name, description, args, type, deprecated, reason⟩

/-- Reads a value of an enum type. -/
def readEnumValue (v : Json) : Except ShapeFault EnumEntry := do
  let record : RecordName := ⟨"struct EnumValue", 4⟩
  let p ← v.asParts record
  p.check [nameSlot.check, (textSlot "description").check, (flagSlot "isDeprecated").check,
    (textSlot "deprecationReason").check]
  let name ← p.get record 0 nameSlot
  let description ← p.get record 1 (textSlot "description")
  let deprecated ← p.get record 2 (flagSlot "isDeprecated")
  let reason ← p.get record 3 (textSlot "deprecationReason")
  p.finish record true
  .ok ⟨name, description, deprecated, reason⟩

/-! ## Types and directives -/

/-- All kinds of type. -/
def typeKinds : List TypeKind := [.scalar, .object, .interface, .union, .enum, .inputObject]

/-- How the kind of a type is written. -/
def typeKeyword : TypeKind → String
  | .scalar => "SCALAR"
  | .object => "OBJECT"
  | .interface => "INTERFACE"
  | .union => "UNION"
  | .enum => "ENUM"
  | .inputObject => "INPUT_OBJECT"

/-- Reads the kind of a type. -/
def readTypeKind : Json → Except ShapeFault TypeKind
  | .string text =>
    match typeKinds.find? fun k ↦ typeKeyword k == text with
    | some k => .ok k
    | none => .error (.unknownVariant text (typeKinds.map typeKeyword))
  | v => v.mismatch "variant identifier"

/-- The kind of a type, and its parts without the kind.  In an array the kind comes first. -/
def splitType : Json → Except ShapeFault (TypeKind × RecordParts Json)
  | .object members =>
    match Json.lookUp? "kind" members with
    | none => .error (.missingField "kind")
    | some v => (readTypeKind v).map fun k ↦ (k, .keyed members)
  | .array [] => .error (.missingField "kind")
  | .array (v :: items) => (readTypeKind v).map fun k ↦ (k, .listed items)
  | v => v.mismatch "internally tagged enum IntrospectionType"

/-- The record of a type of some kind. -/
def typeRecord : TypeKind → RecordName
  | .scalar => ⟨"struct ScalarType", 2⟩
  | .object => ⟨"struct ObjectType", 4⟩
  | .interface => ⟨"struct ObjectType", 4⟩
  | .union => ⟨"struct UnionType", 3⟩
  | .enum => ⟨"struct EnumType", 3⟩
  | .inputObject => ⟨"struct InputObjectType", 3⟩

/-- The slot of the fields of an object type or an interface. -/
def fieldsSlot : Slot Json (List FieldEntry) := listSlot "fields" readField

/-- The slot of the interfaces of an object type or an interface. -/
def interfacesSlot : Slot Json (List String) := listSlot "interfaces" (readNamed true)

/-- The slot of the members of a union. -/
def possibleTypesSlot : Slot Json (List String) := listSlot "possibleTypes" (readNamed true)

/-- The slot of the values of an enum type. -/
def enumValuesSlot : Slot Json (List EnumEntry) := listSlot "enumValues" readEnumValue

/-- The slot of the fields of an input object. -/
def inputFieldsSlot : Slot Json (List InputEntry) := listSlot "inputFields" (readInput true)

/-- What may be wrong with the members of a type, besides its name and description. -/
def bodyChecks : TypeKind → List (String × (Json → Option ShapeFault))
  | .scalar => []
  | .object => [fieldsSlot.check, interfacesSlot.check]
  | .interface => [fieldsSlot.check, interfacesSlot.check]
  | .union => [possibleTypesSlot.check]
  | .enum => [enumValuesSlot.check]
  | .inputObject => [inputFieldsSlot.check]

/-- Reads the body of a type behind its name and description. -/
def readBody (p : RecordParts Json) (kind : TypeKind) : Except ShapeFault EntryBody := do
  let record := typeRecord kind
  match kind with
  | .scalar => .ok .scalar
  | .object =>
    let fields ← p.get record 2 fieldsSlot
    let interfaces ← p.get record 3 interfacesSlot
    .ok (.object fields interfaces)
  | .interface =>
    let fields ← p.get record 2 fieldsSlot
    let interfaces ← p.get record 3 interfacesSlot
    .ok (.interface fields interfaces)
  | .union => .ok (.union (← p.get record 2 possibleTypesSlot))
  | .enum => .ok (.enum (← p.get record 2 enumValuesSlot))
  | .inputObject => .ok (.inputObject (← p.get record 2 inputFieldsSlot))

/-- Reads a type. -/
def readType (v : Json) : Except ShapeFault TypeEntry := do
  let (kind, p) ← splitType v
  let record := typeRecord kind
  p.check (nameSlot.check :: (textSlot "description").check :: bodyChecks kind)
  let name ← p.get record 0 nameSlot
  let description ← p.get record 1 (textSlot "description")
  let body ← readBody p kind
  p.finish record true
  .ok ⟨name, description, body⟩

/-- Reads a directive. -/
def readDirective (v : Json) : Except ShapeFault DirectiveEntry := do
  let record : RecordName := ⟨"struct IntrospectionDirective", 5⟩
  let locations := listSlot "locations" Json.asString
  let arguments := listSlot "args" (readInput false)
  let p ← v.asParts record
  p.check [nameSlot.check, (textSlot "description").check, locations.check, arguments.check,
    (flagSlot "isRepeatable").check]
  let name ← p.get record 0 nameSlot
  let description ← p.get record 1 (textSlot "description")
  let locs ← p.get record 2 locations
  let args ← p.get record 3 arguments
  let repeatable ← p.get record 4 (flagSlot "isRepeatable")
  p.finish record false
  .ok ⟨name, description, locs, args, repeatable⟩

/-- The slot of a root type. -/
def rootSlot (key : String) : Slot Json (Option String) :=
  .optional key (Json.asOptional (readNamed false))

/-- Reads everything that a server says about its schema. -/
def readResult (v : Json) : Except ShapeFault Result := do
  let record : RecordName := ⟨"struct IntrospectionSchema", 5⟩
  let types := listSlot "types" readType
  let directives := listSlot "directives" readDirective
  let p ← v.asParts record
  p.check [(rootSlot "queryType").check, (rootSlot "mutationType").check,
    (rootSlot "subscriptionType").check, types.check, directives.check]
  let query ← p.get record 0 (rootSlot "queryType")
  let mutation ← p.get record 1 (rootSlot "mutationType")
  let subscription ← p.get record 2 (rootSlot "subscriptionType")
  let ts ← p.get record 3 types
  let ds ← p.get record 4 directives
  p.finish record false
  .ok ⟨query, mutation, subscription, ts, ds⟩

/-! ## Responses -/

/-- The schema in a response: under `data`, if the response has any data, or else by itself. -/
def schemaOf? (response : Json) : Option Json :=
  let holder := ((response.get? "data").filter fun data ↦ !data.isNull).getD response
  (holder.get? "__schema").filter fun schema ↦ !schema.isNull

/-- The first error that a response reports: its message, or all of it if it has none. -/
def reportedError? (response : Json) : Option String :=
  match response.get? "errors" with
  | some (.array (e :: _)) =>
    match e.get? "message" with
    | some (.string message) => some message
    | _ => some e.compact
  | _ => none

/-- Reads a response. -/
def ofJson (response : Json) : Except DecodeError Result :=
  match schemaOf? response with
  | some schema => (readResult schema).mapError fun f ↦ .json (.shape f)
  | none =>
    match reportedError? response with
    | some message => .error (.reported message)
    | none => .error .missingSchema

/-- Reads the text of a response. -/
def parse (text : String) : Except DecodeError Result :=
  match Json.parse text with
  | .ok response => ofJson response
  | .error f => .error (.json f)

/-- What is wrong, in words.  The details of a malformed text are left out. -/
def DecodeError.message : DecodeError → String
  | json (.shape f) => "Failed to parse introspection JSON: " ++ f.message
  | json _ => "Failed to parse introspection JSON"
  | missingSchema =>
    "Introspection result has no __schema (expected \x7b\"data\": \x7b\"__schema\": ...\x7d\x7d" ++
      " or \x7b\"__schema\": ...\x7d)"
  | reported message => "Introspection result reported errors: " ++ message

end TypeFootprint.Introspection
