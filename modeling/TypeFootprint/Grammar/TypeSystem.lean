import TypeFootprint.Grammar.Value

/-!
# The grammar of the type system

Definitions may be described by a string in front of them; extensions may not, and an extension
has to add something.  A type may be defined without a body, but a body has at least one item.
-/

set_option autoImplicit false

namespace TypeFootprint
namespace Parser

/-- An argument of a field or a directive, or a field of an input object. -/
def inputValue : Parser InputValue := do
  let description ← takeString
  let n ← name
  mark .colon
  let type ← typeRef
  let default? ← defaultValue
  let ds ← outerDirectives true
  return ⟨description, n, type, default?, ds⟩

/-- The arguments that a field or a directive takes. -/
def argumentDefinitions : Parser (List InputValue) :=
  optionalGroup .parenOpen .parenClose inputValue

/-- A field of an object type or of an interface. -/
def fieldDefinition : Parser FieldDefinition := do
  let description ← takeString
  let n ← name
  let args ← argumentDefinitions
  mark .colon
  let type ← typeRef
  let ds ← outerDirectives true
  return ⟨description, n, args, type, ds⟩

/-- Fields in braces, or none at all. -/
def fieldDefinitions : Parser (List FieldDefinition) :=
  optionalGroup .braceOpen .braceClose fieldDefinition

/-- Whether an enum value may have this name. -/
def isEnumName (n : Name) : Bool := n.text != "true" && n.text != "false" && n.text != "null"

/-- A value of an enum type. -/
def enumValue : Parser EnumValue := do
  let description ← takeString
  let n ← name
  if isEnumName n then
    let ds ← outerDirectives true
    return ⟨description, n, ds⟩
  else failure

/-- The interfaces that a type implements. -/
def interfaces : Parser (List Name) := do
  if ← takeKeyword "implements" then separated .ampersand name else return []

/-- The members of a union. -/
def members : Parser (List Name) := do
  if ← takeMark .equals then separated .pipe name else return []

/-- The kind of type that a keyword introduces. -/
def typeKind? (text : String) : Option TypeKind :=
  match text with
  | "scalar" => some .scalar
  | "type" => some .object
  | "interface" => some .interface
  | "union" => some .union
  | "enum" => some .enum
  | "input" => some .inputObject
  | _ => none

/-- What follows the name of a type: directives, and the body that belongs to the kind. -/
def typeBody : TypeKind → Parser (List Directive × TypeBody)
  | .scalar => do
    let ds ← outerDirectives true
    return (ds, .scalar)
  | .object => do
    let is ← interfaces
    let ds ← outerDirectives true
    let fs ← fieldDefinitions
    return (ds, .object is fs)
  | .interface => do
    let is ← interfaces
    let ds ← outerDirectives true
    let fs ← fieldDefinitions
    return (ds, .interface is fs)
  | .union => do
    let ds ← outerDirectives true
    let ms ← members
    return (ds, .union ms)
  | .enum => do
    let ds ← outerDirectives true
    let vs ← optionalGroup .braceOpen .braceClose enumValue
    return (ds, .enum vs)
  | .inputObject => do
    let ds ← outerDirectives true
    let fs ← optionalGroup .braceOpen .braceClose inputValue
    return (ds, .inputObject fs)

/-- A type definition behind its keyword. -/
def typeDefinition (description : Option String) (kind : TypeKind) : Parser TypeDefinition := do
  let n ← name
  let (ds, body) ← typeBody kind
  return ⟨description, n, ds, body⟩

/-- Whether a body has no items. -/
def isEmptyBody : TypeBody → Bool
  | .scalar => true
  | .object is fs => is.isEmpty && fs.isEmpty
  | .interface is fs => is.isEmpty && fs.isEmpty
  | .union ms => ms.isEmpty
  | .enum vs => vs.isEmpty
  | .inputObject fs => fs.isEmpty

/-- A type extension behind its keyword. -/
def typeExtension (kind : TypeKind) : Parser TypeExtension := do
  let n ← name
  let (ds, body) ← typeBody kind
  if ds.isEmpty && isEmptyBody body then failure else return ⟨n, ds, body⟩

/-- The kind of operation that a keyword introduces. -/
def operationKind? (text : String) : Option OperationKind :=
  match text with
  | "query" => some .query
  | "mutation" => some .mutation
  | "subscription" => some .subscription
  | _ => none

/-- A kind of operation. -/
def operationKind : Parser OperationKind := do
  let n ← name
  match operationKind? n.text with
  | some kind => return kind
  | none => failure

/-- A root operation type of a schema. -/
def rootOperation : Parser RootOperation := do
  let kind ← operationKind
  mark .colon
  let type ← name
  return ⟨kind, type⟩

/-- A schema definition behind its keyword. -/
def schemaDefinition (description : Option String) : Parser TypeSystemDefinition := do
  let ds ← outerDirectives true
  mark .braceOpen
  let roots ← someTill .braceClose rootOperation
  return .schema description ds roots

/-- A schema extension behind its keyword. -/
def schemaExtension : Parser TypeSystemDefinition := do
  let ds ← outerDirectives true
  let roots ← optionalGroup .braceOpen .braceClose rootOperation
  if ds.isEmpty && roots.isEmpty then failure else return .extendSchema ds roots

/-- The place where a directive may be applied. -/
def directiveLocation : Parser DirectiveLocation := do
  let n ← name
  match DirectiveLocation.ofKeyword? n.text with
  | some l => return l
  | none => failure

/-- A directive definition behind its keyword. -/
def directiveDefinition (description : Option String) : Parser DirectiveDefinition := do
  mark .atSign
  let n ← name
  let args ← argumentDefinitions
  let repeatable ← takeKeyword "repeatable"
  keyword "on"
  let locations ← separated .pipe directiveLocation
  return ⟨description, n, args, repeatable, locations⟩

/-- A definition of the type system behind the name that starts it. -/
def typeSystemDefinition (description : Option String) (start : Name) :
    Parser TypeSystemDefinition := do
  if start.text = "schema" then schemaDefinition description
  else if start.text = "directive" then return .directive (← directiveDefinition description)
  else match typeKind? start.text with
    | some kind => return .type (← typeDefinition description kind)
    | none => failure

/-- An extension behind the keyword `extend`. -/
def extension : Parser TypeSystemDefinition := do
  let start ← name
  if start.text = "schema" then schemaExtension
  else match typeKind? start.text with
    | some kind => return .extendType (← typeExtension kind)
    | none => failure

end Parser
end TypeFootprint
