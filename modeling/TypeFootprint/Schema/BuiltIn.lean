import TypeFootprint.Schema

/-!
# What every schema has

The introspection types, the five scalars and the four directives that are there without a
definition.  The types come before all others, in the order of `BuiltIn.types`.
-/

set_option autoImplicit false

namespace TypeFootprint
namespace BuiltIn

/-- The name with this text. -/
def named (text : String) (h : isName text.toList = true := by decide) : Name := ⟨text, h⟩

/-- A reference to a type of this name that may be absent. -/
def optional (n : Name) : TypeRef := .named n false

/-- A reference to a type of this name that is required. -/
def required (n : Name) : TypeRef := .named n true

/-- The reference to a list. -/
def listOf (item : TypeRef) : TypeRef := .list item false

/-- The reference to a list that is required. -/
def requiredListOf (item : TypeRef) : TypeRef := .list item true

/-- An argument without a default value. -/
def argument (n : Name) (type : TypeRef) : InputValue := ⟨none, n, type, none, []⟩

/-- A field without arguments. -/
def plainField (n : Name) (type : TypeRef) : FieldDefinition := ⟨none, n, [], type, []⟩

/-- A list whose deprecated items are left out unless they are asked for. -/
def filteredField (n : Name) (type : TypeRef) : FieldDefinition :=
  let choice : InputValue :=
    ⟨none, named "includeDeprecated", optional (named "Boolean"), some (.boolean false), []⟩
  ⟨none, n, [choice], type, []⟩

/-- An object type of this name. -/
def objectType (n : Name) (fields : List FieldDefinition) : TypeDefinition :=
  ⟨none, n, [], .object [] fields⟩

/-- A scalar type of this name. -/
def scalarType (n : Name) : TypeDefinition := ⟨none, n, [], .scalar⟩

/-- An enum type with these values. -/
def enumType (n : Name) (values : List Name) : TypeDefinition :=
  ⟨none, n, [], .enum (values.map fun v ↦ ⟨none, v, []⟩)⟩

/-- The type of a schema, as introspection shows it. -/
def schemaType : TypeDefinition := objectType .schemaType
  [plainField (named "description") (optional .string),
   plainField (named "types") (requiredListOf (required .typeType)),
   plainField (named "queryType") (required .typeType),
   plainField (named "mutationType") (optional .typeType),
   plainField (named "subscriptionType") (optional .typeType),
   plainField (named "directives") (requiredListOf (required (named "__Directive")))]

/-- The type of a type. -/
def typeType : TypeDefinition := objectType .typeType
  [plainField (named "kind") (required (named "__TypeKind")),
   plainField .name (optional .string),
   plainField (named "description") (optional .string),
   filteredField (named "fields") (listOf (required (named "__Field"))),
   plainField (named "interfaces") (listOf (required .typeType)),
   plainField (named "possibleTypes") (listOf (required .typeType)),
   filteredField (named "enumValues") (listOf (required (named "__EnumValue"))),
   filteredField (named "inputFields") (listOf (required (named "__InputValue"))),
   plainField (named "ofType") (optional .typeType),
   plainField (named "specifiedByURL") (optional .string)]

/-- The type of the kinds of type. -/
def typeKindType : TypeDefinition := enumType (named "__TypeKind")
  [named "SCALAR", named "OBJECT", named "INTERFACE", named "UNION", named "ENUM",
   named "INPUT_OBJECT", named "LIST", named "NON_NULL"]

/-- The type of a field. -/
def fieldType : TypeDefinition := objectType (named "__Field")
  [plainField .name (required .string),
   plainField (named "description") (optional .string),
   filteredField (named "args") (requiredListOf (required (named "__InputValue"))),
   plainField (named "type") (required .typeType),
   plainField (named "isDeprecated") (required (named "Boolean")),
   plainField (named "deprecationReason") (optional .string)]

/-- The type of an argument or an input field. -/
def inputValueType : TypeDefinition := objectType (named "__InputValue")
  [plainField .name (required .string),
   plainField (named "description") (optional .string),
   plainField (named "type") (required .typeType),
   plainField (named "defaultValue") (optional .string),
   plainField (named "isDeprecated") (required (named "Boolean")),
   plainField (named "deprecationReason") (optional .string)]

/-- The type of an enum value. -/
def enumValueType : TypeDefinition := objectType (named "__EnumValue")
  [plainField .name (required .string),
   plainField (named "description") (optional .string),
   plainField (named "isDeprecated") (required (named "Boolean")),
   plainField (named "deprecationReason") (optional .string)]

/-- The type of a directive. -/
def directiveType : TypeDefinition := objectType (named "__Directive")
  [plainField .name (required .string),
   plainField (named "description") (optional .string),
   plainField (named "locations") (requiredListOf (required (named "__DirectiveLocation"))),
   filteredField (named "args") (requiredListOf (required (named "__InputValue"))),
   plainField (named "isRepeatable") (required (named "Boolean"))]

/-- The type of the places of directives. -/
def directiveLocationType : TypeDefinition := enumType (named "__DirectiveLocation")
  [named "QUERY", named "MUTATION", named "SUBSCRIPTION", named "FIELD",
   named "FRAGMENT_DEFINITION", named "FRAGMENT_SPREAD", named "INLINE_FRAGMENT",
   named "VARIABLE_DEFINITION", named "SCHEMA", named "SCALAR", named "OBJECT",
   named "FIELD_DEFINITION", named "ARGUMENT_DEFINITION", named "INTERFACE", named "UNION",
   named "ENUM", named "ENUM_VALUE", named "INPUT_OBJECT", named "INPUT_FIELD_DEFINITION"]

/-- The types of every schema, in order. -/
def types : List TypeDefinition :=
  [schemaType, typeType, typeKindType, fieldType, inputValueType, enumValueType, directiveType,
   directiveLocationType, scalarType (named "Int"), scalarType (named "Float"),
   scalarType .string, scalarType (named "Boolean"), scalarType (named "ID")]

theorem types_nodup : (types.map TypeDefinition.name).Nodup := by decide

/-- Whether this is the name of a type that every schema has. -/
def isTypeName (n : Name) : Bool := (types.map TypeDefinition.name).contains n

/-- The directives of every schema.  A text may define each of them anew. -/
def directives : List DirectiveDefinition :=
  [⟨none, named "skip", [argument (named "if") (required (named "Boolean"))], false,
    [.field, .fragmentSpread, .inlineFragment]⟩,
   ⟨none, named "include", [argument (named "if") (required (named "Boolean"))], false,
    [.field, .fragmentSpread, .inlineFragment]⟩,
   ⟨none, named "deprecated",
    [⟨none, named "reason", optional .string, some (.string "No longer supported"), []⟩], false,
    [.fieldDefinition, .argumentDefinition, .inputFieldDefinition, .enumValue]⟩,
   ⟨none, named "specifiedBy", [argument (named "url") (required .string)], false, [.scalar]⟩]

end BuiltIn

/-- The types of a schema that other schemas do not have. -/
def Schema.ownTypes (schema : Schema) : List TypeDefinition :=
  schema.types.filter fun t ↦ !BuiltIn.isTypeName t.name

end TypeFootprint
