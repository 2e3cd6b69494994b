import TypeFootprint.TypeRef
import TypeFootprint.Value

/-!
# Type system definitions

What a schema is written in: definitions of types, of directives and of root operation types, and
the extensions of types and of the schema.  A definition and an extension of a type share their
`TypeBody`; a body has a `TypeKind`, which decides where the type may stand.
-/

set_option autoImplicit false

namespace TypeFootprint

/-- The kinds of operation. -/
inductive OperationKind where
  | query
  | mutation
  | subscription
deriving DecidableEq

/-- The keyword of an operation, which is also its key in a schema definition. -/
def OperationKind.keyword : OperationKind → String
  | query => "query"
  | mutation => "mutation"
  | subscription => "subscription"

/-- The kinds of named type. -/
inductive TypeKind where
  | scalar
  | object
  | interface
  | union
  | enum
  | inputObject
deriving DecidableEq

namespace TypeKind

/-- Object, interface or union: what may have a selection set and be the condition of a fragment. -/
def isComposite : TypeKind → Bool
  | object | interface | union => true
  | scalar | enum | inputObject => false

/-- Interface or union: what stands for one of several object types. -/
def isAbstract : TypeKind → Bool
  | interface | union => true
  | scalar | object | enum | inputObject => false

/-- What may be the type of an argument or of a variable. -/
def isInput : TypeKind → Bool
  | scalar | enum | inputObject => true
  | object | interface | union => false

/-- What may be the type of a field. -/
def isOutput : TypeKind → Bool
  | inputObject => false
  | scalar | object | interface | union | enum => true

end TypeKind

/-- An argument, or a field of an input object. -/
structure InputValue where
  description : Option String
  name : Name
  type : TypeRef
  defaultValue : Option Value
  directives : List Directive

/-- A field of an object type or of an interface. -/
structure FieldDefinition where
  description : Option String
  name : Name
  arguments : List InputValue
  type : TypeRef
  directives : List Directive

/-- A value of an enum type. -/
structure EnumValue where
  description : Option String
  name : Name
  directives : List Directive

/-- What a type consists of, by kind. -/
inductive TypeBody where
  | scalar
  | object (interfaces : List Name) (fields : List FieldDefinition)
  | interface (interfaces : List Name) (fields : List FieldDefinition)
  | union (members : List Name)
  | enum (values : List EnumValue)
  | inputObject (fields : List InputValue)

/-- The kind of a body. -/
def TypeBody.kind : TypeBody → TypeKind
  | scalar => .scalar
  | object _ _ => .object
  | interface _ _ => .interface
  | union _ => .union
  | enum _ => .enum
  | inputObject _ => .inputObject

/-- The definition of a named type. -/
structure TypeDefinition where
  description : Option String
  name : Name
  directives : List Directive
  body : TypeBody

/-- The kind of a defined type. -/
def TypeDefinition.kind (t : TypeDefinition) : TypeKind := t.body.kind

/-- An addition to a type that is defined elsewhere. -/
structure TypeExtension where
  name : Name
  directives : List Directive
  body : TypeBody

/-- The places at which a directive may be applied. -/
inductive DirectiveLocation where
  | query
  | mutation
  | subscription
  | field
  | fragmentDefinition
  | fragmentSpread
  | inlineFragment
  | variableDefinition
  | schema
  | scalar
  | object
  | fieldDefinition
  | argumentDefinition
  | interface
  | union
  | enum
  | enumValue
  | inputObject
  | inputFieldDefinition
deriving DecidableEq

namespace DirectiveLocation

/-- How a location is written. -/
def keyword : DirectiveLocation → String
  | query => "QUERY"
  | mutation => "MUTATION"
  | subscription => "SUBSCRIPTION"
  | field => "FIELD"
  | fragmentDefinition => "FRAGMENT_DEFINITION"
  | fragmentSpread => "FRAGMENT_SPREAD"
  | inlineFragment => "INLINE_FRAGMENT"
  | variableDefinition => "VARIABLE_DEFINITION"
  | schema => "SCHEMA"
  | scalar => "SCALAR"
  | object => "OBJECT"
  | fieldDefinition => "FIELD_DEFINITION"
  | argumentDefinition => "ARGUMENT_DEFINITION"
  | interface => "INTERFACE"
  | union => "UNION"
  | enum => "ENUM"
  | enumValue => "ENUM_VALUE"
  | inputObject => "INPUT_OBJECT"
  | inputFieldDefinition => "INPUT_FIELD_DEFINITION"

/-- All locations. -/
def all : List DirectiveLocation :=
  [query, mutation, subscription, field, fragmentDefinition, fragmentSpread, inlineFragment,
    variableDefinition, schema, scalar, object, fieldDefinition, argumentDefinition, interface,
    union, enum, enumValue, inputObject, inputFieldDefinition]

/-- The location that is written like this. -/
def ofKeyword? (text : String) : Option DirectiveLocation := all.find? fun l ↦ l.keyword == text

end DirectiveLocation

/-- The definition of a directive. -/
structure DirectiveDefinition where
  description : Option String
  name : Name
  arguments : List InputValue
  repeatable : Bool
  locations : List DirectiveLocation

/-- The type that an operation of some kind starts from. -/
structure RootOperation where
  kind : OperationKind
  type : Name

/-- A definition or an extension of the type system. -/
inductive TypeSystemDefinition where
  | schema (description : Option String) (directives : List Directive)
      (roots : List RootOperation)
  | type (definition : TypeDefinition)
  | directive (definition : DirectiveDefinition)
  | extendSchema (directives : List Directive) (roots : List RootOperation)
  | extendType (addition : TypeExtension)

/-- The name of what is defined or extended; a schema has none. -/
def TypeSystemDefinition.name? : TypeSystemDefinition → Option Name
  | schema .. => none
  | type t => some t.name
  | directive d => some d.name
  | extendSchema .. => none
  | extendType e => some e.name

end TypeFootprint
