import TypeFootprint.TypeSystem

/-!
# Results of the introspection query

What a server says about its schema when it is asked: the names of the root types, the types and
the directives.  Names are texts here, because nothing keeps a server from sending others, and a
default value is a text that the server has written already.

A `Reference` to a type is nested the other way round than it is written: a required type is a
wrapper around the type that is required.  A wrapper may have lost what it wraps.
-/

set_option autoImplicit false

namespace TypeFootprint.Introspection

/-- The kinds of reference. -/
inductive ReferenceKind where
  | scalar
  | object
  | interface
  | union
  | enum
  | inputObject
  | list
  | nonNull
deriving DecidableEq

namespace ReferenceKind

/-- How a kind is written. -/
def keyword : ReferenceKind → String
  | scalar => "SCALAR"
  | object => "OBJECT"
  | interface => "INTERFACE"
  | union => "UNION"
  | enum => "ENUM"
  | inputObject => "INPUT_OBJECT"
  | list => "LIST"
  | nonNull => "NON_NULL"

/-- All kinds. -/
def all : List ReferenceKind := [scalar, object, interface, union, enum, inputObject, list, nonNull]

end ReferenceKind

/-- A reference to a type, with or without another one inside. -/
inductive Reference where
  | plain (kind : ReferenceKind) (name : Option String)
  | wrapping (kind : ReferenceKind) (name : Option String) (inner : Reference)
deriving DecidableEq

namespace Reference

/-- The kind of a reference. -/
def kind : Reference → ReferenceKind
  | plain k _ => k
  | wrapping k _ _ => k

/-- The name at the centre, if there is one. -/
def namedType? : Reference → Option String
  | plain _ name => name
  | wrapping _ _ inner => inner.namedType?

/-- How a reference is written in a schema.  A wrapper that has lost what it wraps shows its own
marks only. -/
def render : Reference → String
  | plain .nonNull _ => "!"
  | plain .list _ => "[]"
  | plain _ name => name.getD ""
  | wrapping .nonNull _ inner => inner.render ++ "!"
  | wrapping .list _ inner => "[" ++ inner.render ++ "]"
  | wrapping _ name _ => name.getD ""

end Reference

/-- An argument, or a field of an input object. -/
structure InputEntry where
  name : String
  description : Option String
  type : Reference
  defaultValue : Option String

/-- A field of an object type or of an interface. -/
structure FieldEntry where
  name : String
  description : Option String
  arguments : List InputEntry
  type : Reference
  isDeprecated : Bool
  deprecationReason : Option String

/-- A value of an enum type. -/
structure EnumEntry where
  name : String
  description : Option String
  isDeprecated : Bool
  deprecationReason : Option String

/-- What a type consists of, by kind. -/
inductive EntryBody where
  | scalar
  | object (fields : List FieldEntry) (interfaces : List String)
  | interface (fields : List FieldEntry) (interfaces : List String)
  | union (possibleTypes : List String)
  | enum (values : List EnumEntry)
  | inputObject (fields : List InputEntry)

/-- The kind of a body. -/
def EntryBody.kind : EntryBody → TypeKind
  | scalar => .scalar
  | object _ _ => .object
  | interface _ _ => .interface
  | union _ => .union
  | enum _ => .enum
  | inputObject _ => .inputObject

/-- A type. -/
structure TypeEntry where
  name : String
  description : Option String
  body : EntryBody

/-- A directive. -/
structure DirectiveEntry where
  name : String
  description : Option String
  locations : List String
  arguments : List InputEntry
  isRepeatable : Bool

/-- All that a server says about its schema. -/
structure Result where
  queryType : Option String
  mutationType : Option String
  subscriptionType : Option String
  types : List TypeEntry
  directives : List DirectiveEntry

/-- The scalars that every schema has. -/
def builtInScalars : List String := ["Int", "Float", "String", "Boolean", "ID"]

/-- Whether every schema has a type of this name: a scalar of the language, or a type of the
introspection system, whose names start with two underscores. -/
def TypeEntry.isBuiltIn (t : TypeEntry) : Bool :=
  t.name.toList.take 2 == ['_', '_'] || builtInScalars.contains t.name

/-- The type of this name. -/
def Result.type? (r : Result) (name : String) : Option TypeEntry :=
  r.types.find? fun t ↦ t.name == name

end TypeFootprint.Introspection
