import TypeFootprint.OrderedSet
import TypeFootprint.Schema

/-!
# The object types behind abstract types

A value of a union is of one of its members, a value of an interface is of one of the object types
that implement it.  `expand` adds these to a set of types; it looks at the types of the given set
once, not at those that it adds.
-/

set_option autoImplicit false

namespace TypeFootprint

/-- Whether this is an object type that implements an interface of this name. -/
def TypeDefinition.isObjectWith (t : TypeDefinition) (interface : Name) : Bool :=
  match t.body with
  | .object is _ => is.contains interface
  | _ => false

/-- The members of a union, or the object types that implement an interface, in the order of the
schema.  Other types, and names that are not defined, stand for nothing but themselves. -/
def possibleTypes (schema : Schema) (n : Name) : List Name :=
  match (schema.type? n).map TypeDefinition.body with
  | some (.union members) => members
  | some (.interface _ _) =>
    (schema.types.filter fun t ↦ t.isObjectWith n).map TypeDefinition.name
  | _ => []

/-- A set of types and, behind them, the possible types of each. -/
def expand (schema : Schema) (types : OrderedSet TypeRef) : OrderedSet TypeRef :=
  types.insertMany (types.toList.flatMap fun t ↦ (possibleTypes schema t.core).map .ofName)

end TypeFootprint
