import TypeFootprint.Name

/-!
# Values and directives

The literals of GraphQL as they are written: numbers keep their spelling, and the fields of an
object literal keep their order and repetitions.  Directives carry arguments, and arguments carry
values.
-/

set_option autoImplicit false

namespace TypeFootprint

/-- A value as it is written, or a reference to a variable. -/
inductive Value where
  | var (name : Name)
  | int (text : String)
  | float (text : String)
  | string (text : String)
  | boolean (value : Bool)
  | null
  | enum (name : Name)
  | list (items : List Value)
  | object (fields : List (Name × Value))

/-- An argument of a field or of a directive. -/
structure Argument where
  name : Name
  value : Value

/-- The application of a directive. -/
structure Directive where
  name : Name
  arguments : List Argument

end TypeFootprint
