import TypeFootprint.TypeSystem

/-!
# Documents

A document is a list of definitions: operations, fragments, and definitions of the type system,
which may stand among them.  What an operation or a fragment asks for is a list of `Selection`s.
-/

set_option autoImplicit false

namespace TypeFootprint

/-- An item of a selection set. -/
inductive Selection where
  | field (responseName : Option Name) (name : Name) (arguments : List Argument)
      (directives : List Directive) (selections : List Selection)
  | spread (fragment : Name) (directives : List Directive)
  | inline (condition : Option Name) (directives : List Directive) (selections : List Selection)

/-- The declaration of a variable by an operation. -/
structure VariableDefinition where
  name : Name
  type : TypeRef
  defaultValue : Option Value
  directives : List Directive

/-- A query, a mutation or a subscription. -/
structure Operation where
  kind : OperationKind
  name : Option Name
  declarations : List VariableDefinition
  directives : List Directive
  selections : List Selection

/-- A named fragment with its type condition. -/
structure Fragment where
  name : Name
  condition : Name
  directives : List Directive
  selections : List Selection

/-- A definition of a document. -/
inductive Definition where
  | operation (definition : Operation)
  | fragment (definition : Fragment)
  | typeSystem (definition : TypeSystemDefinition)

/-- The definitions of one text, or of several texts one after the other. -/
abbrev Document := List Definition

/-- The fragments that a document defines, in order. -/
def Document.fragments (document : Document) : List Fragment :=
  document.filterMap fun
    | .fragment f => some f
    | _ => none

end TypeFootprint
