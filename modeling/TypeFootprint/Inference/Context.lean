import TypeFootprint.Schema

/-!
# The types in force at a place of a document

A `Context` holds what a walk through a document has entered and not yet left: on one stack the
output types, on one the owners of selection sets, on one the input types, on one the definitions
of fields, and in a single slot the definition of the directive being read.  Innermost entries come
first, and an entry is `none` where the type is unknown or cannot stand there.

Every entering operation derives its entry from the context and the schema; every leaving operation
drops one entry.  What a walk shows of the context is its `position`.
-/

set_option autoImplicit false

namespace TypeFootprint

/-- The types at one place of a document: of what is selected, of its owner, of the value that is
written, and of what that value is a part of. -/
structure Position where
  output : Option TypeRef
  parentOutput : Option TypeRef
  input : Option TypeRef
  parentInput : Option TypeRef
deriving DecidableEq

/-- What has been entered and not left, innermost first. -/
structure Context where
  outputs : List (Option TypeRef)
  parents : List (Option TypeRef)
  inputs : List (Option TypeRef)
  fields : List (Option FieldDefinition)
  directive : Option DirectiveDefinition

namespace Context

/-- Nothing has been entered. -/
def empty : Context := ⟨[], [], [], [], none⟩

/-- The output type of the innermost operation, field or fragment. -/
def output (cx : Context) : Option TypeRef := cx.outputs.head?.join

/-- The type that owns the innermost selection set. -/
def parentOutput (cx : Context) : Option TypeRef := cx.parents.head?.join

/-- The type of the innermost value. -/
def input (cx : Context) : Option TypeRef := cx.inputs.head?.join

/-- The type of what the innermost value is a part of. -/
def parentInput (cx : Context) : Option TypeRef := cx.inputs[1]?.join

/-- The types that a rule sees. -/
def position (cx : Context) : Position :=
  ⟨cx.output, cx.parentOutput, cx.input, cx.parentInput⟩

/-! ## Entries

What each entering operation puts on a stack, as a function of the types around it. -/

/-- The output type of an operation: the root of its kind, if that is an object type. -/
def rootType (schema : Schema) (kind : OperationKind) : Option TypeRef := do
  let n ← schema.roots.get? kind
  schema.keepKind (fun k ↦ k = .object) (.ofName n)

/-- The output type of a fragment: its condition, or else the core of the surrounding output type;
kept only if it is an output type. -/
def fragmentType (schema : Schema) (condition : Option Name) (output : Option TypeRef) :
    Option TypeRef := do
  let n ← condition.or (output.map TypeRef.core)
  schema.keepKind TypeKind.isOutput (.ofName n)

/-- The owner of a selection set: the core of the output type around it, if that is composite. -/
def ownerType (schema : Schema) (output : Option TypeRef) : Option TypeRef := do
  let t ← output
  schema.keepKind TypeKind.isComposite (.ofName t.core)

/-- The definition of a field that is selected on its owner. -/
def fieldDefinition (schema : Schema) (owner : Option TypeRef) (field : Name) :
    Option FieldDefinition := do
  let t ← owner
  schema.field? t.core field

/-- The output type of a field. -/
def fieldType (schema : Schema) (definition : Option FieldDefinition) : Option TypeRef := do
  let f ← definition
  schema.keepKind TypeKind.isOutput f.type

/-- The arguments that may be given here: those of the directive being read, or else those of the
field. -/
def expectedArguments (directive : Option DirectiveDefinition) (field : Option FieldDefinition) :
    List InputValue :=
  match directive with
  | some d => d.arguments
  | none => (field.map FieldDefinition.arguments).getD []

/-- The type of the argument or input field of this name, if it is an input type. -/
def inputTypeOf (schema : Schema) (inputs : List InputValue) (n : Name) : Option TypeRef := do
  let v ← inputs.find? fun v ↦ v.name = n
  schema.keepKind TypeKind.isInput v.type

/-- The type of the items of a list literal: the item type of the type it is written against, or
that type itself, because a single item may stand for a list. -/
def itemType (schema : Schema) (input : Option TypeRef) : Option TypeRef := do
  let t ← input
  schema.keepKind TypeKind.isInput (t.item?.getD t.nullable)

/-- The fields that an object literal may have here. -/
def expectedFields (schema : Schema) (input : Option TypeRef) : List InputValue :=
  ((input.bind fun t ↦ schema.inputObject? t.core)).getD []

/-! ## Entering and leaving -/

variable (schema : Schema)

/-- Enters an operation. -/
def enterOperation (kind : OperationKind) (cx : Context) : Context :=
  { cx with outputs := rootType schema kind :: cx.outputs }

/-- Enters a fragment definition or an inline fragment. -/
def enterFragment (condition : Option Name) (cx : Context) : Context :=
  { cx with outputs := fragmentType schema condition cx.output :: cx.outputs }

/-- Enters a selection set. -/
def enterSelections (cx : Context) : Context :=
  { cx with parents := ownerType schema cx.output :: cx.parents }

/-- Enters a field. -/
def enterField (n : Name) (cx : Context) : Context :=
  let definition := fieldDefinition schema cx.parentOutput n
  { cx with
    outputs := fieldType schema definition :: cx.outputs
    fields := definition :: cx.fields }

/-- Starts to read a directive. -/
def enterDirective (n : Name) (cx : Context) : Context :=
  { cx with directive := schema.directive? n }

/-- Enters the declaration of a variable. -/
def enterVariable (type : TypeRef) (cx : Context) : Context :=
  { cx with inputs := schema.keepKind TypeKind.isInput type :: cx.inputs }

/-- Enters an argument. -/
def enterArgument (n : Name) (cx : Context) : Context :=
  let expected := expectedArguments cx.directive cx.fields.head?.join
  { cx with inputs := inputTypeOf schema expected n :: cx.inputs }

/-- Enters a list literal. -/
def enterList (cx : Context) : Context :=
  { cx with inputs := itemType schema cx.input :: cx.inputs }

/-- Enters a field of an object literal. -/
def enterObjectField (n : Name) (cx : Context) : Context :=
  { cx with inputs := inputTypeOf schema (expectedFields schema cx.input) n :: cx.inputs }

/-- Leaves an operation or a fragment. -/
def leaveOutput (cx : Context) : Context := { cx with outputs := cx.outputs.tail }

/-- Leaves a selection set. -/
def leaveSelections (cx : Context) : Context := { cx with parents := cx.parents.tail }

/-- Leaves a field. -/
def leaveField (cx : Context) : Context :=
  { cx with outputs := cx.outputs.tail, fields := cx.fields.tail }

/-- Leaves a variable, an argument, a list literal or a field of an object literal. -/
def leaveInput (cx : Context) : Context := { cx with inputs := cx.inputs.tail }

/-- Ends a directive. -/
def leaveDirective (cx : Context) : Context := { cx with directive := none }

end Context
end TypeFootprint
