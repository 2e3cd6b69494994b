import TypeFootprint.Document
import TypeFootprint.Inference.Context

/-!
# Rules: what is recorded at the nodes of a document

A walk through a document calls a rule at every `Node`.  The rule sees the node and the types in
force there, and answers with the types to record and whether the parts of the node are to be
passed over.  A `Call` is one such consultation.
-/

set_option autoImplicit false

namespace TypeFootprint

/-- A place of a document at which a rule is asked. -/
inductive Node where
  | operation (definition : Operation)
  | variableDefinition (definition : VariableDefinition)
  | fragmentDefinition (definition : Fragment)
  | selection (s : Selection)
  | argument (a : Argument)
  | directive (d : Directive)
  | value (v : Value)
  | objectField (name : Name) (value : Value)

/-- The sorts of node that rules tell apart. -/
inductive NodeKind where
  | operation
  | variableDefinition
  | fragmentDefinition
  | field
  | fragmentSpread
  | inlineFragment
  | argument
  | directive
  | scalarValue
  | enumValue
  | nullValue
  | variableUse
  | listValue
  | objectValue
  | objectField
deriving DecidableEq

/-- The sort of a value. -/
def Value.nodeKind : Value → NodeKind
  | var _ => .variableUse
  | int _ | float _ | string _ | boolean _ => .scalarValue
  | null => .nullValue
  | enum _ => .enumValue
  | list _ => .listValue
  | object _ => .objectValue

/-- The sort of an item of a selection set. -/
def Selection.nodeKind : Selection → NodeKind
  | field .. => .field
  | spread .. => .fragmentSpread
  | inline .. => .inlineFragment

/-- The sort of a node. -/
def Node.kind : Node → NodeKind
  | operation _ => .operation
  | variableDefinition _ => .variableDefinition
  | fragmentDefinition _ => .fragmentDefinition
  | selection s => s.nodeKind
  | argument _ => .argument
  | directive _ => .directive
  | value v => v.nodeKind
  | objectField _ _ => .objectField

/-- What a rule answers. -/
structure Recorded where
  types : List TypeRef
  skipChildren : Bool
deriving DecidableEq

namespace Recorded

/-- Nothing to record, and the parts are visited. -/
def none : Recorded := ⟨[], false⟩

/-- The types that are known are recorded, and the parts are visited. -/
def known (types : List (Option TypeRef)) : Recorded := ⟨types.filterMap id, false⟩

/-- Further types, behind the ones that are there. -/
def and (r : Recorded) (types : List TypeRef) : Recorded := { r with types := r.types ++ types }

/-- The parts are passed over. -/
def skipping (r : Recorded) : Recorded := { r with skipChildren := true }

end Recorded

/-- A rule for every node, in every position. -/
abbrev Rules := Node → Position → Recorded

/-- The rules that record nothing. -/
def Rules.silent : Rules := fun _ _ ↦ .none

/-- The same rules, with the parts of some nodes passed over. -/
def Rules.skipping (rules : Rules) (skip : Node → Bool) : Rules :=
  fun node position ↦
    if skip node then (rules node position).skipping else rules node position

/-- One consultation of a rule: the node, the types in force there, and the answer. -/
structure Call where
  node : Node
  position : Position
  recorded : Recorded

end TypeFootprint
