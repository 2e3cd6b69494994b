import TypeFootprint.Inference.Rules
import TypeFootprint.OrderedSet

/-!
# Walking through a document

`walkDocument` goes through the operations and fragments of a document in the order of the text.
It enters a node, asks the rule, goes through the parts of the node unless the rule passes over
them, and leaves the node.  A walk is a function on the `Context`; its trace says what it entered,
asked and left, in order.

The type system definitions of a document are not walked through.
-/

set_option autoImplicit false

namespace TypeFootprint

/-- The parts of a context that are entered and left. -/
inductive Frame where
  | output
  | parentOutput
  | input
  | field
  | directive
deriving DecidableEq

/-- One step of a walk. -/
inductive Step where
  | enter (frame : Frame)
  | leave (frame : Frame)
  | call (c : Call)

/-- The consultation that a step is, if it is one. -/
def Step.call? : Step → Option Call
  | call c => some c
  | _ => none

/-- A way through a part of a document: from the context before it to the steps taken and the
context after it. -/
abbrev Walk := Context → List Step × Context

namespace Walk

/-- No step at all. -/
def stay : Walk := fun cx ↦ ([], cx)

/-- One walk after another. -/
def andThen (first second : Walk) : Walk := fun cx ↦
  let r := first cx
  let s := second r.2
  (r.1 ++ s.1, s.2)

/-- Enters some parts of the context. -/
def enter (frames : List Frame) (change : Context → Context) : Walk := fun cx ↦
  (frames.map Step.enter, change cx)

/-- Leaves some parts of the context. -/
def leave (frames : List Frame) (change : Context → Context) : Walk := fun cx ↦
  (frames.map Step.leave, change cx)

/-- Asks the rule of a node, and goes through the parts unless it passes over them. -/
def visit (rules : Rules) (node : Node) (parts : Walk) : Walk := fun cx ↦
  let recorded := rules node cx.position
  let call := Step.call ⟨node, cx.position, recorded⟩
  if recorded.skipChildren then ([call], cx)
  else
    let r := parts cx
    (call :: r.1, r.2)

/-- A walk through each item of a list, in order. -/
def each {α : Type} (f : α → Walk) : List α → Walk
  | [] => stay
  | a :: as => (f a).andThen (each f as)

/-- Enters an input type, walks, and leaves it. -/
def withInput (change : Context → Context) (walk : Walk) : Walk :=
  (enter [.input] change).andThen (walk.andThen (leave [.input] Context.leaveInput))

/-- Enters an output type, walks, and leaves it. -/
def withOutput (change : Context → Context) (walk : Walk) : Walk :=
  (enter [.output] change).andThen (walk.andThen (leave [.output] Context.leaveOutput))

end Walk

section Walking

variable (schema : Schema) (rules : Rules)

open Walk

mutual

/-- Walks through a value. -/
def walkValue : Value → Walk
  | .list items =>
    withInput (Context.enterList schema)
      (visit rules (.value (.list items)) (walkValues items))
  | .object fields => visit rules (.value (.object fields)) (walkFields fields)
  | v => visit rules (.value v) stay

/-- Walks through the items of a list literal. -/
def walkValues : List Value → Walk
  | [] => stay
  | v :: vs => (walkValue v).andThen (walkValues vs)

/-- Walks through the fields of an object literal. -/
def walkFields : List (Name × Value) → Walk
  | [] => stay
  | (n, v) :: fields =>
    (withInput (Context.enterObjectField schema n)
      (visit rules (.objectField n v) (walkValue v))).andThen (walkFields fields)

end

/-- Walks through an argument. -/
def walkArgument (a : Argument) : Walk :=
  withInput (Context.enterArgument schema a.name)
    (visit rules (.argument a) (walkValue schema rules a.value))

/-- Walks through arguments. -/
def walkArguments (arguments : List Argument) : Walk := each (walkArgument schema rules) arguments

/-- Walks through a directive. -/
def walkDirective (d : Directive) : Walk :=
  (enter [.directive] (Context.enterDirective schema d.name)).andThen
    ((visit rules (.directive d) (walkArguments schema rules d.arguments)).andThen
      (leave [.directive] Context.leaveDirective))

/-- Walks through directives. -/
def walkDirectives (directives : List Directive) : Walk :=
  each (walkDirective schema rules) directives

/-- Enters the owner of a selection set, walks, and leaves it; an empty selection set is no place
to enter. -/
def withSelections (selections : List Selection) (walk : Walk) : Walk :=
  if selections.isEmpty then stay
  else (enter [.parentOutput] (Context.enterSelections schema)).andThen
    (walk.andThen (leave [.parentOutput] Context.leaveSelections))

mutual

/-- Walks through an item of a selection set. -/
def walkSelection : Selection → Walk
  | .field responseName n arguments directives selections =>
    (enter [.field, .output] (Context.enterField schema n)).andThen
      ((visit rules (.selection (.field responseName n arguments directives selections))
        ((walkArguments schema rules arguments).andThen
          ((walkDirectives schema rules directives).andThen
            (withSelections schema selections (walkSelections selections))))).andThen
        (leave [.output, .field] Context.leaveField))
  | .spread n directives =>
    visit rules (.selection (.spread n directives)) (walkDirectives schema rules directives)
  | .inline condition directives selections =>
    withOutput (Context.enterFragment schema condition)
      (visit rules (.selection (.inline condition directives selections))
        ((walkDirectives schema rules directives).andThen
          (withSelections schema selections (walkSelections selections))))

/-- Walks through the items of a selection set. -/
def walkSelections : List Selection → Walk
  | [] => stay
  | s :: ss => (walkSelection s).andThen (walkSelections ss)

end

/-- Walks through a selection set. -/
def walkSelectionSet (selections : List Selection) : Walk :=
  withSelections schema selections (walkSelections schema rules selections)

/-- Walks through the declaration of a variable. -/
def walkVariable (v : VariableDefinition) : Walk :=
  withInput (Context.enterVariable schema v.type)
    (visit rules (.variableDefinition v)
      ((visit rules (.value (.var v.name)) stay).andThen
        ((each (walkValue schema rules) v.defaultValue.toList).andThen
          (walkDirectives schema rules v.directives))))

/-- Walks through an operation. -/
def walkOperation (op : Operation) : Walk :=
  withOutput (Context.enterOperation schema op.kind)
    (visit rules (.operation op)
      ((each (walkVariable schema rules) op.declarations).andThen
        ((walkDirectives schema rules op.directives).andThen
          (walkSelectionSet schema rules op.selections))))

/-- Walks through a fragment definition. -/
def walkFragment (f : Fragment) : Walk :=
  withOutput (Context.enterFragment schema (some f.condition))
    (visit rules (.fragmentDefinition f)
      ((walkDirectives schema rules f.directives).andThen
        (walkSelectionSet schema rules f.selections)))

/-- Walks through a definition. -/
def walkDefinition : Definition → Walk
  | .operation op => walkOperation schema rules op
  | .fragment f => walkFragment schema rules f
  | .typeSystem _ => stay

/-- All steps of a walk through a document. -/
def walkSteps (document : Document) : List Step :=
  (each (walkDefinition schema rules) document Context.empty).1

/-- The consultations of a walk through a document, in order. -/
def walkDocument (document : Document) : List Call :=
  (walkSteps schema rules document).filterMap Step.call?

end Walking

/-- The types that consultations recorded, in the order of their first recording. -/
def recordedTypes (calls : List Call) : OrderedSet TypeRef :=
  OrderedSet.ofList (calls.flatMap fun c ↦ c.recorded.types)

/-- Whether some type of a set is written like this. -/
def containsNotation (types : OrderedSet TypeRef) (text : String) : Bool :=
  types.toList.any fun t ↦ t.render == text

end TypeFootprint
