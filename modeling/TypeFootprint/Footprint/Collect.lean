import TypeFootprint.Fragments
import TypeFootprint.Inference.Walk

/-!
# The types that a document touches

`collectRules` says what each node of a document records:

* a field or an argument, the output type in force and the type that owns it;
* a fragment, a spread or an inline fragment, its condition, and the types around it;
* a declared variable, the type that is declared for it;
* a literal, the input type that it is written against — a list the type of the list, `null` the
  whole type — and an object literal all fields of its input object, not only those it spells out.

A type that the document names is recorded only if the schema defines it.  `collect` is everything
that the rules record in a walk through a document.
-/

set_option autoImplicit false

namespace TypeFootprint

/-- The output type in force and the type that owns it. -/
def outputAndOwner (p : Position) : Recorded := .known [p.output, p.parentOutput]

/-- The core of the input type in force. -/
def inputCore (p : Position) : Option TypeRef := p.input.map fun t ↦ .ofName t.core

/-- What a literal records. -/
def collectValue (schema : Schema) (p : Position) : Value → Recorded
  | .var _ => .none
  | .null => .known [p.input]
  | .list _ => .known [p.parentInput.map TypeRef.nullable]
  | .object _ =>
    match p.input with
    | none => Recorded.none.skipping
    | some t =>
      match schema.inputObject? t.core with
      | none => (Recorded.known [some (.ofName t.core)]).skipping
      | some _ => Recorded.none.and (schema.inputFieldTypes t.core)
  | _ => .known [inputCore p]

/-- What a field of an object literal records. -/
def collectObjectField (schema : Schema) (p : Position) : Recorded :=
  match p.parentInput with
  | none => Recorded.none.and p.input.toList
  | some t =>
    ((Recorded.known [some (.ofName t.core)]).and (schema.inputFieldTypes t.core)).and
      p.input.toList

/-- What an item of a selection set records. -/
def collectSelection (schema : Schema) (fragments : Fragments) (p : Position) :
    Selection → Recorded
  | .field .. => outputAndOwner p
  | .spread n _ => .known [fragments.type? schema n, p.parentOutput]
  | .inline condition _ _ =>
    .known [condition.bind schema.resolveName?, p.parentOutput, p.output]

/-- What each node records. -/
def collectRules (schema : Schema) (fragments : Fragments) : Rules := fun node p ↦
  match node with
  | .operation _ => .none
  | .variableDefinition v => .known [schema.resolve? v.type, p.input]
  | .fragmentDefinition f => .known [schema.resolveName? f.condition]
  | .selection s => collectSelection schema fragments p s
  | .argument _ => outputAndOwner p
  | .directive _ => .none
  | .value v => collectValue schema p v
  | .objectField _ _ => collectObjectField schema p

/-- The types that a document touches, in the order in which they are first recorded. -/
def collect (schema : Schema) (document : Document) : OrderedSet TypeRef :=
  recordedTypes
    (walkDocument schema (collectRules schema (Fragments.ofDocument document)) document)

end TypeFootprint
