import TypeFootprint.Grammar.Document
import TypeFootprint.Schema.BuiltIn

/-!
# From definitions to a schema

`Schema.ofDocument?` puts the definitions of a text together and adds what every schema has.
Nothing is validated beyond what the schema needs to be one:

* types, directives, and the items of a type have distinct names;
* an extension has a type to extend, and extends a type of its own kind — unless it stands before
  the definition, where an extension of another kind is passed over;
* each kind of operation has one root.

Without a schema definition the object types `Query`, `Mutation` and `Subscription` are the roots.
-/

set_option autoImplicit false

namespace TypeFootprint

namespace TypeBody

/-- Whether the items of a body have distinct names. -/
def isDistinct : TypeBody → Bool
  | scalar => true
  | object is fs => decide is.Nodup && decide (fs.map FieldDefinition.name).Nodup
  | interface is fs => decide is.Nodup && decide (fs.map FieldDefinition.name).Nodup
  | union ms => decide ms.Nodup
  | enum vs => decide (vs.map EnumValue.name).Nodup
  | inputObject fs => decide (fs.map InputValue.name).Nodup

/-- The items of one body followed by those of another, if both are of one kind. -/
def append? : TypeBody → TypeBody → Option TypeBody
  | scalar, scalar => some scalar
  | object is fs, object is' fs' => some (object (is ++ is') (fs ++ fs'))
  | interface is fs, interface is' fs' => some (interface (is ++ is') (fs ++ fs'))
  | union ms, union ms' => some (union (ms ++ ms'))
  | enum vs, enum vs' => some (enum (vs ++ vs'))
  | inputObject fs, inputObject fs' => some (inputObject (fs ++ fs'))
  | _, _ => none

end TypeBody

/-- Adds an extension to the type it extends; fails if they are of different kinds or share an
item. -/
def TypeDefinition.extend? (t : TypeDefinition) (e : TypeExtension) : Option TypeDefinition := do
  let body ← t.body.append? e.body
  if body.isDistinct then some { t with directives := t.directives ++ e.directives, body := body }
  else none

/-- Types under construction, with the extensions that stand before their type. -/
structure TypeDraft where
  types : List TypeDefinition
  waiting : List TypeExtension

namespace TypeDraft

/-- What every schema starts with. -/
def initial : TypeDraft := ⟨BuiltIn.types, []⟩

/-- Adds the extensions of the type's own kind to it, one after the other. -/
def extendAll (t : TypeDefinition) (es : List TypeExtension) : Option TypeDefinition :=
  (es.filter fun e ↦ e.body.kind = t.kind).foldlM TypeDefinition.extend? t

/-- Takes in the definition of a type, and with it the extensions that wait for it. -/
def define (d : TypeDraft) (t : TypeDefinition) : Option TypeDraft :=
  if t.body.isDistinct then do
    let t' ← extendAll t (d.waiting.filter fun e ↦ e.name = t.name)
    some ⟨d.types ++ [t'], d.waiting.filter fun e ↦ e.name ≠ t.name⟩
  else none

/-- Extends the first type of the extension's name. -/
def extendFirst (e : TypeExtension) : List TypeDefinition → Option (List TypeDefinition)
  | [] => none
  | t :: ts =>
    if t.name = e.name then do
      let t' ← t.extend? e
      some (t' :: ts)
    else do
      let ts' ← extendFirst e ts
      some (t :: ts')

/-- Takes in an extension; it waits if its type is not there yet. -/
def extend (d : TypeDraft) (e : TypeExtension) : Option TypeDraft :=
  if d.types.any fun t ↦ t.name = e.name then do
    let types ← extendFirst e d.types
    some { d with types := types }
  else some { d with waiting := d.waiting ++ [e] }

/-- Takes in a definition of whatever sort; only types and their extensions matter here. -/
def add (d : TypeDraft) : TypeSystemDefinition → Option TypeDraft
  | .type t => d.define t
  | .extendType e => d.extend e
  | _ => some d

end TypeDraft

namespace Schema

/-- All types of a schema with these definitions; no extension may be left without a type. -/
def typesOf? (definitions : List TypeSystemDefinition) : Option (List TypeDefinition) := do
  let d ← definitions.foldlM TypeDraft.add .initial
  if d.waiting.isEmpty then some d.types else none

/-- The directives that are defined here. -/
def declaredDirectives (definitions : List TypeSystemDefinition) : List DirectiveDefinition :=
  definitions.filterMap fun
    | .directive d => some d
    | _ => none

/-- All directives of a schema with these definitions.  A definition of a built-in directive takes
its place. -/
def directivesOf? (definitions : List TypeSystemDefinition) : Option (List DirectiveDefinition) :=
  let declared := declaredDirectives definitions
  if (declared.map DirectiveDefinition.name).Nodup then
    some (declared ++
      BuiltIn.directives.filter fun d ↦ !(declared.map DirectiveDefinition.name).contains d.name)
  else none

/-- The root operations of each schema definition. -/
def schemaRoots (definitions : List TypeSystemDefinition) : List (List RootOperation) :=
  definitions.filterMap fun
    | .schema _ _ roots => some roots
    | _ => none

/-- The root operations of each schema extension. -/
def extensionRoots (definitions : List TypeSystemDefinition) : List (List RootOperation) :=
  definitions.filterMap fun
    | .extendSchema _ roots => some roots
    | _ => none

/-- The name, if it is the name of an object type. -/
def objectNamed? (types : List TypeDefinition) (n : Name) : Option Name :=
  if types.any fun t ↦ t.name = n && t.kind = .object then some n else none

/-- The roots of a schema without a schema definition. -/
def implicitRoots (types : List TypeDefinition) : RootTypes where
  query := objectNamed? types ⟨"Query", by decide⟩
  mutation := objectNamed? types ⟨"Mutation", by decide⟩
  subscription := objectNamed? types ⟨"Subscription", by decide⟩

/-- Sets a root that is not set yet. -/
def addRoot (roots : RootTypes) (op : RootOperation) : Option RootTypes :=
  match roots.get? op.kind with
  | none => some (roots.set op.kind op.type)
  | some _ => none

/-- The roots of a schema with these definitions and types. -/
def rootsOf? (definitions : List TypeSystemDefinition) (types : List TypeDefinition) :
    Option RootTypes :=
  let added := extensionRoots definitions
  match schemaRoots definitions with
  | [] =>
    let roots := implicitRoots types
    if !added.isEmpty && roots = .empty then none else added.flatten.foldlM addRoot roots
  | [declared] => (declared ++ added.flatten).foldlM addRoot .empty
  | _ => none

/-- The schema with these definitions. -/
def ofDefinitions? (definitions : List TypeSystemDefinition) : Option Schema := do
  let types ← typesOf? definitions
  let directives ← directivesOf? definitions
  let roots ← rootsOf? definitions types
  if h : (types.map TypeDefinition.name).Nodup then some ⟨types, directives, roots, h⟩ else none

/-- The definitions of a document, if all of them belong to the type system. -/
def definitionsOf? (document : Document) : Option (List TypeSystemDefinition) :=
  document.mapM fun
    | .typeSystem d => some d
    | _ => none

/-- The schema that a document defines. -/
def ofDocument? (document : Document) : Option Schema := do
  let definitions ← definitionsOf? document
  ofDefinitions? definitions

/-- The schema that a text defines. -/
def parse? (text : String) : Option Schema := do
  let document ← Document.parse? text
  ofDocument? document

end Schema
end TypeFootprint
