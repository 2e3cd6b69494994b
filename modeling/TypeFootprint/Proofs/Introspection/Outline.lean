import TypeFootprint.Proofs.Introspection.References
import TypeFootprint.Proofs.Introspection.RoundTrip

/-!
# What a schema is called and what is said about it

An `Outline` holds the names and the descriptions of a schema: those of its types and directives, of
the items of each type — fields, enum values, input fields —, and of arguments.  Of types it holds
the kinds, too, and nothing else.
An introspected schema has one, and a schema has one.  `Outline.written` is what becomes of the one
on the way to the other: descriptions are shown as strings, and those of arguments are left out.

`Result.Lexical` says of the texts that are copied as they are that they are what they stand for:
names are names, and default values are constants.  It is part of `Result.WellFormed` and says
nothing about depths, repetitions, complete references, or what descriptions may hold.
-/

set_option autoImplicit false

namespace TypeFootprint

/-! ## Outlines -/

/-- The name of something and its description. -/
structure Label where
  name : String
  description : Option String
deriving DecidableEq

/-- Something that may have arguments: an item of a type, or a directive. -/
structure ItemOutline where
  label : Label
  arguments : List Label
deriving DecidableEq

/-- A type and its items. -/
structure TypeOutline where
  kind : TypeKind
  label : Label
  items : List ItemOutline
deriving DecidableEq

/-- The types and the directives of a schema. -/
structure Outline where
  types : List TypeOutline
  directives : List ItemOutline

/-- The outline of an argument. -/
def InputValue.label (w : InputValue) : Label := ⟨w.name.text, w.description⟩

/-- The outline of a field of an input object. -/
def InputValue.outline (w : InputValue) : ItemOutline := ⟨w.label, []⟩

/-- The outline of a field. -/
def FieldDefinition.outline (w : FieldDefinition) : ItemOutline :=
  ⟨⟨w.name.text, w.description⟩, w.arguments.map InputValue.label⟩

/-- The outline of a value of an enum type. -/
def EnumValue.outline (w : EnumValue) : ItemOutline := ⟨⟨w.name.text, w.description⟩, []⟩

/-- The outlines of what may be described in a type. -/
def TypeBody.items : TypeBody → List ItemOutline
  | scalar => []
  | object _ fields => fields.map FieldDefinition.outline
  | interface _ fields => fields.map FieldDefinition.outline
  | union _ => []
  | enum values => values.map EnumValue.outline
  | inputObject fields => fields.map InputValue.outline

/-- The outline of a type. -/
def TypeDefinition.outline (w : TypeDefinition) : TypeOutline :=
  ⟨w.kind, ⟨w.name.text, w.description⟩, w.body.items⟩

/-- The outline of a directive. -/
def DirectiveDefinition.outline (w : DirectiveDefinition) : ItemOutline :=
  ⟨⟨w.name.text, w.description⟩, w.arguments.map InputValue.label⟩

/-- The outline of a schema. -/
def Schema.outline (schema : Schema) : Outline :=
  ⟨schema.types.map TypeDefinition.outline, schema.directives.map DirectiveDefinition.outline⟩

namespace Introspection

/-- The outline of an argument. -/
def InputEntry.label (v : InputEntry) : Label := ⟨v.name, v.description⟩

/-- The outline of a field of an input object. -/
def InputEntry.outline (v : InputEntry) : ItemOutline := ⟨v.label, []⟩

/-- The outline of a field. -/
def FieldEntry.outline (f : FieldEntry) : ItemOutline :=
  ⟨⟨f.name, f.description⟩, f.arguments.map InputEntry.label⟩

/-- The outline of a value of an enum type. -/
def EnumEntry.outline (v : EnumEntry) : ItemOutline := ⟨⟨v.name, v.description⟩, []⟩

/-- The outlines of what may be described in a type. -/
def EntryBody.items : EntryBody → List ItemOutline
  | scalar => []
  | object fields _ => fields.map FieldEntry.outline
  | interface fields _ => fields.map FieldEntry.outline
  | union _ => []
  | enum values => values.map EnumEntry.outline
  | inputObject fields => fields.map InputEntry.outline

/-- The outline of a type. -/
def TypeEntry.outline (t : TypeEntry) : TypeOutline :=
  ⟨t.body.kind, ⟨t.name, t.description⟩, t.body.items⟩

/-- The outline of a directive. -/
def DirectiveEntry.outline (d : DirectiveEntry) : ItemOutline :=
  ⟨⟨d.name, d.description⟩, d.arguments.map InputEntry.label⟩

/-- The outline of the types and directives that have to be defined. -/
def Result.outline (r : Result) : Outline :=
  ⟨r.ownTypes.map TypeEntry.outline, r.ownDirectives.map DirectiveEntry.outline⟩

end Introspection

/-! ## What is written of an outline -/

open Introspection

/-- A name, without its description. -/
def Label.bare (l : Label) : Label := ⟨l.name, none⟩

/-- A name with its description as it is written at some indentation. -/
def Label.written (indent : List Char) (l : Label) : Label :=
  ⟨l.name, shownDescription indent l.description⟩

/-- An item as it is written: the descriptions of arguments are not. -/
def ItemOutline.written (indent : List Char) (x : ItemOutline) : ItemOutline :=
  ⟨x.label.written indent, x.arguments.map Label.bare⟩

/-- A type as it is written. -/
def TypeOutline.written (o : TypeOutline) : TypeOutline :=
  ⟨o.kind, o.label.written [], o.items.map (ItemOutline.written itemIndent)⟩

/-- A schema as it is written. -/
def Outline.written (o : Outline) : Outline :=
  ⟨o.types.map TypeOutline.written, o.directives.map (ItemOutline.written [])⟩

namespace Introspection

theorem types_written_outline (r : Result) :
    r.outline.written.types = r.ownTypes.map fun t ↦ t.outline.written := List.map_map

theorem directives_written_outline (r : Result) :
    r.outline.written.directives = r.ownDirectives.map fun d ↦ d.outline.written [] := List.map_map

/-! ## Texts that are copied -/

/-- An argument or an input field whose name is a name, whose type is written with a name or without
one, and whose default value is a constant, nested however deep. -/
structure InputEntry.Lexical (v : InputEntry) : Prop where
  name : isName v.name.toList = true
  type : v.type.shownName?.all (fun text ↦ isName text.toList) = true
  defaultValue : ∀ text ∈ v.defaultValue, ∃ depth, (Parser.constant? depth text).isSome = true

/-- A field. -/
structure FieldEntry.Lexical (f : FieldEntry) : Prop where
  name : isName f.name.toList = true
  arguments : ∀ v ∈ f.arguments, v.Lexical
  type : f.type.shownName?.all (fun text ↦ isName text.toList) = true

/-- The items of a type. -/
def EntryBody.Lexical : EntryBody → Prop
  | scalar => True
  | object fields interfaces =>
    (∀ f ∈ fields, f.Lexical) ∧ ∀ text ∈ interfaces, isName text.toList = true
  | interface fields interfaces =>
    (∀ f ∈ fields, f.Lexical) ∧ ∀ text ∈ interfaces, isName text.toList = true
  | union possibleTypes => ∀ text ∈ possibleTypes, isName text.toList = true
  | enum values => ∀ v ∈ values, isName v.name.toList = true
  | inputObject fields => ∀ v ∈ fields, v.Lexical

/-- A type. -/
structure TypeEntry.Lexical (t : TypeEntry) : Prop where
  name : isName t.name.toList = true
  body : t.body.Lexical

/-- A directive. -/
structure DirectiveEntry.Lexical (d : DirectiveEntry) : Prop where
  name : isName d.name.toList = true
  arguments : ∀ v ∈ d.arguments, v.Lexical
  locations : ∀ text ∈ d.locations, isName text.toList = true

/-- An answer whose names are names and whose default values are constants. -/
structure Result.Lexical (r : Result) : Prop where
  roots : ∀ root ∈ r.givenRoots, isName root.2.toList = true
  types : ∀ t ∈ r.ownTypes, t.Lexical
  directives : ∀ d ∈ r.ownDirectives, d.Lexical

/-! ## Well-formed answers -/

section WellFormed

variable {depth : Nat}

theorem InputEntry.WellFormed.lexical {v : InputEntry} (h : v.WellFormed depth) : v.Lexical where
  name := h.name
  type := Reference.isName_shownName_of_isComplete h.type
  defaultValue text htext := by
    have hvalue := h.defaultValue
    rw [Option.mem_def.1 htext] at hvalue
    exact ⟨depth, hvalue⟩

theorem FieldEntry.WellFormed.lexical {f : FieldEntry} (h : f.WellFormed depth) : f.Lexical where
  name := h.name
  arguments v hv := (h.arguments v hv).lexical
  type := Reference.isName_shownName_of_isComplete h.type

theorem EntryBody.WellFormed.lexical {b : EntryBody} (h : b.WellFormed depth) : b.Lexical := by
  cases b with
  | scalar => trivial
  | object fields interfaces => exact ⟨fun f hf ↦ (h.1 f hf).lexical, h.2.2.1⟩
  | interface fields interfaces => exact ⟨fun f hf ↦ (h.1 f hf).lexical, h.2.2.1⟩
  | union possibleTypes => exact h.1
  | enum values => exact fun v hv ↦ (h.1 v hv).name
  | inputObject fields => exact fun v hv ↦ (h.1 v hv).lexical

theorem isName_of_ofKeyword? {text : String}
    (h : (DirectiveLocation.ofKeyword? text).isSome = true) : isName text.toList = true := by
  obtain ⟨l, hl⟩ := Option.isSome_iff_exists.1 h
  obtain rfl : l.keyword = text := by simpa using List.find?_some hl
  exact (locationName l).valid

theorem DirectiveEntry.WellFormed.lexical {d : DirectiveEntry} (h : d.WellFormed depth) :
    d.Lexical where
  name := h.name
  arguments v hv := (h.arguments v hv).lexical
  locations text htext := isName_of_ofKeyword? (h.locations text htext)

/-- The texts that a well-formed answer copies are what they stand for. -/
theorem Result.WellFormed.lexical {r : Result} (h : r.WellFormed depth) : r.Lexical where
  roots := isName_of_mem_givenRoots h
  types t ht := ⟨(h.types t ht).name, EntryBody.WellFormed.lexical (h.types t ht).body⟩
  directives d hd := (h.directives d hd).lexical

end WellFormed

end Introspection
end TypeFootprint
