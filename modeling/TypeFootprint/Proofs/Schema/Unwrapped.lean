import Mathlib.Data.List.Basic
import TypeFootprint.Footprint.Expand
import TypeFootprint.Inference.Typing

/-!
# Schemas without wrappers

`Schema.unwrapped` takes the brackets and the exclamation marks off all types that a schema
declares, those of fields, of arguments, of input fields and of the arguments of directives.  Two
schemas that are the same unwrapped differ in these wrappers only, and this is how the difference is
stated.

A look-up in the unwrapped schema finds what a look-up in the schema finds, unwrapped.  The meta
fields are the exception: a schema does not declare them, so they keep their marks, and `field?`
agrees only after unwrapping on both sides.
-/

set_option autoImplicit false

namespace TypeFootprint

/-! ## Taking wrappers off -/

/-- The reference without its wrappers. -/
def TypeRef.unwrapped (t : TypeRef) : TypeRef := .ofName t.core

/-- The argument or input field with its type unwrapped. -/
def InputValue.unwrapped (v : InputValue) : InputValue := { v with type := v.type.unwrapped }

/-- The field with its type and those of its arguments unwrapped. -/
def FieldDefinition.unwrapped (f : FieldDefinition) : FieldDefinition :=
  { f with arguments := f.arguments.map InputValue.unwrapped, type := f.type.unwrapped }

/-- The body with the types of its fields unwrapped. -/
def TypeBody.unwrapped : TypeBody → TypeBody
  | scalar => scalar
  | object interfaces fields => object interfaces (fields.map FieldDefinition.unwrapped)
  | interface interfaces fields => interface interfaces (fields.map FieldDefinition.unwrapped)
  | union members => union members
  | enum values => enum values
  | inputObject fields => inputObject (fields.map InputValue.unwrapped)

/-- The type with the types of its fields unwrapped. -/
def TypeDefinition.unwrapped (t : TypeDefinition) : TypeDefinition :=
  { t with body := t.body.unwrapped }

/-- The directive with the types of its arguments unwrapped. -/
def DirectiveDefinition.unwrapped (d : DirectiveDefinition) : DirectiveDefinition :=
  { d with arguments := d.arguments.map InputValue.unwrapped }

/-- The schema with all declared types unwrapped. -/
def Schema.unwrapped (schema : Schema) : Schema where
  types := schema.types.map TypeDefinition.unwrapped
  directives := schema.directives.map DirectiveDefinition.unwrapped
  roots := schema.roots
  types_nodup := by
    rw [List.map_map]
    exact schema.types_nodup

@[simp] theorem TypeRef.core_unwrapped (t : TypeRef) : t.unwrapped.core = t.core := rfl

@[simp] theorem TypeBody.kind_unwrapped (b : TypeBody) : b.unwrapped.kind = b.kind := by
  cases b <;> rfl

@[simp] theorem TypeBody.outputFields_unwrapped (b : TypeBody) :
    b.unwrapped.outputFields = b.outputFields.map FieldDefinition.unwrapped := by
  cases b <;> rfl

@[simp] theorem TypeDefinition.kind_unwrapped (t : TypeDefinition) : t.unwrapped.kind = t.kind :=
  t.body.kind_unwrapped

theorem InputValue.unwrapped_unwrapped (v : InputValue) : v.unwrapped.unwrapped = v.unwrapped := rfl

theorem FieldDefinition.unwrapped_unwrapped (f : FieldDefinition) :
    f.unwrapped.unwrapped = f.unwrapped := by
  have harguments : f.unwrapped.arguments.map InputValue.unwrapped = f.unwrapped.arguments := by
    rw [unwrapped, List.map_map]
    exact List.map_congr_left fun v _ ↦ v.unwrapped_unwrapped
  rw [unwrapped, harguments]
  rfl

/-! ## Look-ups -/

variable {schema schema' : Schema} {n : Name}

namespace Schema

theorem type?_unwrapped : schema.unwrapped.type? n = (schema.type? n).map .unwrapped := by
  rw [type?, unwrapped, List.find?_map]
  rfl

theorem kind?_unwrapped : schema.unwrapped.kind? n = schema.kind? n := by
  rw [kind?, type?_unwrapped, Option.map_map, kind?]
  exact congrArg (Option.map · (schema.type? n)) (funext TypeDefinition.kind_unwrapped)

theorem directive?_unwrapped :
    schema.unwrapped.directive? n = (schema.directive? n).map .unwrapped := by
  rw [directive?, unwrapped, List.find?_map]
  rfl

theorem inputObject?_unwrapped :
    schema.unwrapped.inputObject? n
      = (schema.inputObject? n).map (List.map InputValue.unwrapped) := by
  rw [inputObject?, type?_unwrapped, inputObject?]
  cases schema.type? n with
  | none => rfl
  | some t =>
    simp only [Option.map_some, TypeDefinition.unwrapped]
    cases t.body <;> rfl

/-- A declared field is found unwrapped, a meta field as it always is. -/
theorem field?_unwrapped (field : Name) :
    (schema.unwrapped.field? n field).map FieldDefinition.unwrapped
      = (schema.field? n field).map .unwrapped := by
  have htwice : FieldDefinition.unwrapped ∘ FieldDefinition.unwrapped = .unwrapped :=
    funext FieldDefinition.unwrapped_unwrapped
  rw [field?, type?_unwrapped, field?]
  cases schema.type? n with
  | none => rfl
  | some t =>
    have hmeta : schema.unwrapped.metaFields t.unwrapped = schema.metaFields t := by
      rw [metaFields, TypeDefinition.kind_unwrapped]
      rfl
    have hfields : t.unwrapped.body.outputFields
        = t.body.outputFields.map FieldDefinition.unwrapped := t.body.outputFields_unwrapped
    simp only [Option.map_some, Option.bind_eq_bind, Option.bind_some]
    rw [hmeta, hfields, List.find?_append, List.find?_append, List.find?_map, Option.map_or,
      Option.map_or, Option.map_map, htwice]
    rfl

end Schema

theorem possibleTypes_unwrapped : possibleTypes schema.unwrapped n = possibleTypes schema n := by
  have hobject (t : TypeDefinition) : t.unwrapped.isObjectWith n = t.isObjectWith n := by
    rw [TypeDefinition.isObjectWith, TypeDefinition.unwrapped, TypeDefinition.isObjectWith]
    cases t.body <;> rfl
  have hobjects : (schema.unwrapped.types.filter fun t ↦ t.isObjectWith n).map TypeDefinition.name
      = (schema.types.filter fun t ↦ t.isObjectWith n).map TypeDefinition.name := by
    rw [Schema.unwrapped, List.filter_map, List.map_map]
    exact congrArg (List.map _) (List.filter_congr fun t _ ↦ hobject t)
  rw [possibleTypes, Schema.type?_unwrapped, hobjects, possibleTypes]
  cases schema.type? n with
  | none => rfl
  | some t =>
    simp only [Option.map_some, TypeDefinition.unwrapped]
    cases t.body <;> rfl

/-! ## Schemas that differ in wrappers only -/

section

variable (h : schema.unwrapped = schema'.unwrapped)
include h

theorem Schema.hasKind_congr (p : TypeKind → Bool) : schema.hasKind p = schema'.hasKind p := by
  funext n
  rw [hasKind, ← kind?_unwrapped, h, kind?_unwrapped, hasKind]

theorem Schema.field?_congr (n field : Name) :
    (schema.field? n field).map FieldDefinition.unwrapped
      = (schema'.field? n field).map .unwrapped := by
  rw [← field?_unwrapped, h, field?_unwrapped]

theorem Schema.directive?_congr (n : Name) :
    (schema.directive? n).map DirectiveDefinition.unwrapped
      = (schema'.directive? n).map .unwrapped := by
  rw [← directive?_unwrapped, h, directive?_unwrapped]

theorem Schema.inputObject?_congr (n : Name) :
    (schema.inputObject? n).map (List.map InputValue.unwrapped)
      = (schema'.inputObject? n).map (List.map InputValue.unwrapped) := by
  rw [← inputObject?_unwrapped, h, inputObject?_unwrapped]

theorem Schema.roots_congr : schema.roots = schema'.roots := by
  have hroots := congrArg roots h
  exact hroots

theorem possibleTypes_congr : possibleTypes schema = possibleTypes schema' := by
  funext n
  rw [← possibleTypes_unwrapped, h, possibleTypes_unwrapped]

/-- A reference without wrappers is kept by both or by neither. -/
theorem Schema.keepKind_ofName_congr (p : TypeKind → Bool) (n : Name) :
    schema.keepKind p (.ofName n) = schema'.keepKind p (.ofName n) := by
  rw [keepKind, hasKind_congr h, keepKind]

end

end TypeFootprint
