import TypeFootprint.Schema

/-!
# What the types of a schema lead to

A type refers to other types: a type with fields to the types of these fields and of their
arguments, an input object to the types of its fields.  `Schema.Reachable` is what some names lead
to along such references.

Which kinds of type are taken to own fields is left open.  Objects and interfaces declare fields; a
union declares none, but `__typename` may be selected on it like on every composite type.
-/

set_option autoImplicit false

namespace TypeFootprint

/-- Object or interface: what declares fields for selection. -/
def TypeKind.hasFields : TypeKind → Bool
  | object | interface => true
  | scalar | union | enum | inputObject => false

/-- The names of the types that a field refers to: its own, and those of its arguments. -/
def FieldDefinition.typeNames (f : FieldDefinition) : List Name :=
  f.type.core :: f.arguments.map fun v ↦ v.type.core

namespace Schema

variable (schema : Schema) (owners : TypeKind → Bool)

/-- The fields of a type, declared and meta fields, if types of its kind are taken to own any. -/
def ownedFields (n : Name) : List FieldDefinition :=
  match schema.type? n with
  | some t => if owners t.kind then t.body.outputFields ++ schema.metaFields t else []
  | none => []

/-- The names of the types that a type refers to. -/
def references (n : Name) : List Name :=
  (schema.ownedFields owners n).flatMap FieldDefinition.typeNames ++
    (schema.inputFieldTypes n).map TypeRef.core

/-- What some names lead to. -/
inductive Reachable (seeds : List Name) : Name → Prop
  | seed {n : Name} (h : n ∈ seeds) : Reachable seeds n
  | step {m n : Name} (hm : Reachable seeds m) (h : n ∈ schema.references owners m) :
    Reachable seeds n

variable {schema : Schema} {owners : TypeKind → Bool} {m n : Name}

theorem mem_ownedFields_of_field? {f : FieldDefinition} (howner : schema.hasKind owners m = true)
    (h : schema.field? m n = some f) : f ∈ schema.ownedFields owners m := by
  obtain ⟨t, ht, hf⟩ := Option.bind_eq_some_iff.1 h
  obtain ⟨k, hk, hkind⟩ := hasKind_iff.1 howner
  obtain rfl : t.kind = k := by simpa [kind?, ht] using hk
  rw [ownedFields, ht]
  simp only [hkind, if_true]
  exact List.mem_of_find?_eq_some hf

/-- A field that is found on its owner is one of the owner's references, with its arguments. -/
theorem typeNames_subset_references {f : FieldDefinition}
    (howner : schema.hasKind owners m = true) (h : schema.field? m n = some f) :
    f.typeNames ⊆ schema.references owners m := fun _ hn ↦
  List.mem_append_left _ (List.mem_flatMap.2 ⟨f, mem_ownedFields_of_field? howner h, hn⟩)

theorem core_mem_references {t : TypeRef} (h : t ∈ schema.inputFieldTypes m) :
    t.core ∈ schema.references owners m := List.mem_append_right _ (List.mem_map_of_mem h)

/-- Names that the references do not lead out of hold all that is reachable from among them. -/
theorem Reachable.mem_of_closed {seeds names : List Name} (hseeds : seeds ⊆ names)
    (hclosed : ∀ m ∈ names, schema.references owners m ⊆ names)
    (h : schema.Reachable owners seeds n) : n ∈ names := by
  induction h with
  | seed h => exact hseeds h
  | step _ h ih => exact hclosed _ ih h

end Schema
end TypeFootprint
