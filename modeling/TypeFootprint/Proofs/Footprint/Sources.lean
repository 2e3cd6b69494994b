import TypeFootprint.Proofs.Footprint.Members

/-!
# Where recorded types come from

The rules of a footprint have three sources: the types in force at a node, the types that the node
names, and the fields of an input object that the node is about.  `sourceAt_of_mem_touched` is the
one place where the rules are gone through for this; whatever holds of all three sources holds of
what is recorded.
-/

set_option autoImplicit false

namespace TypeFootprint

/-- The types in force, where there are any. -/
def Position.types (p : Position) : List TypeRef :=
  p.output.toList ++ (p.parentOutput.toList ++ (p.input.toList ++ p.parentInput.toList))

/-- The types that a node names: those of variables, and the conditions of fragments. -/
def Node.namedTypes : Node → List TypeRef
  | .variableDefinition v => [v.type]
  | .fragmentDefinition f => [.ofName f.condition]
  | .selection (.inline condition _ _) => condition.toList.map .ofName
  | _ => []

/-- The declared types of the fields of the input object that is behind a type. -/
def Schema.fieldTypesOf (schema : Schema) (t : Option TypeRef) : List TypeRef :=
  t.toList.flatMap fun t ↦ schema.inputFieldTypes t.core

/-- The types that an object literal, or a field of one, takes over from its input object. -/
def Place.declaredTypes (schema : Schema) (p : Place) : List TypeRef :=
  match p.node with
  | .value (.object _) => schema.fieldTypesOf p.scope.position.input
  | .objectField _ _ => schema.fieldTypesOf p.scope.position.parentInput
  | _ => []

/-- A type that may be recorded at a place, by where it comes from. -/
inductive Place.SourceAt (schema : Schema) (p : Place) (t : TypeRef) : Prop
  /-- The core of a type that is in force. -/
  | inForce {u : TypeRef} (hu : u ∈ p.scope.position.types) (hcore : t.core = u.core)
  /-- A type that the node names and that the schema defines. -/
  | named (hnode : t ∈ p.node.namedTypes) (hdefined : schema.resolve? t = some t)
  /-- The type of a field of an input object, defined or not. -/
  | declared (h : t ∈ p.declaredTypes schema)

variable {schema : Schema} {node : Node} {s : Scope} {p : Place} {t u : TypeRef}

theorem Position.mem_types {p : Position} :
    t ∈ p.types ↔ p.output = some t ∨ p.parentOutput = some t ∨ p.input = some t ∨
      p.parentInput = some t := by
  simp [types, Option.mem_toList]

theorem Schema.mem_fieldTypesOf {o : Option TypeRef} :
    t ∈ schema.fieldTypesOf o ↔ ∃ u, o = some u ∧ t ∈ schema.inputFieldTypes u.core := by
  simp [fieldTypesOf, Option.mem_toList]

theorem mem_types_known {types : List (Option TypeRef)} :
    t ∈ (Recorded.known types).types ↔ some t ∈ types := by
  simp [Recorded.known]

theorem Schema.resolve?_eq_some_iff :
    schema.resolve? t = some u ↔ t = u ∧ schema.resolve? u = some u := by
  rw [resolve?, Option.map_eq_some_iff]
  constructor
  · rintro ⟨k, hk, rfl⟩
    exact ⟨rfl, by rw [resolve?, hk, Option.map_some]⟩
  · rintro ⟨rfl, h⟩
    obtain ⟨k, hk, -⟩ := Option.map_eq_some_iff.1 h
    exact ⟨k, hk, rfl⟩

namespace Place

section

variable {o : Place}

theorem SourceAt.output (h : o.scope.position.output = some u) (hcore : t.core = u.core) :
    SourceAt schema o t := .inForce (Position.mem_types.2 (.inl h)) hcore

theorem SourceAt.parentOutput (h : o.scope.position.parentOutput = some u)
    (hcore : t.core = u.core) : SourceAt schema o t :=
  .inForce (Position.mem_types.2 (.inr (.inl h))) hcore

theorem SourceAt.input (h : o.scope.position.input = some u) (hcore : t.core = u.core) :
    SourceAt schema o t := .inForce (Position.mem_types.2 (.inr (.inr (.inl h)))) hcore

theorem SourceAt.parentInput (h : o.scope.position.parentInput = some u)
    (hcore : t.core = u.core) : SourceAt schema o t :=
  .inForce (Position.mem_types.2 (.inr (.inr (.inr h)))) hcore

end

theorem sourceAt_of_mem_outputAndOwner (ht : t ∈ (outputAndOwner s.position).types) :
    SourceAt schema ⟨node, s⟩ t := by
  rw [outputAndOwner, mem_types_known] at ht
  rcases List.mem_pair.1 ht with ht | ht
  · exact .output ht.symm rfl
  · exact .parentOutput ht.symm rfl

theorem sourceAt_of_mem_selection {x : Selection}
    (ht : t ∈ (collectSelection schema .empty s.position x).types) :
    SourceAt schema ⟨.selection x, s⟩ t := by
  cases x with
  | field responseName n arguments directives selections => exact sourceAt_of_mem_outputAndOwner ht
  | spread n directives =>
    have hempty : Fragments.empty.type? schema n = none := rfl
    rw [collectSelection, hempty, mem_types_known] at ht
    exact .parentOutput (by simpa [eq_comm] using ht) rfl
  | inline condition directives selections =>
    rw [collectSelection, mem_types_known] at ht
    simp only [List.mem_cons, List.not_mem_nil, or_false] at ht
    rcases ht with ht | ht | ht
    · obtain ⟨n, rfl, hn⟩ := Option.bind_eq_some_iff.1 ht.symm
      obtain ⟨rfl, hdefined⟩ := Schema.resolve?_eq_some_iff.1 hn
      exact .named (by simp [Node.namedTypes]) hdefined
    · exact .parentOutput ht.symm rfl
    · exact .output ht.symm rfl

/-- A literal records the core of the type that it is written against, or else the fields of its
input object. -/
theorem sourceAt_of_mem_value {v : Value} (ht : t ∈ (collectValue schema s.position v).types) :
    SourceAt schema ⟨.value v, s⟩ t := by
  have hinputCore (ht : t ∈ (Recorded.known [inputCore s.position]).types) :
      SourceAt schema ⟨.value v, s⟩ t := by
    rw [mem_types_known, List.mem_singleton, eq_comm, inputCore, Option.map_eq_some_iff] at ht
    obtain ⟨u, hu, rfl⟩ := ht
    exact .input hu rfl
  cases v with
  | var n => cases ht
  | null =>
    rw [collectValue, mem_types_known, List.mem_singleton] at ht
    exact .input ht.symm rfl
  | list items =>
    rw [collectValue, mem_types_known, List.mem_singleton, eq_comm, Option.map_eq_some_iff] at ht
    obtain ⟨u, hu, rfl⟩ := ht
    exact .parentInput hu u.core_nullable
  | object fields =>
    cases hinput : s.position.input with
    | none => simp [collectValue, hinput, Recorded.none, Recorded.skipping] at ht
    | some u =>
      cases hobject : schema.inputObject? u.core with
      | none =>
        simp only [collectValue, hinput, hobject] at ht
        obtain rfl : t = .ofName u.core := by simpa [Recorded.known, Recorded.skipping] using ht
        exact .input hinput rfl
      | some declared =>
        refine .declared (Schema.mem_fieldTypesOf.2 ⟨u, hinput, ?_⟩)
        simpa [collectValue, hinput, hobject, Recorded.none, Recorded.and] using ht
  | _ => exact hinputCore ht

theorem sourceAt_of_mem_objectField {n : Name} {v : Value}
    (ht : t ∈ (collectObjectField schema s.position).types) :
    SourceAt schema ⟨.objectField n v, s⟩ t := by
  cases hparent : s.position.parentInput with
  | none =>
    simp only [collectObjectField, hparent, Recorded.none, Recorded.and, List.nil_append] at ht
    exact .input (Option.mem_toList.1 ht) rfl
  | some u =>
    simp only [collectObjectField, hparent, Recorded.known, Recorded.and, List.mem_append] at ht
    rcases ht with (ht | ht) | ht
    · obtain rfl : t = .ofName u.core := by simpa using ht
      exact .parentInput hparent rfl
    · exact .declared (Schema.mem_fieldTypesOf.2 ⟨u, hparent, ht⟩)
    · exact .input (Option.mem_toList.1 ht) rfl

/-- **Everything that a place touches comes from one of its sources.** -/
theorem sourceAt_of_mem_touched (ht : t ∈ p.touched schema) : SourceAt schema p t := by
  obtain ⟨node, s⟩ := p
  cases node with
  | operation op => cases ht
  | variableDefinition v =>
    rw [touched, call, collectRules, mem_types_known] at ht
    rcases List.mem_pair.1 ht with ht | ht
    · obtain ⟨rfl, hdefined⟩ := Schema.resolve?_eq_some_iff.1 ht.symm
      exact .named (List.mem_singleton_self _) hdefined
    · exact .input ht.symm rfl
  | fragmentDefinition f =>
    rw [touched, call, collectRules, mem_types_known, List.mem_singleton] at ht
    obtain ⟨rfl, hdefined⟩ := Schema.resolve?_eq_some_iff.1 ht.symm
    exact .named (List.mem_singleton_self _) hdefined
  | selection x => exact sourceAt_of_mem_selection ht
  | argument a => exact sourceAt_of_mem_outputAndOwner ht
  | directive d => cases ht
  | value v => exact sourceAt_of_mem_value ht
  | objectField n v => exact sourceAt_of_mem_objectField ht

end Place
end TypeFootprint
