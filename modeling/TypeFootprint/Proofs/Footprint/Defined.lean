import TypeFootprint.Proofs.Footprint.Sources
import TypeFootprint.Proofs.Inference.Kinds
import TypeFootprint.Schema.Build

/-!
# Which types of a footprint are defined

A schema may refer to types that it does not define, and a footprint should not name them.  What
comes into force in a walk is of a kind that may stand there, so it is defined.  What the rules take from
the document they look up themselves.

Of the sources of recorded types (`Place.SourceAt`) one is left, which is recorded as the schema
writes it, without a look-up: an object literal, and each of its fields, records the declared types
of all fields of the input object.  `Place.declaredTypes` are these types.

* `Visited.defined` — the types in force are defined at every place of a walk;
* `defines_or_mem_declaredTypes` — what a place records is defined or one of its declared types;
* `collect_defined_iff` — the exact condition under which a footprint is defined.
-/

set_option autoImplicit false

namespace TypeFootprint

/-- Whether the schema defines a type of this name. -/
def Schema.defines (schema : Schema) (n : Name) : Bool := (schema.type? n).isSome

/-- The type, if there is one, is defined. -/
def Schema.Known (schema : Schema) (t : Option TypeRef) : Prop :=
  ∀ u, t = some u → schema.defines u.core = true

/-- All four types in force are defined, where there are any. -/
structure Position.Defined (schema : Schema) (p : Position) : Prop where
  output : schema.Known p.output
  parentOutput : schema.Known p.parentOutput
  input : schema.Known p.input
  parentInput : schema.Known p.parentInput

variable {schema : Schema} {rules : Rules} {fragments : Fragments} {document : Document}
  {p : Place} {t : TypeRef}

/-! ## Look-ups -/

namespace Schema

theorem defines_of_hasKind {kind : TypeKind → Bool} {n : Name} (h : schema.hasKind kind n = true) :
    schema.defines n = true := by
  obtain ⟨k, hk, -⟩ := hasKind_iff.1 h
  obtain ⟨definition, hdefinition, -⟩ := Option.map_eq_some_iff.1 hk
  rw [defines, hdefinition, Option.isSome_some]

theorem known_keepKind (kind : TypeKind → Bool) (t : TypeRef) :
    schema.Known (schema.keepKind kind t) := by
  intro u hu
  obtain ⟨hkind, rfl⟩ := keepKind_eq_some_iff.1 hu
  exact defines_of_hasKind hkind

theorem known_resolve? (t : TypeRef) : schema.Known (schema.resolve? t) := by
  rw [resolve?_eq_keepKind]
  exact known_keepKind _ t

end Schema

theorem Fragments.known_type? (n : Name) : schema.Known (fragments.type? schema n) := by
  intro t ht
  obtain ⟨f, -, hcondition⟩ := exists_of_type? ht
  exact Schema.known_resolve? _ t hcondition

/-! ## The types in force -/

/-- What is of a kind that may stand at a node is defined. -/
theorem Position.WellKinded.defined {position : Position} (h : position.WellKinded schema) :
    position.Defined schema where
  output t ht := Schema.defines_of_hasKind (h.output t ht)
  parentOutput t ht := by
    obtain ⟨n, rfl, hn⟩ := h.parentOutput t ht
    exact Schema.defines_of_hasKind hn
  input t ht := Schema.defines_of_hasKind (h.input t ht)
  parentInput t ht := Schema.defines_of_hasKind (h.parentInput t ht)

theorem Position.Defined.defines_of_mem_types {position : Position}
    (h : position.Defined schema) (ht : t ∈ position.types) : schema.defines t.core = true := by
  rcases mem_types.1 ht with ht | ht | ht | ht
  · exact h.output t ht
  · exact h.parentOutput t ht
  · exact h.input t ht
  · exact h.parentInput t ht

/-- **All types that come into force in a walk are defined.** -/
theorem Visited.defined (h : Visited schema rules document p) :
    p.scope.position.Defined schema := h.wellKinded.defined

/-! ## The types that are recorded -/

/-- **What a place records is defined, or it is taken over from an input object.** -/
theorem defines_or_mem_declaredTypes (h : p.scope.position.Defined schema)
    (ht : t ∈ (p.call (collectRules schema fragments)).recorded.types) :
    schema.defines t.core = true ∨ t ∈ p.declaredTypes schema := by
  rcases mem_recorded_iff.1 ht with ht | ⟨n, ds, -, hn⟩
  · cases Place.sourceAt_of_mem_touched ht with
    | inForce hu hcore =>
      rw [hcore]
      exact .inl (h.defines_of_mem_types hu)
    | named _ hdefined => exact .inl (Schema.known_resolve? _ t hdefined)
    | declared hdeclared => exact .inr hdeclared
  · exact .inl (Fragments.known_type? n t hn)

/-! ## Object literals -/

/-- A walk comes by an object literal that is written against a type with this core. -/
def LiteralOf (schema : Schema) (document : Document) (n : Name) : Prop :=
  ∃ c ∈ walkDocument schema (collectRules schema (.ofDocument document)) document,
    ∃ fields t, c.node = .value (.object fields) ∧ c.position.input = some t ∧ t.core = n

theorem Visited.literalOf {fields : List (Name × Value)}
    (h : Visited schema (collectRules schema (.ofDocument document)) document p)
    (hnode : p.node = .value (.object fields)) (ht : p.scope.position.input = some t) :
    LiteralOf schema document t.core :=
  ⟨_, mem_walkDocument.2 ⟨p, h, rfl⟩, fields, t, hnode, ht, rfl⟩

/-- The input object that a field of an object literal takes types from is the one that the literal
is written against. -/
theorem Visited.exists_literalOf
    (h : Visited schema (collectRules schema (.ofDocument document)) document p)
    (ht : t ∈ p.declaredTypes schema) :
    ∃ n, LiteralOf schema document n ∧ t ∈ schema.inputFieldTypes n := by
  obtain ⟨node, s⟩ := p
  rw [Place.declaredTypes] at ht
  split at ht
  · rename_i fields hnode
    obtain ⟨u, hu, ht⟩ := Schema.mem_fieldTypesOf.1 ht
    exact ⟨u.core, h.literalOf hnode hu, ht⟩
  · rename_i n v hnode
    obtain ⟨u, hu, ht⟩ := Schema.mem_fieldTypesOf.1 ht
    obtain ⟨fields, s, hp, -, hinput⟩ := h.exists_object_of_objectField hnode
    exact ⟨u.core, hp.literalOf rfl (hinput.symm.trans hu), ht⟩
  · cases ht

theorem mem_collect_of_literalOf {n : Name} (h : LiteralOf schema document n)
    (ht : t ∈ schema.inputFieldTypes n) : t ∈ collect schema document := by
  obtain ⟨c, hc, fields, u, hnode, hinput, rfl⟩ := h
  obtain ⟨p, hp, rfl⟩ := mem_walkDocument.1 hc
  refine mem_collect.2 ⟨p, hp, ?_⟩
  obtain ⟨node, s⟩ := p
  obtain rfl : node = .value (.object fields) := hnode
  have hs : s.position.input = some u := hinput
  cases hobject : schema.inputObject? u.core with
  | none => simp [Schema.inputFieldTypes, hobject] at ht
  | some declared =>
    simpa [Place.call, collectRules, collectValue, hs, hobject, Recorded.none, Recorded.and]
      using ht

/-- The types that a footprint has without being defined are those that the fields of an input
object are declared with, where a literal is written against it. -/
theorem mem_collect_of_not_defines (h : schema.defines t.core = false) :
    t ∈ collect schema document ↔
      ∃ n, LiteralOf schema document n ∧ t ∈ schema.inputFieldTypes n := by
  constructor
  · intro ht
    obtain ⟨p, hp, ht⟩ := mem_collect.1 ht
    rcases defines_or_mem_declaredTypes hp.defined ht with hdefined | hdeclared
    · rw [h] at hdefined
      cases hdefined
    · exact hp.exists_literalOf hdeclared
  · rintro ⟨n, hn, ht⟩
    exact mem_collect_of_literalOf hn ht

/-- **A footprint is defined exactly if the input objects that are written out are declared with
defined types.**  These are the input objects that the document has an object literal for; the
literal need not spell out the field whose type is missing. -/
theorem collect_defined_iff (schema : Schema) (document : Document) :
    (∀ t ∈ collect schema document, schema.defines t.core = true) ↔
      ∀ n, LiteralOf schema document n →
        ∀ t ∈ schema.inputFieldTypes n, schema.defines t.core = true := by
  constructor
  · intro h n hn t ht
    exact h t (mem_collect_of_literalOf hn ht)
  · intro h t ht
    cases hdefined : schema.defines t.core with
    | true => rfl
    | false =>
      obtain ⟨n, hn, hmem⟩ := (mem_collect_of_not_defines hdefined).1 ht
      exact hdefined.symm.trans (h n hn t hmem)

/-- A schema may be read, and a footprint in it may name a type that it does not define: `b` is not
written in the literal, but its type is recorded. -/
theorem exists_collect_not_defined :
    ∃ schema document,
      Schema.parse? "type Query { f(x: I): Int } input I { a: Int, b: Missing }" = some schema ∧
      Document.parse? "{ f(x: {a: 1}) }" = some document ∧
      ∃ t ∈ collect schema document, schema.defines t.core = false := by
  have h : ((Schema.parse? "type Query { f(x: I): Int } input I { a: Int, b: Missing }").any
      fun schema ↦ (Document.parse? "{ f(x: {a: 1}) }").any fun document ↦
        (collect schema document).toList.any fun t ↦ !schema.defines t.core) = true := by
    decide +kernel
  obtain ⟨schema, hschema, h⟩ := (Option.any_eq_true _ _).1 h
  obtain ⟨document, hdocument, h⟩ := (Option.any_eq_true _ _).1 h
  obtain ⟨t, ht, hdefined⟩ := List.any_eq_true.1 h
  exact ⟨schema, document, hschema, hdocument, t, ht, by simpa using hdefined⟩

end TypeFootprint
