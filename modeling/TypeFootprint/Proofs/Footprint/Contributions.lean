import TypeFootprint.Proofs.Footprint.Trimming
import TypeFootprint.Schema.Build

/-!
# What literals contribute

A literal is written against the input type in force where it stands, and should put that type into
the footprint.  How it does so depends on its form: a number, a text or an enum value records the
core of the type, `null` the type as it is, and a list literal the type around its items.  An object
literal leaves it to its fields, each of which records the input object that it belongs to — so an
object literal without fields, written against an input object, records the types of all fields that
the input object declares, but not the input object.

* `Call.literalType` — the type that a literal is written against;
* `Visited.contributes` — every other literal contributes it;
* `literals_contribute_iff` — so all literals do, if those without fields do.
-/

set_option autoImplicit false

namespace TypeFootprint

/-- The type that a literal is written against, where it is known.  The rule of a list literal is
asked when the type of the items is in force already, so the type of the list is the one around. -/
def Call.literalType (c : Call) : Option TypeRef :=
  match c.node with
  | .value (.var _) => none
  | .value (.list _) => c.position.parentInput
  | .value _ => c.position.input
  | _ => none

/-- Some type of the footprint has this core. -/
def Contributes (schema : Schema) (document : Document) (n : Name) : Prop :=
  ∃ u ∈ collect schema document, u.core = n

/-- Whether a consultation is about an object literal without fields, written against an input
object of this name. -/
def Call.IsEmptyObjectOf (schema : Schema) (c : Call) (n : Name) : Prop :=
  c.node = .value (.object []) ∧ c.literalType.map TypeRef.core = some n ∧
    schema.inputObject? n ≠ none

variable {schema : Schema} {rules : Rules} {document : Document} {p : Place} {s : Scope} {v : Value}
  {t : TypeRef}

/-! ## The type that a literal is written against -/

/-- Only values are literals. -/
theorem exists_value_of_literalType {c : Call} (h : c.literalType = some t) :
    ∃ v, c.node = .value v := by
  obtain ⟨node, position, recorded⟩ := c
  cases node with
  | value v => exact ⟨v, rfl⟩
  | _ => cases h

/-! ## Contributions -/

section

variable (hp : Visited schema (collectRules schema (.ofDocument document)) document p)
include hp

theorem Visited.contributes_of_mem {n : Name} (types : List TypeRef)
    (htypes : (p.call (collectRules schema (.ofDocument document))).recorded.types = types)
    {u : TypeRef} (hu : u ∈ types) (hcore : u.core = n) : Contributes schema document n :=
  ⟨u, mem_collect.2 ⟨p, hp, htypes ▸ hu⟩, hcore⟩

/-- A literal that is no object literal records a type with the same core. -/
theorem Visited.contributes_of_not_object (hnode : p.node = .value v)
    (hv : ∀ fields, v ≠ .object fields)
    (ht : (p.call (collectRules schema (.ofDocument document))).literalType = some t) :
    Contributes schema document t.core := by
  obtain ⟨node, s⟩ := p
  obtain rfl : node = .value v := hnode
  cases v with
  | var n => cases ht
  | object fields => exact absurd rfl (hv fields)
  | null =>
    have hinput : s.position.input = some t := ht
    refine hp.contributes_of_mem [t] ?_ (List.mem_singleton_self t) rfl
    simp [Place.call, collectRules, collectValue, Recorded.known, hinput]
  | list items =>
    have hparent : s.position.parentInput = some t := ht
    refine hp.contributes_of_mem [t.nullable] ?_ (List.mem_singleton_self _)
      t.core_nullable
    simp [Place.call, collectRules, collectValue, Recorded.known, hparent]
  | _ =>
    have hinput : s.position.input = some t := ht
    refine hp.contributes_of_mem [.ofName t.core] ?_ (List.mem_singleton_self _) rfl
    simp [Place.call, collectRules, collectValue, Recorded.known, inputCore, hinput]

/-- An object literal that is not written against an input object records what it is written
against. -/
theorem Visited.contributes_of_inputObject?_eq_none {fields : List (Name × Value)}
    (hnode : p.node = .value (.object fields)) (ht : p.scope.position.input = some t)
    (hobject : schema.inputObject? t.core = none) : Contributes schema document t.core := by
  obtain ⟨node, s⟩ := p
  obtain rfl : node = .value (.object fields) := hnode
  have hinput : s.position.input = some t := ht
  refine hp.contributes_of_mem [.ofName t.core] ?_ (List.mem_singleton_self _) rfl
  simp [Place.call, collectRules, collectValue, Recorded.known, Recorded.skipping, hinput, hobject]

/-- The first field of an object literal is visited, and records the input object. -/
theorem Visited.contributes_of_field {field : Name × Value} {fields : List (Name × Value)}
    (hnode : p.node = .value (.object (field :: fields))) (ht : p.scope.position.input = some t)
    (hobject : schema.inputObject? t.core ≠ none) : Contributes schema document t.core := by
  obtain ⟨node, s⟩ := p
  obtain rfl : node = .value (.object (field :: fields)) := hnode
  have hpart : Place.ofObjectField schema s field
      ∈ Place.parts schema ⟨.value (.object (field :: fields)), s⟩ := by simp
  have hfield := hp.part (skips_object ht hobject) hpart
  exact hfield.contributes_of_mem _ rfl (core_mem_objectField field ht) rfl

/-- **Every literal contributes the type that it is written against**, but for an object literal
without fields that is written against an input object. -/
theorem Visited.contributes
    (ht : (p.call (collectRules schema (.ofDocument document))).literalType = some t)
    (hempty :
      ¬ (p.call (collectRules schema (.ofDocument document))).IsEmptyObjectOf schema t.core) :
    Contributes schema document t.core := by
  obtain ⟨v, hnode⟩ := exists_value_of_literalType ht
  have hplace : p.node = .value v := hnode
  cases v with
  | object fields =>
    have hinput : p.scope.position.input = some t := by
      rwa [Call.literalType, hnode] at ht
    by_cases hobject : schema.inputObject? t.core = none
    · exact hp.contributes_of_inputObject?_eq_none hplace hinput hobject
    · cases fields with
      | nil => exact absurd ⟨hnode, congrArg (Option.map TypeRef.core) ht, hobject⟩ hempty
      | cons field fields => exact hp.contributes_of_field hplace hinput hobject
  | _ => exact hp.contributes_of_not_object hplace (by simp) ht

end

/-- **Which literals contribute the type that they are written against.**  Every literal that a walk
visits where the input type is known contributes its core, be it a number, a text, an enum value,
`null`, a list or an object, unless it is the object literal `{}` and written against an input
object.  So all literals contribute theirs exactly if those do, that is, if the input object of each
of them is touched elsewhere in the document. -/
theorem literals_contribute_iff (schema : Schema) (document : Document) :
    (∀ c ∈ walkDocument schema (collectRules schema (.ofDocument document)) document,
      ∀ t, c.literalType = some t → ¬ c.IsEmptyObjectOf schema t.core →
        Contributes schema document t.core) ∧
    ((∀ c ∈ walkDocument schema (collectRules schema (.ofDocument document)) document,
        ∀ t, c.literalType = some t → Contributes schema document t.core) ↔
      ∀ c ∈ walkDocument schema (collectRules schema (.ofDocument document)) document,
        ∀ n, c.IsEmptyObjectOf schema n → Contributes schema document n) := by
  have hother : ∀ c ∈ walkDocument schema (collectRules schema (.ofDocument document)) document,
      ∀ t, c.literalType = some t → ¬ c.IsEmptyObjectOf schema t.core →
        Contributes schema document t.core := by
    intro c hc t ht hempty
    obtain ⟨p, hp, rfl⟩ := mem_walkDocument.1 hc
    exact hp.contributes ht hempty
  refine ⟨hother, fun hall c hc n hempty ↦ ?_, fun hempties c hc t ht ↦ ?_⟩
  · obtain ⟨t, ht, rfl⟩ := Option.map_eq_some_iff.1 hempty.2.1
    exact hall c hc t ht
  · by_cases hempty : c.IsEmptyObjectOf schema t.core
    · exact hempties c hc t.core hempty
    · exact hother c hc t ht hempty

/-- The identifier in the filter of a search is written against an optional text. -/
theorem literals_contribute_iff_findById :
    ∃ c ∈ walkDocument filterSchema (collectRules filterSchema (.ofDocument findById)) findById,
      c.literalType = some (.named .string false) ∧ ¬ c.IsEmptyObjectOf filterSchema .string ∧
      Contributes filterSchema findById .string := by
  have h : (walkDocument filterSchema (collectRules filterSchema (.ofDocument findById))
      findById).any (fun c ↦ decide (c.literalType = some (.named .string false)) &&
        decide (c.node.kind = .scalarValue)) = true := by
    decide
  obtain ⟨c, hc, h⟩ := List.any_eq_true.1 h
  rw [Bool.and_eq_true, decide_eq_true_eq, decide_eq_true_eq] at h
  obtain ⟨ht, hkind⟩ := h
  have hscalar : ¬ c.IsEmptyObjectOf filterSchema .string := by
    rintro ⟨hnode, -⟩
    rw [hnode] at hkind
    cases hkind
  exact ⟨c, hc, ht, hscalar, (literals_contribute_iff filterSchema findById).1 c hc _ ht hscalar⟩

/-- A literal without fields need not contribute its input object: `I` is nowhere in this footprint,
although a literal is written against it. -/
theorem exists_literal_not_contributing :
    ∃ schema document,
      Schema.parse? "type Query { f(x: I): Int } input I { a: Int }" = some schema ∧
      Document.parse? "{ f(x: {}) }" = some document ∧
      ∃ c ∈ walkDocument schema (collectRules schema (.ofDocument document)) document,
        ∃ t, c.literalType = some t ∧ ¬ Contributes schema document t.core := by
  have h : ((Schema.parse? "type Query { f(x: I): Int } input I { a: Int }").any
      fun schema ↦ (Document.parse? "{ f(x: {}) }").any fun document ↦
        (walkDocument schema (collectRules schema (.ofDocument document)) document).any fun c ↦
          c.literalType.any fun t ↦
            (collect schema document).toList.all fun u ↦ decide (u.core ≠ t.core)) = true := by
    decide +kernel
  obtain ⟨schema, hschema, h⟩ := (Option.any_eq_true _ _).1 h
  obtain ⟨document, hdocument, h⟩ := (Option.any_eq_true _ _).1 h
  obtain ⟨c, hc, h⟩ := List.any_eq_true.1 h
  obtain ⟨t, ht, h⟩ := (Option.any_eq_true _ _).1 h
  refine ⟨schema, document, hschema, hdocument, c, hc, t, ht, ?_⟩
  rintro ⟨u, hu, hcore⟩
  have hne := List.all_eq_true.1 h u hu
  exact of_decide_eq_true hne hcore

end TypeFootprint
