import TypeFootprint.Proofs.Inference.Enclosure

/-!
# The kinds of the types in force

Whatever comes into force at a node is looked up in the schema first, and is kept only if it is of a
kind that may stand there: output types of fields and fragments, composite owners of selection sets,
input types of values.

* `Handed.wellKinded`, `Visited.wellKinded` — a place hands well-kinded positions to its parts, so
  all positions of a walk are well-kinded;
* `EnclosedCall.Owned`, `owned_of_mem_enclosedCalls` — a selection is owned by the core of the output
  type of the innermost operation, field or fragment around it.
-/

set_option autoImplicit false

namespace TypeFootprint

/-- The types in force are defined, where there are any, and of kinds that may stand there.  The
owner of a selection set is a name without wrappers. -/
structure Position.WellKinded (schema : Schema) (p : Position) : Prop where
  output : ∀ t, p.output = some t → schema.hasKind TypeKind.isOutput t.core = true
  parentOutput : ∀ t, p.parentOutput = some t →
    ∃ n, t = .ofName n ∧ schema.hasKind TypeKind.isComposite n = true
  input : ∀ t, p.input = some t → schema.hasKind TypeKind.isInput t.core = true
  parentInput : ∀ t, p.parentInput = some t → schema.hasKind TypeKind.isInput t.core = true

/-- A selection is owned by the core of the output type of the innermost operation, field or fragment
around it, if that is composite, and has no owner otherwise. -/
def EnclosedCall.Owned (schema : Schema) (e : EnclosedCall) : Prop :=
  ∀ x, e.call.node = .selection x →
    ∃ c, e.around.find? (fun c ↦ c.node.hasOutput) = some c ∧
      ∀ t, e.call.position.parentOutput = some t ↔
        ∃ u, c.position.output = some u ∧ schema.hasKind TypeKind.isComposite u.core = true ∧
          t = .ofName u.core

variable {schema : Schema} {rules : Rules} {document : Document} {p q : Place} {s : Scope}

/-! ## Kinds that are kept -/

theorem Scope.hasKind_of_keep {kind : TypeKind → Bool} {t : Option TypeRef} {u : TypeRef}
    (h : keep schema kind t = some u) : schema.hasKind kind u.core = true :=
  (Option.filter_eq_some_iff.1 h).2

/-- An object type, which the root of an operation has to be, is an output type. -/
theorem Schema.isOutput_of_object {n : Name} (h : schema.hasKind (· = .object) n = true) :
    schema.hasKind TypeKind.isOutput n = true := by
  obtain ⟨k, hk, hobject⟩ := hasKind_iff.1 h
  rw [of_decide_eq_true hobject] at hk
  exact hasKind_iff.2 ⟨.object, hk, rfl⟩

namespace Scope

/-- The owner of a selection set is the core of the output type around it, if that is composite. -/
theorem parentOutput_ofSelections {t : TypeRef} :
    (s.ofSelections schema).position.parentOutput = some t ↔
      ∃ u, s.position.output = some u ∧ schema.hasKind TypeKind.isComposite u.core = true ∧
        t = .ofName u.core := by
  show keep schema TypeKind.isComposite (s.position.output.map fun t ↦ .ofName t.core) = some t ↔ _
  rw [keep, Option.filter_eq_some_iff, Option.map_eq_some_iff]
  constructor
  · rintro ⟨⟨u, hu, rfl⟩, hkind⟩
    exact ⟨u, hu, hkind, rfl⟩
  · rintro ⟨u, hu, hkind, rfl⟩
    exact ⟨⟨u, hu, rfl⟩, hkind⟩

/-! ## Positions -/

theorem wellKinded_outside : outside.position.WellKinded schema := by
  constructor <;> intro t ht <;> cases ht

theorem wellKinded_withOutput (h : s.position.WellKinded schema) (t : Option TypeRef) :
    (s.withOutput (keep schema TypeKind.isOutput t)).position.WellKinded schema :=
  { h with output := fun _ hu ↦ hasKind_of_keep hu }

theorem wellKinded_withInput (h : s.position.WellKinded schema) (t : Option TypeRef) :
    (s.withInput (keep schema TypeKind.isInput t)).position.WellKinded schema :=
  { h with input := fun _ hu ↦ hasKind_of_keep hu, parentInput := h.input }

theorem wellKinded_ofSelections (h : s.position.WellKinded schema) :
    (s.ofSelections schema).position.WellKinded schema := by
  refine { h with parentOutput := fun t ht ↦ ?_ }
  obtain ⟨u, -, hkind, rfl⟩ := parentOutput_ofSelections.1 ht
  exact ⟨u.core, rfl, hkind⟩

theorem wellKinded_ofOperation (kind : OperationKind) (h : s.position.WellKinded schema) :
    (s.ofOperation schema kind).position.WellKinded schema :=
  { h with output := fun _ hu ↦ Schema.isOutput_of_object (hasKind_of_keep hu) }

end Scope

/-- What is handed down is of a kind that may stand there. -/
theorem Handed.wellKinded (h : Handed schema p q) (hp : p.scope.position.WellKinded schema) :
    q.scope.position.WellKinded schema := by
  cases h with
  | declaration v => exact Scope.wellKinded_withInput hp _
  | directive d => exact hp
  | selection _ x =>
    have howned := Scope.wellKinded_ofSelections hp
    cases x with
    | field responseName n arguments directives selections =>
      exact Scope.wellKinded_withOutput howned _
    | spread n directives => exact howned
    | inline condition directives selections => exact Scope.wellKinded_withOutput howned _
  | argument a => exact Scope.wellKinded_withInput hp _
  | directiveArgument _ a => exact Scope.wellKinded_withInput hp _
  | value v =>
    cases v with
    | list items => exact Scope.wellKinded_withInput hp _
    | _ => exact hp
  | objectField _ field => exact Scope.wellKinded_withInput hp _

theorem Place.wellKinded_ofDefinition? {d : Definition} (hp : ofDefinition? schema d = some p) :
    p.scope.position.WellKinded schema := by
  cases d with
  | operation op =>
    cases hp
    exact Scope.wellKinded_ofOperation op.kind Scope.wellKinded_outside
  | fragment f =>
    cases hp
    exact Scope.wellKinded_withOutput Scope.wellKinded_outside _
  | typeSystem d => cases hp

/-- **All types that come into force in a walk are of kinds that may stand there.** -/
theorem Visited.wellKinded (h : Visited schema rules document p) :
    p.scope.position.WellKinded schema := by
  induction h with
  | definition _ hp => exact Place.wellKinded_ofDefinition? hp
  | part _ _ hq ih => exact (handed_of_mem_parts hq).wellKinded ih

/-! ## Owners -/

/-- Selections stand in the selection sets of operations, fields and fragments, and those settle the
owner. -/
theorem owned_of_mem_parts (hq : q ∈ p.parts schema) (around : List Call) :
    EnclosedCall.Owned schema ⟨q.call rules, p.call rules :: around⟩ := by
  intro y hy
  have hnode : q.node = .selection y := hy
  cases handed_of_mem_parts hq with
  | selection hp x =>
    have howner : (Place.ofSelection schema (p.scope.ofSelections schema) x).scope.position.parentOutput
        = (p.scope.ofSelections schema).position.parentOutput := by
      cases x <;> rfl
    refine ⟨p.call rules, List.find?_cons_of_pos hp, fun t ↦ ?_⟩
    rw [Place.call, howner]
    exact Scope.parentOutput_ofSelections
  | value v => rw [Place.node_ofValue] at hnode; cases hnode
  | _ => cases hnode

theorem Place.owned_ofDefinition? {d : Definition} (hp : ofDefinition? schema d = some p) :
    EnclosedCall.Owned schema ⟨p.call rules, []⟩ := by
  intro x hx
  have hnode : p.node = .selection x := hx
  cases d <;> cases hp <;> cases hnode

theorem owned_of_mem_enclosedCalls {e : EnclosedCall}
    (he : e ∈ enclosedCalls schema rules document) : e.Owned schema := by
  obtain ⟨p, hp, hcall⟩ := exists_of_mem_enclosedCalls
    (motive := fun around p ↦ EnclosedCall.Owned schema ⟨p.call rules, around⟩)
    (fun around _ _ _ _ hq ↦ owned_of_mem_parts hq around)
    (fun _ _ _ hp ↦ Place.owned_ofDefinition? hp) he
  rwa [hcall] at hp

end TypeFootprint
