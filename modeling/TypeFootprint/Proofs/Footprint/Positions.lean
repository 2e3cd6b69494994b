import TypeFootprint.Proofs.Footprint.Trimming
import TypeFootprint.Proofs.Inference.Kinds

/-!
# What is in force where the rules are asked

`Visited.wellKinded` and `owned_of_mem_enclosedCalls` are about the places of a document under any
rules.  Here they are put together for the consultations of a walk.  The rules of a footprint pass
over an object literal unless it is written against an input object, so under these rules the fields
of a literal always have their input object around them (`Visited.exists_inputObject`).
-/

set_option autoImplicit false

namespace TypeFootprint

variable {schema : Schema} {fragments : Fragments} {document : Document} {q : Place}

/-! ## Fields of object literals -/

theorem Schema.kind?_of_inputObject? {n : Name} (h : schema.inputObject? n ≠ none) :
    schema.kind? n = some .inputObject := by
  rw [inputObject?] at h
  rw [kind?]
  cases htype : schema.type? n with
  | none => simp [htype] at h
  | some d =>
    cases hbody : d.body with
    | inputObject fields => simp [TypeDefinition.kind, TypeBody.kind, hbody]
    | _ => simp [htype, hbody] at h

/-- An object literal whose fields are visited is written against an input object. -/
theorem Visited.exists_inputObject (h : Visited schema (collectRules schema fragments) document q)
    {n : Name} {v : Value} (hnode : q.node = .objectField n v) :
    ∃ t, q.scope.position.parentInput = some t ∧ schema.kind? t.core = some .inputObject := by
  obtain ⟨fields, s, -, hskips, hinput⟩ := h.exists_object_of_objectField hnode
  obtain ⟨t, ht, hobject⟩ := skips_object_iff.1 hskips
  exact ⟨t, hinput.trans ht, Schema.kind?_of_inputObject? hobject⟩

theorem Node.exists_of_kind_objectField {node : Node} (h : node.kind = .objectField) :
    ∃ n v, node = .objectField n v := by
  cases node with
  | objectField n v => exact ⟨n, v, rfl⟩
  | selection x => cases x <;> cases h
  | value v => cases v <;> cases h
  | _ => cases h

/-! ## Walks -/

/-- **What is in force at a node.**  For every schema, all rules and every document, at each
consultation of a walk: the output type, where there is one, is of an output kind; the owner is the
name of a composite type; the input type and the one around it are of input kinds; and a field, a
spread or an inline fragment is owned by the core of the output type of the innermost operation,
field or fragment around it, exactly if that core is composite.  Under the rules of a footprint, a
field of an object literal is consulted about only if the type around it is an input object. -/
theorem wellKinded_enclosedCalls (schema : Schema) (rules : Rules) (document : Document) :
    (enclosedCalls schema rules document).map EnclosedCall.call
      = walkDocument schema rules document ∧
    (∀ e ∈ enclosedCalls schema rules document,
      e.call.position.WellKinded schema ∧ e.Owned schema) ∧
    ∀ c ∈ walkDocument schema (collectRules schema (.ofDocument document)) document,
      ∀ n v, c.node = .objectField n v →
        ∃ t, c.position.parentInput = some t ∧ schema.kind? t.core = some .inputObject := by
  refine ⟨map_call_enclosedCalls schema rules document, fun e he ↦ ?_, fun c hc n v hnode ↦ ?_⟩
  · refine ⟨?_, owned_of_mem_enclosedCalls he⟩
    obtain ⟨p, hp, hcall⟩ := exists_visited_of_mem_enclosedCalls he
    rw [← hcall]
    exact hp.wellKinded
  · rw [← map_call_enclosedCalls] at hc
    obtain ⟨e, he, rfl⟩ := List.mem_map.1 hc
    obtain ⟨p, hp, hcall⟩ := exists_visited_of_mem_enclosedCalls he
    rw [← hcall] at hnode ⊢
    exact hp.exists_inputObject hnode

/-- In the search for a node, the field of the filter has an input object around it, and the field
`id` of what is found is owned by the interface of nodes. -/
theorem wellKinded_enclosedCalls_findById :
    (∃ c ∈ walkDocument filterSchema (collectRules filterSchema (.ofDocument findById)) findById,
      (∃ n v, c.node = .objectField n v) ∧
      ∃ t, c.position.parentInput = some t ∧ filterSchema.kind? t.core = some .inputObject) ∧
    ∃ e ∈ enclosedCalls filterSchema (collectRules filterSchema (.ofDocument findById)) findById,
      e.call.node.kind = .field ∧
      e.call.position.parentOutput = some (.ofName (BuiltIn.named "Node")) ∧
      e.call.position.WellKinded filterSchema ∧ e.Owned filterSchema := by
  obtain ⟨hwalk, hkinds, hobjects⟩ := wellKinded_enclosedCalls filterSchema
    (collectRules filterSchema (.ofDocument findById)) findById
  constructor
  · have h : (walkDocument filterSchema (collectRules filterSchema (.ofDocument findById))
        findById).any (fun c ↦ c.node.kind = .objectField) = true := by
      decide
    obtain ⟨c, hc, h⟩ := List.any_eq_true.1 h
    obtain ⟨n, v, hnode⟩ := Node.exists_of_kind_objectField (of_decide_eq_true h)
    exact ⟨c, hc, ⟨n, v, hnode⟩, hobjects c hc n v hnode⟩
  · have h : (walkDocument filterSchema (collectRules filterSchema (.ofDocument findById))
        findById).any (fun c ↦ decide (c.node.kind = .field) && decide
          (c.position.parentOutput = some (.ofName (BuiltIn.named "Node" (Eq.refl true))))) = true := by
      decide
    obtain ⟨c, hc, h⟩ := List.any_eq_true.1 h
    rw [Bool.and_eq_true, decide_eq_true_eq, decide_eq_true_eq] at h
    rw [← hwalk] at hc
    obtain ⟨e, he, rfl⟩ := List.mem_map.1 hc
    exact ⟨e, he, h.1, h.2, hkinds e he⟩

end TypeFootprint
