import TypeFootprint.Inference.Typing

/-!
# The values that are written in a document

`Document.allValues test` says that every value in the operations and fragments of a document passes
a test: those of arguments and of default values, and the ones inside lists and object literals at
any depth.  `allValues_of_mem_parts` hands the property from a node to its parts, so that it holds
wherever a walk comes by.
-/

set_option autoImplicit false

namespace TypeFootprint

section Syntax

variable (test : Value → Bool)

mutual

/-- Whether a value and all values inside it pass a test. -/
def Value.all : Value → Bool
  | .list items => test (.list items) && Value.allItems items
  | .object fields => test (.object fields) && Value.allFields fields
  | v => test v

/-- Whether the items of a list literal and all values inside them pass a test. -/
def Value.allItems : List Value → Bool
  | [] => true
  | v :: vs => v.all && Value.allItems vs

/-- Whether the fields of an object literal and all values inside them pass a test. -/
def Value.allFields : List (Name × Value) → Bool
  | [] => true
  | (_, v) :: fields => v.all && Value.allFields fields

end

/-- Whether all values in the arguments of a directive pass a test. -/
def Directive.allValues (d : Directive) : Bool := d.arguments.all fun a ↦ a.value.all test

mutual

/-- Whether all values in an item of a selection set pass a test. -/
def Selection.allValues : Selection → Bool
  | .field _ _ arguments directives selections =>
    arguments.all (fun a ↦ a.value.all test) && directives.all (Directive.allValues test) &&
      Selection.allValuesIn selections
  | .spread _ directives => directives.all (Directive.allValues test)
  | .inline _ directives selections =>
    directives.all (Directive.allValues test) && Selection.allValuesIn selections

/-- Whether all values in a selection set pass a test. -/
def Selection.allValuesIn : List Selection → Bool
  | [] => true
  | x :: xs => x.allValues && Selection.allValuesIn xs

end

/-- Whether all values in the declaration of a variable pass a test; its name is a use of the variable
as well. -/
def VariableDefinition.allValues (v : VariableDefinition) : Bool :=
  test (.var v.name) && v.defaultValue.toList.all (Value.all test) &&
    v.directives.all (Directive.allValues test)

/-- Whether all values in an operation pass a test. -/
def Operation.allValues (op : Operation) : Bool :=
  op.declarations.all (VariableDefinition.allValues test) &&
    op.directives.all (Directive.allValues test) && Selection.allValuesIn test op.selections

/-- Whether all values in a fragment definition pass a test. -/
def Fragment.allValues (f : Fragment) : Bool :=
  f.directives.all (Directive.allValues test) && Selection.allValuesIn test f.selections

/-- Whether all values in the operations and fragments of a document pass a test. -/
def Document.allValues (document : Document) : Bool :=
  document.all fun
    | .operation op => op.allValues test
    | .fragment f => f.allValues test
    | .typeSystem _ => true

/-- Whether all values at a node and below it pass a test. -/
def Node.allValues : Node → Bool
  | .operation op => op.allValues test
  | .variableDefinition v => v.allValues test
  | .fragmentDefinition f => f.allValues test
  | .selection x => x.allValues test
  | .argument a => a.value.all test
  | .directive d => d.allValues test
  | .value v => v.all test
  | .objectField _ v => v.all test

end Syntax

variable {test : Value → Bool} {schema : Schema} {s : Scope}

theorem Value.allItems_iff {vs : List Value} :
    Value.allItems test vs = true ↔ ∀ v ∈ vs, v.all test = true := by
  induction vs with
  | nil => simp [Value.allItems]
  | cons v vs ih => simp [Value.allItems, ih]

theorem Value.allFields_iff {fields : List (Name × Value)} :
    Value.allFields test fields = true ↔ ∀ field ∈ fields, field.2.all test = true := by
  induction fields with
  | nil => simp [Value.allFields]
  | cons field fields ih => simp [Value.allFields, ih]

theorem Selection.allValuesIn_iff {xs : List Selection} :
    Selection.allValuesIn test xs = true ↔ ∀ x ∈ xs, x.allValues test = true := by
  induction xs with
  | nil => simp [Selection.allValuesIn]
  | cons x xs ih => simp [Selection.allValuesIn, ih]

/-! ## Parts -/

namespace Place

theorem allValues_ofSelections {xs : List Selection} {q : Place}
    (h : Selection.allValuesIn test xs = true) (hq : q ∈ ofSelections schema s xs) :
    q.node.allValues test = true := by
  obtain ⟨x, hx, rfl⟩ := List.mem_map.1 hq
  exact Selection.allValuesIn_iff.1 h x hx

theorem allValues_ofDirective {ds : List Directive} {q : Place}
    (h : ds.all (Directive.allValues test) = true) (hq : q ∈ ds.map (ofDirective s)) :
    q.node.allValues test = true := by
  obtain ⟨d, hd, rfl⟩ := List.mem_map.1 hq
  exact List.all_eq_true.1 h d hd

theorem allValues_ofArgument {as : List Argument} {q : Place}
    (h : as.all (fun a ↦ a.value.all test) = true) (hq : q ∈ as.map (ofArgument schema s)) :
    q.node.allValues test = true := by
  obtain ⟨a, ha, rfl⟩ := List.mem_map.1 hq
  exact List.all_eq_true.1 h a ha

theorem allValues_of_mem_parts {p q : Place} (h : p.node.allValues test = true)
    (hq : q ∈ p.parts schema) : q.node.allValues test = true := by
  obtain ⟨node, scope⟩ := p
  cases node with
  | operation op =>
    simp only [Node.allValues, Operation.allValues, Bool.and_eq_true] at h
    simp only [parts_operation, List.mem_append] at hq
    rcases hq with hq | hq | hq
    · obtain ⟨v, hv, rfl⟩ := List.mem_map.1 hq
      exact List.all_eq_true.1 h.1.1 v hv
    · exact allValues_ofDirective h.1.2 hq
    · exact allValues_ofSelections h.2 hq
  | variableDefinition v =>
    simp only [Node.allValues, VariableDefinition.allValues, Bool.and_eq_true] at h
    simp only [parts_variableDefinition, List.mem_cons, List.mem_append] at hq
    rcases hq with rfl | hq | hq
    · exact h.1.1
    · obtain ⟨v, hv, rfl⟩ := List.mem_map.1 hq
      rw [node_ofValue]
      exact List.all_eq_true.1 h.1.2 v hv
    · exact allValues_ofDirective h.2 hq
  | fragmentDefinition f =>
    simp only [Node.allValues, Fragment.allValues, Bool.and_eq_true] at h
    simp only [parts_fragmentDefinition, List.mem_append] at hq
    rcases hq with hq | hq
    · exact allValues_ofDirective h.1 hq
    · exact allValues_ofSelections h.2 hq
  | selection x =>
    cases x with
    | field responseName n arguments directives selections =>
      simp only [Node.allValues, Selection.allValues, Bool.and_eq_true] at h
      simp only [parts_field, List.mem_append] at hq
      rcases hq with hq | hq | hq
      · exact allValues_ofArgument h.1.1 hq
      · exact allValues_ofDirective h.1.2 hq
      · exact allValues_ofSelections h.2 hq
    | spread n directives => exact allValues_ofDirective h hq
    | inline condition directives selections =>
      simp only [Node.allValues, Selection.allValues, Bool.and_eq_true] at h
      simp only [parts_inline, List.mem_append] at hq
      rcases hq with hq | hq
      · exact allValues_ofDirective h.1 hq
      · exact allValues_ofSelections h.2 hq
  | argument a =>
    obtain rfl : q = ofValue schema scope a.value := by simpa using hq
    rwa [node_ofValue]
  | directive d => exact allValues_ofArgument h hq
  | value v =>
    cases v with
    | list items =>
      rw [Node.allValues, Value.all, Bool.and_eq_true] at h
      obtain ⟨v, hv, rfl⟩ := List.mem_map.1 hq
      rw [node_ofValue]
      exact Value.allItems_iff.1 h.2 v hv
    | object fields =>
      rw [Node.allValues, Value.all, Bool.and_eq_true] at h
      obtain ⟨field, hfield, rfl⟩ := List.mem_map.1 hq
      exact Value.allFields_iff.1 h.2 field hfield
    | _ => simp [parts] at hq
  | objectField n v =>
    obtain rfl : q = ofValue schema scope v := by simpa using hq
    rwa [node_ofValue]

theorem allValues_of_mem_document {document : Document} {p : Place}
    (h : document.allValues test = true)
    (hp : p ∈ document.filterMap (ofDefinition? schema)) : p.node.allValues test = true := by
  obtain ⟨d, hd, hdp⟩ := List.mem_filterMap.1 hp
  have htest := List.all_eq_true.1 h d hd
  cases d with
  | operation op => cases hdp; exact htest
  | fragment f => cases hdp; exact htest
  | typeSystem d => cases hdp

end Place
end TypeFootprint
