import TypeFootprint.Inference.Rules

/-!
# The types in force, from the outside in

What is in force at a node depends only on the nodes around it.  A `Scope` is what they settle, and
it is handed down from each node to its parts: nothing has to be entered or left.

* `Scope.ofOperation`, `Scope.ofField` and their companions say what a node settles for itself and
  its parts, from what is settled around it.
* `Place.parts` are the nodes directly below a node, each with its own scope, in the order of the
  text.
* `callsOf` lists the consultations at a place and below it, the node before its parts, and
  `callsOfDocument` those of a document.

The rules are written from the schema alone; nothing of a `Context` but its `Position` is used.
-/

set_option autoImplicit false

namespace TypeFootprint

/-- What the nodes around a node settle: the types in force, the field that its arguments belong to,
and the directive that they belong to instead. -/
structure Scope where
  position : Position
  field : Option FieldDefinition
  directive : Option DirectiveDefinition

namespace Scope

/-- Outside of all definitions nothing is in force. -/
def outside : Scope := ⟨⟨none, none, none, none⟩, none, none⟩

/-- The scope in which something of this output type is read. -/
def withOutput (output : Option TypeRef) (s : Scope) : Scope :=
  { s with position := { s.position with output } }

/-- The scope of a selection set of this owner. -/
def withOwner (owner : Option TypeRef) (s : Scope) : Scope :=
  { s with position := { s.position with parentOutput := owner } }

/-- The scope in which a value of this type is read, as a part of the value around it. -/
def withInput (input : Option TypeRef) (s : Scope) : Scope :=
  { s with position := { s.position with input, parentInput := s.position.input } }

/-- The arguments that are declared here: by the directive that is read, if it is known, or else by
the nearest field around. -/
def declaredArguments (s : Scope) : List InputValue :=
  match s.directive, s.field with
  | some d, _ => d.arguments
  | none, some f => f.arguments
  | none, none => []

/-- The type that a list literal written against a type has its items written against.  One item may
stand for a list, so a type that is no list is taken for the type of the items. -/
def itemsOf : TypeRef → TypeRef
  | .list item _ => item
  | .named n required => .named n required

theorem core_itemsOf_nullable (t : TypeRef) : (itemsOf t.nullable).core = t.core := by
  cases t <;> rfl

variable (schema : Schema)

/-- A type, where its core is of such a kind. -/
def keep (p : TypeKind → Bool) (t : Option TypeRef) : Option TypeRef :=
  t.filter fun t ↦ schema.hasKind p t.core

@[simp] theorem keep_none (p : TypeKind → Bool) : keep schema p none = none := rfl

@[simp] theorem keep_some (p : TypeKind → Bool) (t : TypeRef) :
    keep schema p (some t) = schema.keepKind p t := Option.filter_some

/-- The declared type under this name. -/
def declaredType (declared : List InputValue) (n : Name) : Option TypeRef :=
  (declared.find? fun v ↦ v.name = n).map InputValue.type

/-- An operation has the root type of its kind, if that is an object type. -/
def ofOperation (kind : OperationKind) (s : Scope) : Scope :=
  s.withOutput (keep schema (· = .object) ((schema.roots.get? kind).map .ofName))

/-- A fragment has the type of its condition, or else the core of the output type around it, if that
is an output type. -/
def ofFragment (condition : Option Name) (s : Scope) : Scope :=
  s.withOutput (keep schema TypeKind.isOutput
    ((condition.or (s.position.output.map TypeRef.core)).map .ofName))

/-- A selection set is owned by the core of the output type around it, if that is composite. -/
def ofSelections (s : Scope) : Scope :=
  s.withOwner (keep schema TypeKind.isComposite (s.position.output.map fun t ↦ .ofName t.core))

/-- A field is what its owner declares under its name, and has the declared type, if that is an
output type. -/
def ofField (n : Name) (s : Scope) : Scope :=
  let definition := s.position.parentOutput.bind fun t ↦ schema.field? t.core n
  { s.withOutput (keep schema TypeKind.isOutput (definition.map FieldDefinition.type)) with
    field := definition }

/-- A variable has its declared type, if that is an input type. -/
def ofVariable (type : TypeRef) (s : Scope) : Scope :=
  s.withInput (keep schema TypeKind.isInput (some type))

/-- The arguments of a directive are read against its definition. -/
def ofDirective (n : Name) (s : Scope) : Scope := { s with directive := schema.directive? n }

/-- An argument has the type that is declared for it, if that is an input type. -/
def ofArgument (n : Name) (s : Scope) : Scope :=
  s.withInput (keep schema TypeKind.isInput (declaredType s.declaredArguments n))

/-- The items of a list literal are written against the items of its type, if these are of an input
type; a `!` around the list does not count. -/
def ofList (s : Scope) : Scope :=
  s.withInput (keep schema TypeKind.isInput (s.position.input.map fun t ↦ itemsOf t.nullable))

/-- A field of an object literal has the type that the input object declares for it, if that is an
input type. -/
def ofObjectField (n : Name) (s : Scope) : Scope :=
  s.withInput (keep schema TypeKind.isInput
    ((s.position.input.bind fun t ↦ schema.inputObject? t.core).bind fun fields ↦
      declaredType fields n))

end Scope

/-- A node, with what is settled for it. -/
structure Place where
  node : Node
  scope : Scope

namespace Place

variable (schema : Schema) (s : Scope)

/-- A value in a scope.  What is asked about a list literal concerns its items. -/
def ofValue (v : Value) : Place :=
  match v with
  | .list items => ⟨.value (.list items), s.ofList schema⟩
  | v => ⟨.value v, s⟩

/-- A field of an object literal that is written in a scope. -/
def ofObjectField (field : Name × Value) : Place :=
  ⟨.objectField field.1 field.2, s.ofObjectField schema field.1⟩

/-- An argument in a scope. -/
def ofArgument (a : Argument) : Place := ⟨.argument a, s.ofArgument schema a.name⟩

/-- The declaration of a variable in a scope. -/
def ofVariable (v : VariableDefinition) : Place :=
  ⟨.variableDefinition v, s.ofVariable schema v.type⟩

/-- A directive in a scope. -/
def ofDirective (d : Directive) : Place := ⟨.directive d, s⟩

/-- An item of a selection set in the scope of that set. -/
def ofSelection (selection : Selection) : Place :=
  ⟨.selection selection,
    match selection with
    | .field _ n _ _ _ => s.ofField schema n
    | .spread _ _ => s
    | .inline condition _ _ => s.ofFragment schema condition⟩

/-- The items of the selection set of a node with this scope. -/
def ofSelections (selections : List Selection) : List Place :=
  selections.map (ofSelection schema (s.ofSelections schema))

/-- The place of a definition.  There is nothing to ask about the type system. -/
def ofDefinition? : Definition → Option Place
  | .operation op => some ⟨.operation op, Scope.outside.ofOperation schema op.kind⟩
  | .fragment f => some ⟨.fragmentDefinition f, Scope.outside.ofFragment schema (some f.condition)⟩
  | .typeSystem _ => none

/-- The places directly below a place, in the order of the text. -/
def parts (p : Place) : List Place :=
  match p.node with
  | .operation op =>
    op.declarations.map (ofVariable schema p.scope) ++
      (op.directives.map (ofDirective p.scope) ++ ofSelections schema p.scope op.selections)
  | .variableDefinition v =>
    ofValue schema p.scope (.var v.name) ::
      (v.defaultValue.toList.map (ofValue schema p.scope) ++
        v.directives.map (ofDirective p.scope))
  | .fragmentDefinition f =>
    f.directives.map (ofDirective p.scope) ++ ofSelections schema p.scope f.selections
  | .selection (.field _ _ arguments directives selections) =>
    arguments.map (ofArgument schema p.scope) ++
      (directives.map (ofDirective p.scope) ++ ofSelections schema p.scope selections)
  | .selection (.spread _ directives) => directives.map (ofDirective p.scope)
  | .selection (.inline _ directives selections) =>
    directives.map (ofDirective p.scope) ++ ofSelections schema p.scope selections
  | .argument a => [ofValue schema p.scope a.value]
  | .directive d => d.arguments.map (ofArgument schema (p.scope.ofDirective schema d.name))
  | .value (.list items) => items.map (ofValue schema p.scope)
  | .value (.object fields) => fields.map (ofObjectField schema p.scope)
  | .value _ => []
  | .objectField _ v => [ofValue schema p.scope v]

end Place

namespace Place

variable {schema : Schema} {s : Scope}

@[simp] theorem node_ofValue (v : Value) : (ofValue schema s v).node = .value v := by
  cases v <;> rfl

@[simp] theorem parts_operation (op : Operation) :
    parts schema ⟨.operation op, s⟩ =
      op.declarations.map (ofVariable schema s) ++
        (op.directives.map (ofDirective s) ++ ofSelections schema s op.selections) := rfl

@[simp] theorem parts_variableDefinition (v : VariableDefinition) :
    parts schema ⟨.variableDefinition v, s⟩ =
      ofValue schema s (.var v.name) ::
        (v.defaultValue.toList.map (ofValue schema s) ++ v.directives.map (ofDirective s)) := rfl

@[simp] theorem parts_fragmentDefinition (f : Fragment) :
    parts schema ⟨.fragmentDefinition f, s⟩ =
      f.directives.map (ofDirective s) ++ ofSelections schema s f.selections := rfl

@[simp] theorem parts_field (responseName : Option Name) (n : Name) (arguments : List Argument)
    (directives : List Directive) (selections : List Selection) :
    parts schema ⟨.selection (.field responseName n arguments directives selections), s⟩ =
      arguments.map (ofArgument schema s) ++
        (directives.map (ofDirective s) ++ ofSelections schema s selections) := rfl

@[simp] theorem parts_spread (n : Name) (directives : List Directive) :
    parts schema ⟨.selection (.spread n directives), s⟩ = directives.map (ofDirective s) := rfl

@[simp] theorem parts_inline (condition : Option Name) (directives : List Directive)
    (selections : List Selection) :
    parts schema ⟨.selection (.inline condition directives selections), s⟩ =
      directives.map (ofDirective s) ++ ofSelections schema s selections := rfl

@[simp] theorem parts_argument (a : Argument) :
    parts schema ⟨.argument a, s⟩ = [ofValue schema s a.value] := rfl

@[simp] theorem parts_directive (d : Directive) :
    parts schema ⟨.directive d, s⟩ =
      d.arguments.map (ofArgument schema (s.ofDirective schema d.name)) := rfl

@[simp] theorem parts_list (items : List Value) :
    parts schema ⟨.value (.list items), s⟩ = items.map (ofValue schema s) := rfl

@[simp] theorem parts_object (fields : List (Name × Value)) :
    parts schema ⟨.value (.object fields), s⟩ = fields.map (ofObjectField schema s) := rfl

@[simp] theorem parts_objectField (n : Name) (v : Value) :
    parts schema ⟨.objectField n v, s⟩ = [ofValue schema s v] := rfl

/-! ## Below a place there is less text -/

theorem sizeOf_of_mem_ofDirective {ds : List Directive} {q : Place}
    (h : q ∈ ds.map (ofDirective s)) : sizeOf q.node ≤ sizeOf ds := by
  obtain ⟨d, hd, rfl⟩ := List.mem_map.1 h
  have := List.sizeOf_lt_of_mem hd
  simp only [ofDirective, Node.directive.sizeOf_spec]
  omega

theorem sizeOf_of_mem_ofArgument {as : List Argument} {q : Place}
    (h : q ∈ as.map (ofArgument schema s)) : sizeOf q.node ≤ sizeOf as := by
  obtain ⟨a, ha, rfl⟩ := List.mem_map.1 h
  have := List.sizeOf_lt_of_mem ha
  simp only [ofArgument, Node.argument.sizeOf_spec]
  omega

theorem sizeOf_of_mem_ofVariable {vs : List VariableDefinition} {q : Place}
    (h : q ∈ vs.map (ofVariable schema s)) : sizeOf q.node ≤ sizeOf vs := by
  obtain ⟨v, hv, rfl⟩ := List.mem_map.1 h
  have := List.sizeOf_lt_of_mem hv
  simp only [ofVariable, Node.variableDefinition.sizeOf_spec]
  omega

theorem sizeOf_of_mem_ofSelections {ss : List Selection} {q : Place}
    (h : q ∈ ofSelections schema s ss) : sizeOf q.node ≤ sizeOf ss := by
  obtain ⟨x, hx, rfl⟩ := List.mem_map.1 h
  have := List.sizeOf_lt_of_mem hx
  simp only [ofSelection, Node.selection.sizeOf_spec]
  omega

theorem sizeOf_of_mem_ofValue {vs : List Value} {q : Place}
    (h : q ∈ vs.map (ofValue schema s)) : sizeOf q.node ≤ sizeOf vs := by
  obtain ⟨v, hv, rfl⟩ := List.mem_map.1 h
  have := List.sizeOf_lt_of_mem hv
  simp only [node_ofValue, Node.value.sizeOf_spec]
  omega

theorem sizeOf_of_mem_ofObjectField {fields : List (Name × Value)} {q : Place}
    (h : q ∈ fields.map (ofObjectField schema s)) : sizeOf q.node ≤ sizeOf fields := by
  obtain ⟨⟨n, v⟩, hv, rfl⟩ := List.mem_map.1 h
  have := List.sizeOf_lt_of_mem hv
  simp only [ofObjectField, Node.objectField.sizeOf_spec, Prod.mk.sizeOf_spec] at this ⊢
  omega

theorem sizeOf_lt_of_mem_parts {p q : Place} (h : q ∈ p.parts schema) :
    sizeOf q.node < sizeOf p.node := by
  obtain ⟨node, scope⟩ := p
  cases node with
  | operation op =>
    obtain ⟨kind, name, declarations, directives, selections⟩ := op
    simp only [parts_operation, List.mem_append] at h
    simp only [Node.operation.sizeOf_spec, Operation.mk.sizeOf_spec]
    rcases h with h | h | h
    · have := sizeOf_of_mem_ofVariable h; omega
    · have := sizeOf_of_mem_ofDirective h; omega
    · have := sizeOf_of_mem_ofSelections h; omega
  | variableDefinition v =>
    obtain ⟨n, type, default, directives⟩ := v
    simp only [parts_variableDefinition, List.mem_append, List.mem_cons] at h
    simp only [Node.variableDefinition.sizeOf_spec, VariableDefinition.mk.sizeOf_spec]
    rcases h with rfl | h | h
    · simp only [node_ofValue, Node.value.sizeOf_spec, Value.var.sizeOf_spec]
      have : 0 < sizeOf type := by
        cases type <;> simp only [TypeRef.named.sizeOf_spec, TypeRef.list.sizeOf_spec] <;> omega
      omega
    · cases default with
      | none => simp at h
      | some v =>
        obtain rfl : q = ofValue schema scope v := by simpa using h
        simp only [node_ofValue, Node.value.sizeOf_spec, Option.some.sizeOf_spec]
        omega
    · have := sizeOf_of_mem_ofDirective h; omega
  | fragmentDefinition f =>
    obtain ⟨n, condition, directives, selections⟩ := f
    simp only [parts_fragmentDefinition, List.mem_append] at h
    simp only [Node.fragmentDefinition.sizeOf_spec, Fragment.mk.sizeOf_spec]
    rcases h with h | h
    · have := sizeOf_of_mem_ofDirective h; omega
    · have := sizeOf_of_mem_ofSelections h; omega
  | selection x =>
    cases x with
    | field responseName n arguments directives selections =>
      simp only [parts_field, List.mem_append] at h
      simp only [Node.selection.sizeOf_spec, Selection.field.sizeOf_spec]
      rcases h with h | h | h
      · have := sizeOf_of_mem_ofArgument h; omega
      · have := sizeOf_of_mem_ofDirective h; omega
      · have := sizeOf_of_mem_ofSelections h; omega
    | spread n directives =>
      have : sizeOf q.node ≤ sizeOf directives := sizeOf_of_mem_ofDirective h
      simp only [Node.selection.sizeOf_spec, Selection.spread.sizeOf_spec]
      omega
    | inline condition directives selections =>
      simp only [parts_inline, List.mem_append] at h
      simp only [Node.selection.sizeOf_spec, Selection.inline.sizeOf_spec]
      rcases h with h | h
      · have := sizeOf_of_mem_ofDirective h; omega
      · have := sizeOf_of_mem_ofSelections h; omega
  | argument a =>
    obtain ⟨n, v⟩ := a
    obtain rfl : q = ofValue schema scope v := by simpa using h
    simp only [node_ofValue, Node.value.sizeOf_spec, Node.argument.sizeOf_spec,
      Argument.mk.sizeOf_spec]
    omega
  | directive d =>
    obtain ⟨n, arguments⟩ := d
    have : sizeOf q.node ≤ sizeOf arguments := sizeOf_of_mem_ofArgument h
    simp only [Node.directive.sizeOf_spec, Directive.mk.sizeOf_spec]
    omega
  | value v =>
    cases v with
    | list items =>
      have : sizeOf q.node ≤ sizeOf items := sizeOf_of_mem_ofValue h
      simp only [Node.value.sizeOf_spec, Value.list.sizeOf_spec]
      omega
    | object fields =>
      have : sizeOf q.node ≤ sizeOf fields := sizeOf_of_mem_ofObjectField h
      simp only [Node.value.sizeOf_spec, Value.object.sizeOf_spec]
      omega
    | _ => simp [parts] at h
  | objectField n v =>
    obtain rfl : q = ofValue schema scope v := by simpa using h
    simp only [node_ofValue, Node.value.sizeOf_spec, Node.objectField.sizeOf_spec]
    have : 0 < sizeOf n := by cases n; simp only [Name.mk.sizeOf_spec]; omega
    omega

/-- What holds of a place as soon as it holds of all places directly below holds everywhere. -/
@[elab_as_elim]
theorem parts_induction (schema : Schema) {motive : Place → Prop}
    (step : ∀ p : Place, (∀ q ∈ p.parts schema, motive q) → motive p) (p : Place) : motive p :=
  step p fun q hq ↦
    have := sizeOf_lt_of_mem_parts hq
    parts_induction schema step q
termination_by sizeOf p.node

end Place

/-! ## Consultations -/

section

variable (schema : Schema) (rules : Rules)

/-- The consultation at a place. -/
def Place.call (p : Place) : Call := ⟨p.node, p.scope.position, rules p.node p.scope.position⟩

/-- Whether the rule passes over what is below a place. -/
def Place.skips (p : Place) : Bool := (p.call rules).recorded.skipChildren

/-- The consultation at a place, and those below it unless the rule passes over them. -/
def callsOf (p : Place) : List Call :=
  p.call rules :: if p.skips rules then [] else (p.parts schema).attach.flatMap fun q ↦ callsOf q.1
termination_by sizeOf p.node
decreasing_by exact Place.sizeOf_lt_of_mem_parts q.2

theorem callsOf_eq (p : Place) :
    callsOf schema rules p =
      p.call rules ::
        if p.skips rules then [] else (p.parts schema).flatMap (callsOf schema rules) := by
  rw [callsOf, List.flatMap_subtype fun _ _ ↦ rfl, List.unattach_attach]

/-- The consultations in a document. -/
def callsOfDocument (document : Document) : List Call :=
  (document.filterMap (Place.ofDefinition? schema)).flatMap (callsOf schema rules)

end

end TypeFootprint
