import TypeFootprint.Proofs.Lists
import TypeFootprint.Proofs.Schema.Unwrapped

/-!
# Walks through the same text, up to wrappers

Two schemas and two documents may differ in the wrappers of the types they declare and in nothing
else.  Walks through them go in step: at corresponding places the types in force have the same
cores.  A list literal peels wrappers off and a single item may stand for a list, but neither
changes a core, and whether a type is kept is decided by its core.

* `Scope.SameCores` is the relation between scopes; there is one lemma for each scope rule.
* `Place.parts_sameCores` — corresponding places have corresponding parts, in the same order.

Meta fields are why this is a relation between two scopes: their types keep their marks in a schema
whose types are unwrapped, so unwrapping a schema does not unwrap a scope.
-/

set_option autoImplicit false

namespace TypeFootprint

/-! ## Documents without wrappers -/

/-- The declaration with its type unwrapped. -/
def VariableDefinition.unwrapped (v : VariableDefinition) : VariableDefinition :=
  { v with type := v.type.unwrapped }

/-- The operation with the types of its variables unwrapped. -/
def Operation.unwrapped (op : Operation) : Operation :=
  { op with declarations := op.declarations.map VariableDefinition.unwrapped }

/-- The definition with the types of all variables unwrapped. -/
def Definition.unwrapped : Definition → Definition
  | operation op => operation op.unwrapped
  | fragment f => fragment f
  | typeSystem d => typeSystem d

/-- The document with the types of all variables unwrapped. -/
def Document.unwrapped (document : Document) : Document := document.map Definition.unwrapped

theorem Document.fragments_unwrapped (document : Document) :
    document.unwrapped.fragments = document.fragments := by
  rw [fragments, unwrapped, List.filterMap_map, fragments]
  refine List.filterMap_congr fun d _ ↦ ?_
  cases d <;> rfl

variable {schema schema' : Schema} {p p' : Place} {s s' : Scope} {t t' : Option TypeRef}

/-! ## The same cores in force -/

/-- The types in force have the same cores. -/
structure Position.SameCores (p p' : Position) : Prop where
  output : p.output.map TypeRef.core = p'.output.map TypeRef.core
  parentOutput : p.parentOutput.map TypeRef.core = p'.parentOutput.map TypeRef.core
  input : p.input.map TypeRef.core = p'.input.map TypeRef.core
  parentInput : p.parentInput.map TypeRef.core = p'.parentInput.map TypeRef.core

/-- The types in force have the same cores, and the definitions that arguments are looked up in are
the same unwrapped. -/
structure Scope.SameCores (s s' : Scope) : Prop where
  position : s.position.SameCores s'.position
  field : s.field.map FieldDefinition.unwrapped = s'.field.map FieldDefinition.unwrapped
  directive :
    s.directive.map DirectiveDefinition.unwrapped = s'.directive.map DirectiveDefinition.unwrapped

namespace Scope

theorem SameCores.refl (s : Scope) : s.SameCores s := ⟨⟨rfl, rfl, rfl, rfl⟩, rfl, rfl⟩

theorem SameCores.withOutput (h : s.SameCores s') (ht : t.map TypeRef.core = t'.map TypeRef.core) :
    (s.withOutput t).SameCores (s'.withOutput t') :=
  { h with position := { h.position with output := ht } }

theorem SameCores.withOwner (h : s.SameCores s') (ht : t.map TypeRef.core = t'.map TypeRef.core) :
    (s.withOwner t).SameCores (s'.withOwner t') :=
  { h with position := { h.position with parentOutput := ht } }

theorem SameCores.withInput (h : s.SameCores s') (ht : t.map TypeRef.core = t'.map TypeRef.core) :
    (s.withInput t).SameCores (s'.withInput t') :=
  { h with position := { h.position with input := ht, parentInput := h.position.input } }

/-- Whether a type is kept depends on its core. -/
theorem map_core_keep (kind : TypeKind → Bool) (t : Option TypeRef) :
    (keep schema kind t).map TypeRef.core = (t.map TypeRef.core).filter (schema.hasKind kind) := by
  rw [keep, Option.filter_map]
  rfl

theorem map_unwrapped_declaredArguments (s : Scope) :
    s.declaredArguments.map InputValue.unwrapped
      = declaredArguments
          { outside with
            field := s.field.map .unwrapped
            directive := s.directive.map .unwrapped } := by
  obtain ⟨position, field, directive⟩ := s
  cases directive with
  | some d => rfl
  | none => cases field <;> rfl

theorem SameCores.declaredArguments (h : s.SameCores s') :
    s.declaredArguments.map InputValue.unwrapped
      = s'.declaredArguments.map InputValue.unwrapped := by
  rw [map_unwrapped_declaredArguments, h.field, h.directive, map_unwrapped_declaredArguments]

theorem map_core_declaredType (declared : List InputValue) (n : Name) :
    (declaredType declared n).map TypeRef.core
      = (declaredType (declared.map InputValue.unwrapped) n).map TypeRef.core := by
  rw [declaredType, declaredType, List.find?_map, Option.map_map, Option.map_map, Option.map_map]
  rfl

theorem map_core_declaredType_congr {declared declared' : List InputValue}
    (h : declared.map InputValue.unwrapped = declared'.map InputValue.unwrapped) (n : Name) :
    (declaredType declared n).map TypeRef.core = (declaredType declared' n).map TypeRef.core := by
  rw [map_core_declaredType, h, ← map_core_declaredType]

/-! ## The scope rules -/

section

variable (hschema : schema.unwrapped = schema'.unwrapped)
include hschema

theorem map_core_keep_congr (kind : TypeKind → Bool)
    (h : t.map TypeRef.core = t'.map TypeRef.core) :
    (keep schema kind t).map TypeRef.core = (keep schema' kind t').map TypeRef.core := by
  rw [map_core_keep, h, Schema.hasKind_congr hschema, map_core_keep]

namespace SameCores

theorem ofOperation (h : s.SameCores s') (kind : OperationKind) :
    (s.ofOperation schema kind).SameCores (s'.ofOperation schema' kind) := by
  refine h.withOutput (map_core_keep_congr hschema _ ?_)
  rw [Schema.roots_congr hschema]

theorem ofFragment (h : s.SameCores s') (condition : Option Name) :
    (s.ofFragment schema condition).SameCores (s'.ofFragment schema' condition) := by
  refine h.withOutput (map_core_keep_congr hschema _ ?_)
  rw [h.position.output]

theorem ofSelections (h : s.SameCores s') :
    (s.ofSelections schema).SameCores (s'.ofSelections schema') := by
  refine h.withOwner (map_core_keep_congr hschema _ ?_)
  rw [Option.map_map, Option.map_map]
  exact h.position.output

theorem ofVariable (h : s.SameCores s') {type type' : TypeRef} (htype : type.core = type'.core) :
    (s.ofVariable schema type).SameCores (s'.ofVariable schema' type') :=
  h.withInput (map_core_keep_congr hschema _ (congrArg some htype))

theorem ofDirective (h : s.SameCores s') (n : Name) :
    (s.ofDirective schema n).SameCores (s'.ofDirective schema' n) :=
  { h with directive := Schema.directive?_congr hschema n }

theorem ofArgument (h : s.SameCores s') (n : Name) :
    (s.ofArgument schema n).SameCores (s'.ofArgument schema' n) :=
  h.withInput (map_core_keep_congr hschema _ (map_core_declaredType_congr h.declaredArguments n))

/-- A list literal peels off one layer of wrappers, whatever it is. -/
theorem ofList (h : s.SameCores s') : (s.ofList schema).SameCores (s'.ofList schema') := by
  have hitems : TypeRef.core ∘ (fun t ↦ itemsOf t.nullable) = TypeRef.core :=
    funext core_itemsOf_nullable
  refine h.withInput (map_core_keep_congr hschema _ ?_)
  rw [Option.map_map, Option.map_map, hitems]
  exact h.position.input

/-- The owner of a field is looked up by its core. -/
theorem ofField (h : s.SameCores s') (n : Name) :
    (s.ofField schema n).SameCores (s'.ofField schema' n) := by
  have hfound (schema : Schema) (owner : Option TypeRef) :
      (owner.bind fun t ↦ schema.field? t.core n).map FieldDefinition.unwrapped
        = (owner.map TypeRef.core).bind fun m ↦ (schema.field? m n).map .unwrapped := by
    cases owner <;> rfl
  have hfield : (s.position.parentOutput.bind fun t ↦ schema.field? t.core n).map
        FieldDefinition.unwrapped
      = (s'.position.parentOutput.bind fun t ↦ schema'.field? t.core n).map .unwrapped := by
    rw [hfound, hfound, h.position.parentOutput]
    exact congrArg _ (funext fun m ↦ Schema.field?_congr hschema m n)
  have htype (f : Option FieldDefinition) : (f.map FieldDefinition.type).map TypeRef.core
      = (f.map FieldDefinition.unwrapped).map fun f ↦ f.type.core := by
    cases f <;> rfl
  have hkept := h.withOutput (map_core_keep_congr hschema TypeKind.isOutput
    ((htype _).trans ((congrArg _ hfield).trans (htype _).symm)))
  exact { hkept with field := hfield }

/-- An input object is looked up by the core of the type that its literal is written against. -/
theorem ofObjectField (h : s.SameCores s') (n : Name) :
    (s.ofObjectField schema n).SameCores (s'.ofObjectField schema' n) := by
  have hdeclared (schema : Schema) (input : Option TypeRef) :
      (((input.bind fun t ↦ schema.inputObject? t.core).bind fun fields ↦
          declaredType fields n)).map TypeRef.core
        = (input.map TypeRef.core).bind fun m ↦
          ((schema.inputObject? m).map (List.map InputValue.unwrapped)).bind fun fields ↦
            (declaredType fields n).map TypeRef.core := by
    cases input with
    | none => rfl
    | some t =>
      simp only [Option.bind_some, Option.map_some]
      cases schema.inputObject? t.core with
      | none => rfl
      | some fields => exact map_core_declaredType fields n
  refine h.withInput (map_core_keep_congr hschema _ ?_)
  rw [hdeclared, hdeclared, h.position.input]
  exact congrArg _ (funext fun m ↦ by rw [Schema.inputObject?_congr hschema])

end SameCores

end

end Scope

/-! ## Corresponding places -/

/-- The nodes are the same but for the types of variables. -/
inductive Node.SameCores : Node → Node → Prop
  | refl (node : Node) : SameCores node node
  | operation {op op' : Operation} (h : op.unwrapped = op'.unwrapped) :
    SameCores (.operation op) (.operation op')
  | variableDefinition {v v' : VariableDefinition} (h : v.unwrapped = v'.unwrapped) :
    SameCores (.variableDefinition v) (.variableDefinition v')

/-- The nodes are the same but for the types of variables, and the types in force have the same
cores. -/
structure Place.SameCores (p p' : Place) : Prop where
  node : p.node.SameCores p'.node
  scope : p.scope.SameCores p'.scope

namespace Place

section

variable (hschema : schema.unwrapped = schema'.unwrapped)
include hschema

theorem ofValue_sameCores (h : s.SameCores s') (v : Value) :
    (ofValue schema s v).SameCores (ofValue schema' s' v) := by
  cases v with
  | list items => exact ⟨.refl _, h.ofList hschema⟩
  | _ => exact ⟨.refl _, h⟩

theorem ofSelection_sameCores (h : s.SameCores s') (x : Selection) :
    (ofSelection schema s x).SameCores (ofSelection schema' s' x) := by
  cases x with
  | field responseName n arguments directives selections => exact ⟨.refl _, h.ofField hschema n⟩
  | spread n directives => exact ⟨.refl _, h⟩
  | inline condition directives selections => exact ⟨.refl _, h.ofFragment hschema condition⟩

theorem ofVariable_sameCores (h : s.SameCores s') {v v' : VariableDefinition}
    (hv : v.unwrapped = v'.unwrapped) :
    (ofVariable schema s v).SameCores (ofVariable schema' s' v') :=
  ⟨.variableDefinition hv, h.ofVariable hschema (congrArg (fun v ↦ v.type.core) hv)⟩

/-- **Corresponding places have corresponding parts.** -/
theorem parts_sameCores (h : p.SameCores p') :
    List.Forall₂ SameCores (p.parts schema) (p'.parts schema') := by
  obtain ⟨node, s⟩ := p
  obtain ⟨node', s'⟩ := p'
  obtain ⟨hnode, hscope⟩ := h
  have hdirectives {s s' : Scope} (h : s.SameCores s') (ds : List Directive) :
      List.Forall₂ SameCores (ds.map (ofDirective s)) (ds.map (ofDirective s')) :=
    forall₂_map_map fun d _ ↦ ⟨.refl _, h⟩
  have harguments {s s' : Scope} (h : s.SameCores s') (as : List Argument) :
      List.Forall₂ SameCores (as.map (ofArgument schema s)) (as.map (ofArgument schema' s')) :=
    forall₂_map_map fun a _ ↦ ⟨.refl _, h.ofArgument hschema a.name⟩
  have hvalues {s s' : Scope} (h : s.SameCores s') (vs : List Value) :
      List.Forall₂ SameCores (vs.map (ofValue schema s)) (vs.map (ofValue schema' s')) :=
    forall₂_map_map fun v _ ↦ ofValue_sameCores hschema h v
  have hselections {s s' : Scope} (h : s.SameCores s') (xs : List Selection) :
      List.Forall₂ SameCores (ofSelections schema s xs) (ofSelections schema' s' xs) :=
    forall₂_map_map fun x _ ↦ ofSelection_sameCores hschema (h.ofSelections hschema) x
  have hoperation {op op' : Operation} (hop : op.unwrapped = op'.unwrapped) :
      List.Forall₂ SameCores (parts schema ⟨.operation op, s⟩)
        (parts schema' ⟨.operation op', s'⟩) := by
    obtain ⟨kind, name, declarations, directives, selections⟩ := op
    obtain ⟨kind', name', declarations', directives', selections'⟩ := op'
    simp only [Operation.unwrapped, Operation.mk.injEq] at hop
    obtain ⟨rfl, rfl, hdeclarations, rfl, rfl⟩ := hop
    have hvariables : List.Forall₂ SameCores (declarations.map (ofVariable schema s))
        (declarations'.map (ofVariable schema' s')) := by
      rw [List.forall₂_map_left_iff, List.forall₂_map_right_iff]
      exact (forall₂_of_map_eq_map hdeclarations).imp fun _ _ hv ↦
        ofVariable_sameCores hschema hscope hv
    exact List.rel_append hvariables
      (List.rel_append (hdirectives hscope directives) (hselections hscope selections))
  have hvariable {v v' : VariableDefinition} (hv : v.unwrapped = v'.unwrapped) :
      List.Forall₂ SameCores (parts schema ⟨.variableDefinition v, s⟩)
        (parts schema' ⟨.variableDefinition v', s'⟩) := by
    obtain ⟨name, type, default, directives⟩ := v
    obtain ⟨name', type', default', directives'⟩ := v'
    simp only [VariableDefinition.unwrapped, VariableDefinition.mk.injEq] at hv
    obtain ⟨rfl, -, rfl, rfl⟩ := hv
    exact .cons (ofValue_sameCores hschema hscope _)
      (List.rel_append (hvalues hscope default.toList) (hdirectives hscope directives))
  cases hnode with
  | operation hop => exact hoperation hop
  | variableDefinition hv => exact hvariable hv
  | refl =>
    cases node with
    | operation op => exact hoperation rfl
    | variableDefinition v => exact hvariable rfl
    | fragmentDefinition f =>
      exact List.rel_append (hdirectives hscope f.directives) (hselections hscope f.selections)
    | selection x =>
      cases x with
      | field responseName n arguments directives selections =>
        exact List.rel_append (harguments hscope arguments)
          (List.rel_append (hdirectives hscope directives) (hselections hscope selections))
      | spread n directives => exact hdirectives hscope directives
      | inline condition directives selections =>
        exact List.rel_append (hdirectives hscope directives) (hselections hscope selections)
    | argument a => exact hvalues hscope [a.value]
    | directive d => exact harguments (hscope.ofDirective hschema d.name) d.arguments
    | value v =>
      cases v with
      | list items => exact hvalues hscope items
      | object fields =>
        exact forall₂_map_map fun field _ ↦ ⟨.refl _, hscope.ofObjectField hschema field.1⟩
      | _ => exact .nil
    | objectField n v => exact hvalues hscope [v]

end

end Place

end TypeFootprint
