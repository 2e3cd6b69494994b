import Mathlib.Data.List.Forall2
import TypeFootprint.Proofs.Inference.Visits
import TypeFootprint.Proofs.Schema.Extension

/-!
# Documents that are parts of others

A document may be cut down by deleting definitions, declarations of variables, default values,
directives, arguments, selections, items of list literals and fields of object literals, anywhere
and as many as one likes.  `Document.RemainsOf` says that one document is left of another one.

The places of the smaller document are places of the larger one, and since a scope is handed down
from above, a deletion beside a place does not change what is in force there.  A schema that extends
the one of the smaller document may know more, so what is in force in the smaller document is
`Below` what is in force in the larger one: the same, or unknown.

* `Scope.ofField_below` and its companions — the scope rules keep this;
* `Place.parts_below` — below corresponding places, every place of the smaller document corresponds
  to one of the larger document.

What remains of a list is said with `List.SublistForall₂`: some items are deleted, and of each other
item something remains.
-/

set_option autoImplicit false

namespace TypeFootprint

/-! ## Deletions -/

/-- Fields of object literals that have one name and related values. -/
inductive UnderOneName (R : Value → Value → Prop) : Name × Value → Name × Value → Prop
  | mk (n : Name) {v v' : Value} (h : R v v') : UnderOneName R (n, v) (n, v')

/-- The value is left of the other one after deletions inside of it. -/
inductive Value.RemainsOf : Value → Value → Prop
  | refl (v : Value) : RemainsOf v v
  | list {vs ws : List Value} (h : List.SublistForall₂ RemainsOf vs ws) :
    RemainsOf (.list vs) (.list ws)
  | object {fields fields' : List (Name × Value)}
      (h : List.SublistForall₂ (UnderOneName RemainsOf) fields fields') :
    RemainsOf (.object fields) (.object fields')

/-- The argument is left of the other one. -/
structure Argument.RemainsOf (a a' : Argument) : Prop where
  name : a.name = a'.name
  value : a.value.RemainsOf a'.value

/-- The directive is left of the other one. -/
structure Directive.RemainsOf (d d' : Directive) : Prop where
  name : d.name = d'.name
  arguments : List.SublistForall₂ Argument.RemainsOf d.arguments d'.arguments

/-- The item of a selection set is left of the other one. -/
inductive Selection.RemainsOf : Selection → Selection → Prop
  | field (responseName : Option Name) (n : Name) {arguments arguments' : List Argument}
      {directives directives' : List Directive} {selections selections' : List Selection}
      (harguments : List.SublistForall₂ Argument.RemainsOf arguments arguments')
      (hdirectives : List.SublistForall₂ Directive.RemainsOf directives directives')
      (hselections : List.SublistForall₂ RemainsOf selections selections') :
    RemainsOf (.field responseName n arguments directives selections)
      (.field responseName n arguments' directives' selections')
  | spread (n : Name) {directives directives' : List Directive}
      (hdirectives : List.SublistForall₂ Directive.RemainsOf directives directives') :
    RemainsOf (.spread n directives) (.spread n directives')
  | inline (condition : Option Name) {directives directives' : List Directive}
      {selections selections' : List Selection}
      (hdirectives : List.SublistForall₂ Directive.RemainsOf directives directives')
      (hselections : List.SublistForall₂ RemainsOf selections selections') :
    RemainsOf (.inline condition directives selections) (.inline condition directives' selections')

/-- The declaration of a variable is left of the other one, perhaps without its default value. -/
structure VariableDefinition.RemainsOf (v v' : VariableDefinition) : Prop where
  name : v.name = v'.name
  type : v.type = v'.type
  defaultValue :
    List.SublistForall₂ Value.RemainsOf v.defaultValue.toList v'.defaultValue.toList
  directives : List.SublistForall₂ Directive.RemainsOf v.directives v'.directives

/-- The operation is left of the other one. -/
structure Operation.RemainsOf (op op' : Operation) : Prop where
  kind : op.kind = op'.kind
  name : op.name = op'.name
  declarations :
    List.SublistForall₂ VariableDefinition.RemainsOf op.declarations op'.declarations
  directives : List.SublistForall₂ Directive.RemainsOf op.directives op'.directives
  selections : List.SublistForall₂ Selection.RemainsOf op.selections op'.selections

/-- The fragment is left of the other one. -/
structure Fragment.RemainsOf (f f' : Fragment) : Prop where
  name : f.name = f'.name
  condition : f.condition = f'.condition
  directives : List.SublistForall₂ Directive.RemainsOf f.directives f'.directives
  selections : List.SublistForall₂ Selection.RemainsOf f.selections f'.selections

/-- The definition is left of the other one. -/
inductive Definition.RemainsOf : Definition → Definition → Prop
  | operation {op op' : Operation} (h : op.RemainsOf op') :
    RemainsOf (.operation op) (.operation op')
  | fragment {f f' : Fragment} (h : f.RemainsOf f') : RemainsOf (.fragment f) (.fragment f')
  | typeSystem (d : TypeSystemDefinition) : RemainsOf (.typeSystem d) (.typeSystem d)

/-- The document is left of the other one after some deletions. -/
def Document.RemainsOf (document document' : Document) : Prop :=
  List.SublistForall₂ Definition.RemainsOf document document'

/-! ### Lists -/

section Lists

variable {α β : Type} {R : α → β → Prop} {xs : List α} {ys : List β}

theorem exists_of_mem_sublistForall₂ (h : List.SublistForall₂ R xs ys) :
    ∀ x ∈ xs, ∃ y ∈ ys, R x y := by
  induction h with
  | nil => simp
  | cons hxy _ ih =>
    intro x hx
    rcases List.mem_cons.1 hx with rfl | hx
    · exact ⟨_, List.mem_cons_self, hxy⟩
    · obtain ⟨y, hy, hR⟩ := ih x hx
      exact ⟨y, List.mem_cons_of_mem _ hy, hR⟩
  | cons_right _ ih =>
    intro x hx
    obtain ⟨y, hy, hR⟩ := ih x hx
    exact ⟨y, List.mem_cons_of_mem _ hy, hR⟩

theorem sublistForall₂_self {R : α → α → Prop} (h : ∀ x ∈ xs, R x x) :
    List.SublistForall₂ R xs xs :=
  List.sublistForall₂_iff.2 ⟨xs, List.forall₂_same.2 h, List.Sublist.refl xs⟩

end Lists

/-! ### Deleting nothing -/

theorem Argument.RemainsOf.refl (a : Argument) : a.RemainsOf a := ⟨rfl, .refl _⟩

theorem Directive.RemainsOf.refl (d : Directive) : d.RemainsOf d :=
  ⟨rfl, sublistForall₂_self fun a _ ↦ .refl a⟩

theorem Selection.RemainsOf.refl (x : Selection) : x.RemainsOf x := by
  cases x with
  | field responseName n arguments directives selections =>
    refine .field responseName n (sublistForall₂_self fun a _ ↦ .refl a)
      (sublistForall₂_self fun d _ ↦ .refl d) (sublistForall₂_self fun y hy ↦ ?_)
    have := List.sizeOf_lt_of_mem hy
    exact Selection.RemainsOf.refl y
  | spread n directives => exact .spread n (sublistForall₂_self fun d _ ↦ .refl d)
  | inline condition directives selections =>
    refine .inline condition (sublistForall₂_self fun d _ ↦ .refl d)
      (sublistForall₂_self fun y hy ↦ ?_)
    have := List.sizeOf_lt_of_mem hy
    exact Selection.RemainsOf.refl y
termination_by sizeOf x

theorem VariableDefinition.RemainsOf.refl (v : VariableDefinition) : v.RemainsOf v :=
  ⟨rfl, rfl, sublistForall₂_self fun v _ ↦ .refl v, sublistForall₂_self fun d _ ↦ .refl d⟩

theorem Definition.RemainsOf.refl (d : Definition) : d.RemainsOf d := by
  cases d with
  | operation op =>
    exact .operation ⟨rfl, rfl, sublistForall₂_self fun v _ ↦ .refl v,
      sublistForall₂_self fun d _ ↦ .refl d, sublistForall₂_self fun x _ ↦ .refl x⟩
  | fragment f =>
    exact .fragment ⟨rfl, rfl, sublistForall₂_self fun d _ ↦ .refl d,
      sublistForall₂_self fun x _ ↦ .refl x⟩
  | typeSystem d => exact .typeSystem d

theorem Document.RemainsOf.refl (document : Document) : document.RemainsOf document :=
  sublistForall₂_self fun d _ ↦ .refl d

theorem Value.RemainsOf.of_list {vs : List Value} {w : Value} (h : (Value.list vs).RemainsOf w) :
    ∃ ws, w = .list ws ∧ List.SublistForall₂ Value.RemainsOf vs ws := by
  cases h with
  | refl => exact ⟨vs, rfl, sublistForall₂_self fun v _ ↦ .refl v⟩
  | list h => exact ⟨_, rfl, h⟩

theorem Value.RemainsOf.of_object {fields : List (Name × Value)} {w : Value}
    (h : (Value.object fields).RemainsOf w) :
    ∃ fields', w = .object fields' ∧
      List.SublistForall₂ (UnderOneName Value.RemainsOf) fields fields' := by
  cases h with
  | refl => exact ⟨fields, rfl, sublistForall₂_self fun f _ ↦ .mk f.1 (.refl f.2)⟩
  | object h => exact ⟨_, rfl, h⟩

variable {schema schema' : Schema} {p p' : Place} {s s' : Scope} {t t' : Option TypeRef}

/-! ## Types in force -/

/-- The types in force on the left are in force on the right. -/
structure Position.Below (p p' : Position) : Prop where
  output : TypeFootprint.Below p.output p'.output
  parentOutput : TypeFootprint.Below p.parentOutput p'.parentOutput
  input : TypeFootprint.Below p.input p'.input
  parentInput : TypeFootprint.Below p.parentInput p'.parentInput

/-- What is settled on the left is settled on the right.  Directives are known in both or in
neither, because an unknown directive leaves its arguments to the field around it. -/
structure Scope.Below (s s' : Scope) : Prop where
  position : s.position.Below s'.position
  field : TypeFootprint.Below s.field s'.field
  directive : s.directive = s'.directive

namespace Scope

theorem Below.refl (s : Scope) : s.Below s :=
  ⟨⟨.refl _, .refl _, .refl _, .refl _⟩, .refl _, rfl⟩

theorem Below.withOutput (h : s.Below s') (ht : TypeFootprint.Below t t') :
    (s.withOutput t).Below (s'.withOutput t') :=
  { h with position := { h.position with output := ht } }

theorem Below.withOwner (h : s.Below s') (ht : TypeFootprint.Below t t') :
    (s.withOwner t).Below (s'.withOwner t') :=
  { h with position := { h.position with parentOutput := ht } }

theorem Below.withInput (h : s.Below s') (ht : TypeFootprint.Below t t') :
    (s.withInput t).Below (s'.withInput t') :=
  { h with position := { h.position with input := ht, parentInput := h.position.input } }

/-- An argument that is declared on the left is declared on the right. -/
theorem Below.declaredType (h : s.Below s') (n : Name) :
    TypeFootprint.Below (Scope.declaredType s.declaredArguments n)
      (Scope.declaredType s'.declaredArguments n) := by
  obtain ⟨position, field, directive⟩ := s
  obtain ⟨position', field', directive'⟩ := s'
  obtain ⟨-, hfield, rfl⟩ := h
  cases directive with
  | some d => exact .refl _
  | none =>
    cases field with
    | none => exact .none_left _
    | some f =>
      obtain rfl : field' = some f := hfield f rfl
      exact .refl _

variable (hschema : schema.Extends schema')
include hschema

theorem ofOperation_below (h : s.Below s') (kind : OperationKind) :
    (s.ofOperation schema kind).Below (s'.ofOperation schema' kind) :=
  h.withOutput (keep_below hschema _ ((hschema.roots kind).map _))

theorem ofFragment_below (h : s.Below s') (condition : Option Name) :
    (s.ofFragment schema condition).Below (s'.ofFragment schema' condition) := by
  refine h.withOutput (keep_below hschema _ (TypeFootprint.Below.map ?_ _))
  cases condition with
  | none => exact h.position.output.map _
  | some n => exact .refl _

theorem ofSelections_below (h : s.Below s') :
    (s.ofSelections schema).Below (s'.ofSelections schema') :=
  h.withOwner (keep_below hschema _ (h.position.output.map _))

theorem ofField_below (h : s.Below s') (n : Name) :
    (s.ofField schema n).Below (s'.ofField schema' n) := by
  have hfield : TypeFootprint.Below
      (s.position.parentOutput.bind fun t ↦ schema.field? t.core n)
      (s'.position.parentOutput.bind fun t ↦ schema'.field? t.core n) :=
    h.position.parentOutput.bind fun t ↦ hschema.field?_below t.core n
  exact { h.withOutput (keep_below hschema _ (hfield.map _)) with field := hfield }

theorem ofVariable_below (h : s.Below s') (type : TypeRef) :
    (s.ofVariable schema type).Below (s'.ofVariable schema' type) :=
  h.withInput (keep_below hschema _ (.refl _))

theorem ofDirective_below (h : s.Below s') (n : Name) :
    (s.ofDirective schema n).Below (s'.ofDirective schema' n) :=
  { h with directive := hschema.directives n }

theorem ofArgument_below (h : s.Below s') (n : Name) :
    (s.ofArgument schema n).Below (s'.ofArgument schema' n) :=
  h.withInput (keep_below hschema _ (h.declaredType n))

theorem ofList_below (h : s.Below s') : (s.ofList schema).Below (s'.ofList schema') :=
  h.withInput (keep_below hschema _ (h.position.input.map _))

theorem ofObjectField_below (h : s.Below s') (n : Name) :
    (s.ofObjectField schema n).Below (s'.ofObjectField schema' n) := by
  refine h.withInput (keep_below hschema _ (TypeFootprint.Below.bind ?_ fun _ ↦ .refl _))
  exact h.position.input.bind fun t ↦ hschema.inputObject?_below t.core

end Scope

/-! ## Places -/

/-- The node is left of the other one. -/
inductive Node.RemainsOf : Node → Node → Prop
  | operation {op op' : Operation} (h : op.RemainsOf op') :
    RemainsOf (.operation op) (.operation op')
  | variableDefinition {v v' : VariableDefinition} (h : v.RemainsOf v') :
    RemainsOf (.variableDefinition v) (.variableDefinition v')
  | fragmentDefinition {f f' : Fragment} (h : f.RemainsOf f') :
    RemainsOf (.fragmentDefinition f) (.fragmentDefinition f')
  | selection {x x' : Selection} (h : x.RemainsOf x') : RemainsOf (.selection x) (.selection x')
  | argument {a a' : Argument} (h : a.RemainsOf a') : RemainsOf (.argument a) (.argument a')
  | directive {d d' : Directive} (h : d.RemainsOf d') : RemainsOf (.directive d) (.directive d')
  | value {v v' : Value} (h : v.RemainsOf v') : RemainsOf (.value v) (.value v')
  | objectField (n : Name) {v v' : Value} (h : v.RemainsOf v') :
    RemainsOf (.objectField n v) (.objectField n v')

/-- The place on the left is left of the one on the right, and what is settled for it is settled
there. -/
structure Place.Below (p p' : Place) : Prop where
  node : p.node.RemainsOf p'.node
  scope : p.scope.Below p'.scope

namespace Place

/-- Every place on the left corresponds to one on the right. -/
def AllBelow (ps ps' : List Place) : Prop := ∀ p ∈ ps, ∃ p' ∈ ps', p.Below p'

theorem AllBelow.append {ps qs ps' qs' : List Place} (h : AllBelow ps ps') (h' : AllBelow qs qs') :
    AllBelow (ps ++ qs) (ps' ++ qs') := by
  intro p hp
  rcases List.mem_append.1 hp with hp | hp
  · obtain ⟨p', hp', hbelow⟩ := h p hp
    exact ⟨p', List.mem_append_left _ hp', hbelow⟩
  · obtain ⟨p', hp', hbelow⟩ := h' p hp
    exact ⟨p', List.mem_append_right _ hp', hbelow⟩

theorem allBelow_map {α : Type} {R : α → α → Prop} {xs ys : List α} {f g : α → Place}
    (h : List.SublistForall₂ R xs ys) (hR : ∀ x y, R x y → (f x).Below (g y)) :
    AllBelow (xs.map f) (ys.map g) := by
  intro p hp
  obtain ⟨x, hx, rfl⟩ := List.mem_map.1 hp
  obtain ⟨y, hy, hxy⟩ := exists_of_mem_sublistForall₂ h x hx
  exact ⟨g y, List.mem_map_of_mem hy, hR x y hxy⟩

theorem allBelow_singleton (h : p.Below p') : AllBelow [p] [p'] := by
  intro q hq
  obtain rfl := List.mem_singleton.1 hq
  exact ⟨p', List.mem_singleton_self p', h⟩

theorem ofDirective_below (h : s.Below s') {d d' : Directive} (hd : d.RemainsOf d') :
    (ofDirective s d).Below (ofDirective s' d') := ⟨.directive hd, h⟩

variable (hschema : schema.Extends schema')
include hschema

theorem ofValue_below (h : s.Below s') {v v' : Value} (hv : v.RemainsOf v') :
    (ofValue schema s v).Below (ofValue schema' s' v') := by
  cases v with
  | list vs =>
    obtain ⟨ws, rfl, -⟩ := hv.of_list
    exact ⟨.value hv, Scope.ofList_below hschema h⟩
  | object fields =>
    obtain ⟨fields', rfl, -⟩ := hv.of_object
    exact ⟨.value hv, h⟩
  | _ =>
    cases hv
    exact ⟨.value (.refl _), h⟩

theorem ofObjectField_below (h : s.Below s') {f f' : Name × Value}
    (hf : UnderOneName Value.RemainsOf f f') :
    (ofObjectField schema s f).Below (ofObjectField schema' s' f') := by
  obtain ⟨n, hvalue⟩ := hf
  exact ⟨.objectField n hvalue, Scope.ofObjectField_below hschema h n⟩

theorem ofArgument_below (h : s.Below s') {a a' : Argument} (ha : a.RemainsOf a') :
    (ofArgument schema s a).Below (ofArgument schema' s' a') := by
  refine ⟨.argument ha, ?_⟩
  rw [ofArgument, ofArgument, ha.name]
  exact Scope.ofArgument_below hschema h a'.name

theorem ofVariable_below (h : s.Below s') {v v' : VariableDefinition} (hv : v.RemainsOf v') :
    (ofVariable schema s v).Below (ofVariable schema' s' v') := by
  refine ⟨.variableDefinition hv, ?_⟩
  rw [ofVariable, ofVariable, hv.type]
  exact Scope.ofVariable_below hschema h v'.type

theorem ofSelection_below (h : s.Below s') {x x' : Selection} (hx : x.RemainsOf x') :
    (ofSelection schema s x).Below (ofSelection schema' s' x') := by
  refine ⟨.selection hx, ?_⟩
  cases hx with
  | field responseName n => exact Scope.ofField_below hschema h n
  | spread n => exact h
  | inline condition => exact Scope.ofFragment_below hschema h condition

theorem ofSelections_below (h : s.Below s') {xs xs' : List Selection}
    (hxs : List.SublistForall₂ Selection.RemainsOf xs xs') :
    AllBelow (ofSelections schema s xs) (ofSelections schema' s' xs') :=
  allBelow_map hxs fun _ _ hx ↦
    ofSelection_below hschema (Scope.ofSelections_below hschema h) hx

/-- **Below corresponding places every place of the smaller document corresponds to one of the
larger document.** -/
theorem parts_below (h : p.Below p') : AllBelow (p.parts schema) (p'.parts schema') := by
  obtain ⟨node, s⟩ := p
  obtain ⟨node', s'⟩ := p'
  obtain ⟨hnode, hscope⟩ := h
  have hdirectives {s s' : Scope} (h : s.Below s') {ds ds' : List Directive}
      (hds : List.SublistForall₂ Directive.RemainsOf ds ds') :
      AllBelow (ds.map (ofDirective s)) (ds'.map (ofDirective s')) :=
    allBelow_map hds fun _ _ hd ↦ ofDirective_below h hd
  have harguments {s s' : Scope} (h : s.Below s') {as as' : List Argument}
      (has : List.SublistForall₂ Argument.RemainsOf as as') :
      AllBelow (as.map (ofArgument schema s)) (as'.map (ofArgument schema' s')) :=
    allBelow_map has fun _ _ ha ↦ ofArgument_below hschema h ha
  have hvalues {vs vs' : List Value} (hvs : List.SublistForall₂ Value.RemainsOf vs vs') :
      AllBelow (vs.map (ofValue schema s)) (vs'.map (ofValue schema' s')) :=
    allBelow_map hvs fun _ _ hv ↦ ofValue_below hschema hscope hv
  cases hnode with
  | operation h =>
    have hvariables := allBelow_map h.declarations fun _ _ hv ↦
      ofVariable_below hschema hscope hv
    exact hvariables.append ((hdirectives hscope h.directives).append
      (ofSelections_below hschema hscope h.selections))
  | @variableDefinition v v' h =>
    have hvalue : AllBelow [ofValue schema s (.var v.name)]
        [ofValue schema' s' (.var v'.name)] := by
      rw [h.name]
      exact allBelow_singleton (ofValue_below hschema hscope (.refl _))
    exact hvalue.append ((hvalues h.defaultValue).append (hdirectives hscope h.directives))
  | fragmentDefinition h =>
    exact (hdirectives hscope h.directives).append
      (ofSelections_below hschema hscope h.selections)
  | selection h =>
    cases h with
    | field _ _ has hds hxs =>
      exact (harguments hscope has).append ((hdirectives hscope hds).append
        (ofSelections_below hschema hscope hxs))
    | spread _ hds => exact hdirectives hscope hds
    | inline _ hds hxs =>
      exact (hdirectives hscope hds).append (ofSelections_below hschema hscope hxs)
  | argument h => exact allBelow_singleton (ofValue_below hschema hscope h.value)
  | @directive d d' h =>
    rw [parts_directive, parts_directive, h.name]
    exact harguments (Scope.ofDirective_below hschema hscope d'.name) h.arguments
  | @value v v' h =>
    cases v with
    | list vs =>
      obtain ⟨ws, rfl, hws⟩ := h.of_list
      exact hvalues hws
    | object fields =>
      obtain ⟨fields', rfl, hfields⟩ := h.of_object
      exact allBelow_map hfields fun _ _ hf ↦ ofObjectField_below hschema hscope hf
    | _ => simp [AllBelow, parts]
  | objectField n h => exact allBelow_singleton (ofValue_below hschema hscope h)

/-- The definitions of the smaller document are left of definitions of the larger one. -/
theorem ofDefinition?_below {d d' : Definition} (h : d.RemainsOf d') :
    AllBelow (ofDefinition? schema d).toList (ofDefinition? schema' d').toList := by
  cases h with
  | @operation op op' h =>
    refine allBelow_singleton ⟨.operation h, ?_⟩
    rw [h.kind]
    exact Scope.ofOperation_below hschema (.refl _) op'.kind
  | @fragment f f' h =>
    refine allBelow_singleton ⟨.fragmentDefinition h, ?_⟩
    rw [h.condition]
    exact Scope.ofFragment_below hschema (.refl _) (some f'.condition)
  | typeSystem d => simp [AllBelow, ofDefinition?]

end Place

end TypeFootprint
