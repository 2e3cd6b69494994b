import Mathlib.Data.List.Basic
import TypeFootprint.Inference.Typing
import TypeFootprint.Inference.Walk

/-!
# The walk and the scopes agree on the types in force

`walkDocument` keeps the types in force on stacks that it pushes and pops; `callsOfDocument` hands
them down from each node to its parts.  This file shows that the two make the same consultations,
in the same order and with the same types.

* `Context.scope` reads a scope off the tops of the stacks.  One lemma for each entering operation
  (`scope_enterField` and its companions) says that what the operation pushes is what the scope
  rule of the same name settles.
* `Walk.Lists w cx calls` says that the walk `w`, started in `cx`, makes these consultations and is
  back in `cx` at its end.  There is one lemma for each way to build a walk.
* `lists_walkValue`, `lists_walkSelection` and their companions go through the syntax, and
  `walkDocument_eq_callsOfDocument` puts them together.

Only the directive slot is not a stack: it is emptied at the end of a directive, whatever it held
before.  So everything that reads directives is back where it was only if no directive was being
read, and `cx.directive = none` is the invariant that goes through the selections.
-/

set_option autoImplicit false

namespace TypeFootprint

variable {schema : Schema} {rules : Rules}

/-! ## Entries

What an operation pushes is written with `Schema.keepKind`, what a scope rule settles with
`Scope.keep`; they keep the same types. -/

namespace Context

theorem bind_keepKind {α : Type} (p : TypeKind → Bool) (o : Option α) (f : α → TypeRef) :
    (o.bind fun a ↦ schema.keepKind p (f a)) = Scope.keep schema p (o.map f) := by
  cases o with
  | none => rfl
  | some a => rw [Option.bind_some, Option.map_some, Scope.keep_some]

theorem rootType_eq (kind : OperationKind) :
    rootType schema kind
      = Scope.keep schema (· = .object) ((schema.roots.get? kind).map .ofName) :=
  bind_keepKind _ _ _

theorem fragmentType_eq (condition : Option Name) (output : Option TypeRef) :
    fragmentType schema condition output
      = Scope.keep schema TypeKind.isOutput
          ((condition.or (output.map TypeRef.core)).map .ofName) :=
  bind_keepKind _ _ _

theorem ownerType_eq (output : Option TypeRef) :
    ownerType schema output
      = Scope.keep schema TypeKind.isComposite (output.map fun t ↦ .ofName t.core) :=
  bind_keepKind _ _ _

theorem fieldType_eq (definition : Option FieldDefinition) :
    fieldType schema definition
      = Scope.keep schema TypeKind.isOutput (definition.map FieldDefinition.type) :=
  bind_keepKind _ _ _

theorem inputTypeOf_eq (inputs : List InputValue) (n : Name) :
    inputTypeOf schema inputs n
      = Scope.keep schema TypeKind.isInput (Scope.declaredType inputs n) :=
  bind_keepKind _ _ _

theorem itemType_eq (input : Option TypeRef) :
    itemType schema input
      = Scope.keep schema TypeKind.isInput (input.map fun t ↦ Scope.itemsOf t.nullable) := by
  have hitem (t : TypeRef) : Scope.itemsOf t.nullable = t.item?.getD t.nullable := by
    cases t <;> rfl
  simp only [hitem]
  exact bind_keepKind _ _ _

/-! ## What a context shows -/

/-- The scope at the tops of the stacks. -/
def scope (cx : Context) : Scope := ⟨cx.position, cx.fields.head?.join, cx.directive⟩

@[simp] theorem scope_position (cx : Context) : cx.scope.position = cx.position := rfl

/-- The type around the new one is what was the innermost type before. -/
theorem scope_pushInput (input : Option TypeRef) (cx : Context) :
    scope { cx with inputs := input :: cx.inputs } = cx.scope.withInput input := by
  obtain ⟨_, _, inputs, _, _⟩ := cx
  cases inputs <;> rfl

theorem scope_enterOperation (kind : OperationKind) (cx : Context) :
    (cx.enterOperation schema kind).scope = cx.scope.ofOperation schema kind := by
  rw [Scope.ofOperation, ← rootType_eq]
  rfl

theorem scope_enterFragment (condition : Option Name) (cx : Context) :
    (cx.enterFragment schema condition).scope = cx.scope.ofFragment schema condition := by
  rw [Scope.ofFragment, ← fragmentType_eq]
  rfl

theorem scope_enterSelections (cx : Context) :
    (cx.enterSelections schema).scope = cx.scope.ofSelections schema := by
  rw [Scope.ofSelections, ← ownerType_eq]
  rfl

theorem scope_enterField (n : Name) (cx : Context) :
    (cx.enterField schema n).scope = cx.scope.ofField schema n := by
  rw [Scope.ofField, ← fieldType_eq]
  rfl

theorem scope_enterDirective (n : Name) (cx : Context) :
    (cx.enterDirective schema n).scope = cx.scope.ofDirective schema n := rfl

theorem scope_enterVariable (type : TypeRef) (cx : Context) :
    (cx.enterVariable schema type).scope = cx.scope.ofVariable schema type := by
  rw [Scope.ofVariable, Scope.keep_some]
  exact scope_pushInput _ _

theorem expectedArguments_eq (cx : Context) :
    expectedArguments cx.directive cx.fields.head?.join = cx.scope.declaredArguments := by
  rw [scope, Scope.declaredArguments]
  cases cx.directive with
  | some d => rfl
  | none => cases cx.fields.head?.join <;> rfl

theorem scope_enterArgument (n : Name) (cx : Context) :
    (cx.enterArgument schema n).scope = cx.scope.ofArgument schema n := by
  rw [Scope.ofArgument, ← expectedArguments_eq, ← inputTypeOf_eq]
  exact scope_pushInput _ _

theorem scope_enterList (cx : Context) :
    (cx.enterList schema).scope = cx.scope.ofList schema := by
  rw [Scope.ofList, ← itemType_eq]
  exact scope_pushInput _ _

theorem scope_enterObjectField (n : Name) (cx : Context) :
    (cx.enterObjectField schema n).scope = cx.scope.ofObjectField schema n := by
  have h : Scope.declaredType (expectedFields schema cx.input) n
      = (cx.input.bind fun t ↦ schema.inputObject? t.core).bind fun fields ↦
          Scope.declaredType fields n := by
    rw [expectedFields]
    cases cx.input.bind fun t ↦ schema.inputObject? t.core <;> rfl
  rw [Scope.ofObjectField, scope_position, position, ← h, ← inputTypeOf_eq]
  exact scope_pushInput _ _

end Context

/-! ## Walks that list consultations -/

/-- The walk makes these consultations when it starts in this context, and is back in the context
at its end. -/
structure Walk.Lists (w : Walk) (cx : Context) (calls : List Call) : Prop where
  /-- The calls among the steps are the consultations, in order. -/
  calls : (w cx).1.filterMap Step.call? = calls
  /-- Whatever is entered is left. -/
  back : (w cx).2 = cx

namespace Walk

theorem filterMap_call?_enter (frames : List Frame) :
    (frames.map Step.enter).filterMap Step.call? = [] := by
  simp [List.filterMap_map, Step.call?, Function.comp_def]

theorem filterMap_call?_leave (frames : List Frame) :
    (frames.map Step.leave).filterMap Step.call? = [] := by
  simp [List.filterMap_map, Step.call?, Function.comp_def]

theorem lists_stay (cx : Context) : stay.Lists cx [] := ⟨rfl, rfl⟩

theorem Lists.andThen {first second : Walk} {cx : Context} {calls calls' : List Call}
    (h : first.Lists cx calls) (h' : second.Lists cx calls') :
    (first.andThen second).Lists cx (calls ++ calls') := by
  refine ⟨?_, ?_⟩
  · rw [Walk.andThen, List.filterMap_append, h.back, h.calls, h'.calls]
  · rw [Walk.andThen, h.back, h'.back]

/-- Entering something before a walk and leaving it afterwards adds no consultation. -/
theorem Lists.between {w : Walk} {change restore : Context → Context} {cx : Context}
    {calls : List Call} (h : w.Lists (change cx) calls) (hrestore : restore (change cx) = cx)
    (entered left : List Frame) :
    ((enter entered change).andThen (w.andThen (leave left restore))).Lists cx calls := by
  refine ⟨?_, ?_⟩
  · simp only [Walk.andThen, enter, leave, List.filterMap_append, filterMap_call?_enter,
      filterMap_call?_leave, h.calls, List.nil_append, List.append_nil]
  · simp only [Walk.andThen, enter, leave, h.back, hrestore]

theorem lists_each {α : Type} {f : α → Walk} {cx : Context} {calls : α → List Call}
    (h : ∀ a, (f a).Lists cx (calls a)) (as : List α) :
    (each f as).Lists cx (as.flatMap calls) := by
  induction as with
  | nil => exact lists_stay cx
  | cons a as ih => exact (h a).andThen ih

/-- A visit consults the rule of its place, and then what is below the place unless the rule passes
over it. -/
theorem lists_visit_of_position {parts : Walk} {p : Place} {cx : Context}
    (hp : p.scope.position = cx.position)
    (h : parts.Lists cx ((p.parts schema).flatMap (callsOf schema rules))) :
    (visit rules p.node parts).Lists cx (callsOf schema rules p) := by
  rw [callsOf_eq]
  have hcall : p.call rules = ⟨p.node, cx.position, rules p.node cx.position⟩ := by
    rw [Place.call, hp]
  cases hskip : (rules p.node cx.position).skipChildren with
  | true => constructor <;> simp [visit, Place.skips, hcall, hskip, Step.call?]
  | false =>
    constructor
    · simp [visit, Place.skips, hcall, hskip, Step.call?, h.calls]
    · simp [visit, hskip, h.back]

theorem lists_visit {parts : Walk} {node : Node} {cx : Context}
    (h : parts.Lists cx
      ((Place.parts schema ⟨node, cx.scope⟩).flatMap (callsOf schema rules))) :
    (visit rules node parts).Lists cx (callsOf schema rules ⟨node, cx.scope⟩) :=
  lists_visit_of_position rfl h

end Walk

/-! ## Values, arguments and directives

A value is back in whatever context it started from.  A directive is not, unless the slot was empty
before. -/

open Walk

/-- A value without parts. -/
theorem lists_visit_value {v : Value} {cx : Context}
    (h : Place.parts schema ⟨.value v, cx.scope⟩ = []) :
    (visit rules (.value v) stay).Lists cx (callsOf schema rules ⟨.value v, cx.scope⟩) :=
  lists_visit (by rw [h]; exact lists_stay cx)

mutual

theorem lists_walkValue (cx : Context) :
    ∀ v : Value, (walkValue schema rules v).Lists cx
      (callsOf schema rules (.ofValue schema cx.scope v))
  | .list items => by
    rw [Place.ofValue, ← Context.scope_enterList]
    refine Lists.between (lists_visit ?_) rfl _ _
    rw [Place.parts_list, List.flatMap_map]
    exact lists_walkValues (cx.enterList schema) items
  | .object fields => by
    refine lists_visit ?_
    rw [Place.parts_object, List.flatMap_map]
    exact lists_walkFields cx fields
  | .var _ => lists_visit_value rfl
  | .int _ => lists_visit_value rfl
  | .float _ => lists_visit_value rfl
  | .string _ => lists_visit_value rfl
  | .boolean _ => lists_visit_value rfl
  | .null => lists_visit_value rfl
  | .enum _ => lists_visit_value rfl

theorem lists_walkValues (cx : Context) :
    ∀ vs : List Value, (walkValues schema rules vs).Lists cx
      (vs.flatMap fun v ↦ callsOf schema rules (.ofValue schema cx.scope v))
  | [] => lists_stay cx
  | v :: vs => (lists_walkValue cx v).andThen (lists_walkValues cx vs)

theorem lists_walkFields (cx : Context) :
    ∀ fields : List (Name × Value), (walkFields schema rules fields).Lists cx
      (fields.flatMap fun field ↦ callsOf schema rules (.ofObjectField schema cx.scope field))
  | [] => lists_stay cx
  | (n, v) :: fields => by
    refine Lists.andThen ?_ (lists_walkFields cx fields)
    show Lists _ cx (callsOf schema rules (.ofObjectField schema cx.scope (n, v)))
    rw [Place.ofObjectField, ← Context.scope_enterObjectField]
    refine Lists.between (lists_visit ?_) rfl _ _
    rw [Place.parts_objectField, List.flatMap_singleton]
    exact lists_walkValue (cx.enterObjectField schema n) v

end

theorem lists_walkArgument (cx : Context) (a : Argument) :
    (walkArgument schema rules a).Lists cx
      (callsOf schema rules (.ofArgument schema cx.scope a)) := by
  rw [Place.ofArgument, ← Context.scope_enterArgument]
  refine Lists.between (lists_visit ?_) rfl _ _
  rw [Place.parts_argument, List.flatMap_singleton]
  exact lists_walkValue (cx.enterArgument schema a.name) a.value

theorem lists_walkArguments (cx : Context) (as : List Argument) :
    (walkArguments schema rules as).Lists cx
      ((as.map (Place.ofArgument schema cx.scope)).flatMap (callsOf schema rules)) := by
  rw [List.flatMap_map]
  exact lists_each (lists_walkArgument cx) as

theorem lists_walkDirective (cx : Context) (hcx : cx.directive = none) (d : Directive) :
    (walkDirective schema rules d).Lists cx
      (callsOf schema rules (.ofDirective cx.scope d)) := by
  have hrestore : (cx.enterDirective schema d.name).leaveDirective = cx := by
    rw [Context.enterDirective, Context.leaveDirective, ← hcx]
  refine Lists.between (lists_visit_of_position (p := .ofDirective cx.scope d) rfl ?_) hrestore _ _
  rw [Place.ofDirective, Place.parts_directive, ← Context.scope_enterDirective]
  exact lists_walkArguments (cx.enterDirective schema d.name) d.arguments

theorem lists_walkDirectives (cx : Context) (hcx : cx.directive = none) (ds : List Directive) :
    (walkDirectives schema rules ds).Lists cx
      ((ds.map (Place.ofDirective cx.scope)).flatMap (callsOf schema rules)) := by
  rw [List.flatMap_map]
  exact lists_each (lists_walkDirective cx hcx) ds

/-! ## Selections -/

/-- An empty selection set is not entered, and has nothing to consult about either. -/
theorem lists_withSelections (cx : Context) {walk : Walk} (selections : List Selection)
    (h : walk.Lists (cx.enterSelections schema)
      (selections.flatMap fun x ↦
        callsOf schema rules (.ofSelection schema (cx.enterSelections schema).scope x))) :
    (withSelections schema selections walk).Lists cx
      ((Place.ofSelections schema cx.scope selections).flatMap (callsOf schema rules)) := by
  rw [withSelections, Place.ofSelections, List.flatMap_map, ← Context.scope_enterSelections]
  split
  · rename_i hempty
    rw [List.isEmpty_iff.1 hempty]
    exact lists_stay cx
  · exact Lists.between h rfl _ _

mutual

theorem lists_walkSelection (cx : Context) (hcx : cx.directive = none) :
    ∀ x : Selection, (walkSelection schema rules x).Lists cx
      (callsOf schema rules (.ofSelection schema cx.scope x))
  | .field responseName n arguments directives selections => by
    let inner := cx.enterField schema n
    rw [Place.ofSelection, ← Context.scope_enterField]
    refine Lists.between (lists_visit ?_) rfl _ _
    rw [Place.parts_field, List.flatMap_append, List.flatMap_append]
    exact (lists_walkArguments inner arguments).andThen
      ((lists_walkDirectives inner hcx directives).andThen
        (lists_withSelections inner selections
          (lists_walkSelections (inner.enterSelections schema) hcx selections)))
  | .spread n directives => lists_visit (lists_walkDirectives cx hcx directives)
  | .inline condition directives selections => by
    let inner := cx.enterFragment schema condition
    rw [Place.ofSelection, ← Context.scope_enterFragment]
    refine Lists.between (lists_visit ?_) rfl _ _
    rw [Place.parts_inline, List.flatMap_append]
    exact (lists_walkDirectives inner hcx directives).andThen
      (lists_withSelections inner selections
        (lists_walkSelections (inner.enterSelections schema) hcx selections))

theorem lists_walkSelections (cx : Context) (hcx : cx.directive = none) :
    ∀ xs : List Selection, (walkSelections schema rules xs).Lists cx
      (xs.flatMap fun x ↦ callsOf schema rules (.ofSelection schema cx.scope x))
  | [] => lists_stay cx
  | x :: xs => (lists_walkSelection cx hcx x).andThen (lists_walkSelections cx hcx xs)

end

theorem lists_walkSelectionSet (cx : Context) (hcx : cx.directive = none)
    (selections : List Selection) :
    (walkSelectionSet schema rules selections).Lists cx
      ((Place.ofSelections schema cx.scope selections).flatMap (callsOf schema rules)) :=
  lists_withSelections cx selections
    (lists_walkSelections (cx.enterSelections schema) hcx selections)

/-! ## Definitions and documents -/

theorem lists_walkVariable (cx : Context) (hcx : cx.directive = none) (v : VariableDefinition) :
    (walkVariable schema rules v).Lists cx
      (callsOf schema rules (.ofVariable schema cx.scope v)) := by
  let inner := cx.enterVariable schema v.type
  rw [Place.ofVariable, ← Context.scope_enterVariable]
  refine Lists.between (lists_visit ?_) rfl _ _
  rw [Place.parts_variableDefinition, List.flatMap_cons, List.flatMap_append, List.flatMap_map]
  exact (lists_walkValue inner (.var v.name)).andThen
    ((lists_each (lists_walkValue inner) v.defaultValue.toList).andThen
      (lists_walkDirectives inner hcx v.directives))

theorem lists_walkOperation (cx : Context) (hcx : cx.directive = none) (op : Operation) :
    (walkOperation schema rules op).Lists cx
      (callsOf schema rules ⟨.operation op, cx.scope.ofOperation schema op.kind⟩) := by
  let inner := cx.enterOperation schema op.kind
  rw [← Context.scope_enterOperation]
  refine Lists.between (lists_visit ?_) rfl _ _
  rw [Place.parts_operation, List.flatMap_append, List.flatMap_append, List.flatMap_map]
  exact (lists_each (lists_walkVariable inner hcx) op.declarations).andThen
    ((lists_walkDirectives inner hcx op.directives).andThen
      (lists_walkSelectionSet inner hcx op.selections))

theorem lists_walkFragment (cx : Context) (hcx : cx.directive = none) (f : Fragment) :
    (walkFragment schema rules f).Lists cx
      (callsOf schema rules
        ⟨.fragmentDefinition f, cx.scope.ofFragment schema (some f.condition)⟩) := by
  let inner := cx.enterFragment schema (some f.condition)
  rw [← Context.scope_enterFragment]
  refine Lists.between (lists_visit ?_) rfl _ _
  rw [Place.parts_fragmentDefinition, List.flatMap_append]
  exact (lists_walkDirectives inner hcx f.directives).andThen
    (lists_walkSelectionSet inner hcx f.selections)

/-- Every definition is walked through from the empty context, and back to it. -/
theorem lists_walkDefinition (d : Definition) :
    (walkDefinition schema rules d).Lists .empty
      ((Place.ofDefinition? schema d).toList.flatMap (callsOf schema rules)) := by
  cases d with
  | operation op =>
    rw [Place.ofDefinition?, Option.toList_some, List.flatMap_singleton]
    exact lists_walkOperation .empty rfl op
  | fragment f =>
    rw [Place.ofDefinition?, Option.toList_some, List.flatMap_singleton]
    exact lists_walkFragment .empty rfl f
  | typeSystem d => exact lists_stay .empty

theorem lists_walkDefinitions (document : Document) :
    (each (walkDefinition schema rules) document).Lists .empty
      (callsOfDocument schema rules document) := by
  rw [callsOfDocument, List.filterMap_eq_flatMap_toList, List.flatMap_assoc]
  exact lists_each lists_walkDefinition document

/-- **The walk infers what the scopes say.**  For every schema, all rules and every document, the
consultations of the walk on stacks are those that the handing down of types lists: the same nodes
in the same order, each with the same four types and the same answer. -/
theorem walkDocument_eq_callsOfDocument (schema : Schema) (rules : Rules) (document : Document) :
    walkDocument schema rules document = callsOfDocument schema rules document :=
  (lists_walkDefinitions document).calls

end TypeFootprint
