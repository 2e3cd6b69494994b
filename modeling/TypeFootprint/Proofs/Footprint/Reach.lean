import TypeFootprint.Proofs.Footprint.Sources
import TypeFootprint.Proofs.Footprint.Trimming
import TypeFootprint.Proofs.Inference.Kinds
import TypeFootprint.Proofs.Schema.Reach
import TypeFootprint.Schema.Build

/-!
# A footprint is within reach of its document

A document starts from certain types: the roots of its operations, the conditions of its fragments,
the types of its variables, and what its directives take.  `Document.seeds` reads their names off
the text.  All that is recorded is reachable from them: every scope rule follows a reference of a
type that is already in force, or takes up a seed.

* `seeds_subset_of_mem_parts` — the seeds of a part are seeds of the whole;
* `Scope.Reached`, `Handed.reached` — a scope in which everything is reached hands down such scopes;
* `Visited.reached` — hence everything is reached at every place of a walk;
* `reachable_of_mem_collect` — and what is recorded comes from there.

A directive that the schema does not define has no seeds, and its arguments are looked up among
those of the field around it; so the scope also says that the arguments of that field are reached.
-/

set_option autoImplicit false

namespace TypeFootprint

/-! ## Seeds -/

section Syntax

variable (schema : Schema)

/-- The types that the arguments of a directive have. -/
def Directive.seeds (d : Directive) : List Name :=
  match schema.directive? d.name with
  | some definition => definition.arguments.map fun v ↦ v.type.core
  | none => []

mutual

/-- The conditions of inline fragments and the types that directives take, in an item of a selection
set. -/
def Selection.seeds : Selection → List Name
  | .field _ _ _ directives selections =>
    directives.flatMap (Directive.seeds schema) ++ Selection.seedsIn selections
  | .spread _ directives => directives.flatMap (Directive.seeds schema)
  | .inline condition directives selections =>
    condition.toList ++
      (directives.flatMap (Directive.seeds schema) ++ Selection.seedsIn selections)

/-- The conditions of inline fragments and the types that directives take, in a selection set. -/
def Selection.seedsIn : List Selection → List Name
  | [] => []
  | x :: xs => x.seeds ++ Selection.seedsIn xs

end

/-- The type of a variable, and those that its directives take. -/
def VariableDefinition.seeds (v : VariableDefinition) : List Name :=
  v.type.core :: v.directives.flatMap (Directive.seeds schema)

/-- The root of an operation, and the types that it names or that its directives take. -/
def Operation.seeds (op : Operation) : List Name :=
  (schema.roots.get? op.kind).toList ++
    (op.declarations.flatMap (VariableDefinition.seeds schema) ++
      (op.directives.flatMap (Directive.seeds schema) ++ Selection.seedsIn schema op.selections))

/-- The condition of a fragment, and the types that it names or that its directives take. -/
def Fragment.seeds (f : Fragment) : List Name :=
  f.condition ::
    (f.directives.flatMap (Directive.seeds schema) ++ Selection.seedsIn schema f.selections)

/-- The types that a document starts from. -/
def Document.seeds (document : Document) : List Name :=
  document.flatMap fun
    | .operation op => op.seeds schema
    | .fragment f => f.seeds schema
    | .typeSystem _ => []

/-- The types that a node and what is below it start from. -/
def Node.seeds : Node → List Name
  | .operation op => op.seeds schema
  | .variableDefinition v => v.seeds schema
  | .fragmentDefinition f => f.seeds schema
  | .selection x => x.seeds schema
  | .directive d => d.seeds schema
  | .argument _ | .value _ | .objectField _ _ => []

end Syntax

variable {schema : Schema} {rules : Rules} {document : Document} {p q : Place} {s : Scope}
  {t : TypeRef} {seeds : List Name}

theorem Selection.seedsIn_eq_flatMap (xs : List Selection) :
    Selection.seedsIn schema xs = xs.flatMap (Selection.seeds schema) := by
  induction xs with
  | nil => rfl
  | cons x xs ih => rw [Selection.seedsIn, ih, List.flatMap_cons]

/-- What a node names it starts from. -/
theorem Node.core_mem_seeds {node : Node} (h : t ∈ node.namedTypes) :
    t.core ∈ node.seeds schema := by
  cases node with
  | variableDefinition v =>
    obtain rfl := List.mem_singleton.1 h
    exact List.mem_cons_self
  | fragmentDefinition f =>
    obtain rfl := List.mem_singleton.1 h
    exact List.mem_cons_self
  | selection x =>
    cases x with
    | inline condition directives selections =>
      obtain ⟨n, hn, rfl⟩ := List.mem_map.1 h
      exact List.mem_append_left _ hn
    | _ => cases h
  | _ => cases h

/-- The seeds of a part are seeds of the whole. -/
theorem seeds_subset_of_mem_parts (hq : q ∈ p.parts schema) :
    q.node.seeds schema ⊆ p.node.seeds schema := by
  obtain ⟨node, s⟩ := p
  have hvalue (v : Value) {names : List Name} :
      (Place.ofValue schema s v).node.seeds schema ⊆ names := by
    rw [Place.node_ofValue]
    exact List.nil_subset _
  have hdirective {ds : List Directive} (hq : q ∈ ds.map (Place.ofDirective s)) :
      q.node.seeds schema ⊆ ds.flatMap (Directive.seeds schema) := by
    obtain ⟨d, hd, rfl⟩ := List.mem_map.1 hq
    exact fun n hn ↦ List.mem_flatMap.2 ⟨d, hd, hn⟩
  have hselection {xs : List Selection} (hq : q ∈ Place.ofSelections schema s xs) :
      q.node.seeds schema ⊆ Selection.seedsIn schema xs := by
    obtain ⟨x, hx, rfl⟩ := List.mem_map.1 hq
    rw [Selection.seedsIn_eq_flatMap]
    exact fun n hn ↦ List.mem_flatMap.2 ⟨x, hx, hn⟩
  have hbody {ds : List Directive} {xs : List Selection}
      (hq : q ∈ ds.map (Place.ofDirective s) ++ Place.ofSelections schema s xs) :
      q.node.seeds schema ⊆
        ds.flatMap (Directive.seeds schema) ++ Selection.seedsIn schema xs := by
    rcases List.mem_append.1 hq with hq | hq
    · exact List.subset_append_of_subset_left _ (hdirective hq)
    · exact List.subset_append_of_subset_right _ (hselection hq)
  cases node with
  | operation op =>
    refine List.subset_append_of_subset_right _ ?_
    rcases List.mem_append.1 hq with hq | hq
    · obtain ⟨v, hv, rfl⟩ := List.mem_map.1 hq
      exact fun n hn ↦ List.mem_append_left _ (List.mem_flatMap.2 ⟨v, hv, hn⟩)
    · exact List.subset_append_of_subset_right _ (hbody hq)
  | variableDefinition v =>
    simp only [Place.parts_variableDefinition, List.mem_cons, List.mem_append] at hq
    rcases hq with rfl | hq | hq
    · exact List.nil_subset _
    · obtain ⟨w, -, rfl⟩ := List.mem_map.1 hq
      exact hvalue _
    · exact List.subset_cons_of_subset _ (hdirective hq)
  | fragmentDefinition f => exact List.subset_cons_of_subset _ (hbody hq)
  | selection x =>
    cases x with
    | field responseName n arguments directives selections =>
      rcases List.mem_append.1 hq with hq | hq
      · obtain ⟨a, -, rfl⟩ := List.mem_map.1 hq
        exact List.nil_subset _
      · rw [Node.seeds, Selection.seeds]
        exact hbody hq
    | spread n directives =>
      rw [Node.seeds, Selection.seeds]
      exact hdirective hq
    | inline condition directives selections =>
      rw [Node.seeds, Selection.seeds]
      exact List.subset_append_of_subset_right _ (hbody hq)
  | argument a =>
    obtain rfl := List.mem_singleton.1 hq
    exact hvalue _
  | directive d =>
    obtain ⟨a, -, rfl⟩ := List.mem_map.1 hq
    exact List.nil_subset _
  | value v =>
    cases v with
    | list items =>
      obtain ⟨w, -, rfl⟩ := List.mem_map.1 hq
      exact hvalue _
    | object fields =>
      obtain ⟨field, -, rfl⟩ := List.mem_map.1 hq
      exact List.nil_subset _
    | _ => cases hq
  | objectField n v =>
    obtain rfl := List.mem_singleton.1 hq
    exact hvalue _

/-! ## Reached types -/

/-- The type, if there is one, is reached. -/
def Schema.Reaches (schema : Schema) (seeds : List Name) (t : Option TypeRef) : Prop :=
  ∀ u, t = some u → schema.Reachable TypeKind.isComposite seeds u.core

/-- The types of the arguments that a field or a directive takes are reached. -/
def Schema.ReachesArguments (schema : Schema) (seeds : List Name) (arguments : List InputValue) :
    Prop :=
  ∀ v ∈ arguments, schema.Reachable TypeKind.isComposite seeds v.type.core

/-- All types in force are reached, and all types of the arguments that may be written here. -/
structure Scope.Reached (schema : Schema) (seeds : List Name) (s : Scope) : Prop where
  output : schema.Reaches seeds s.position.output
  parentOutput : schema.Reaches seeds s.position.parentOutput
  input : schema.Reaches seeds s.position.input
  parentInput : schema.Reaches seeds s.position.parentInput
  field : ∀ f, s.field = some f → schema.ReachesArguments seeds f.arguments
  directive : ∀ d, s.directive = some d → schema.ReachesArguments seeds d.arguments

namespace Schema

theorem reaches_none : schema.Reaches seeds none := fun _ h ↦ by cases h

theorem reaches_ofName {o : Option Name}
    (h : ∀ n, o = some n → schema.Reachable TypeKind.isComposite seeds n) :
    schema.Reaches seeds (o.map .ofName) := by
  intro u hu
  obtain ⟨n, hn, rfl⟩ := Option.map_eq_some_iff.1 hu
  exact h n hn

theorem Reaches.keep {o : Option TypeRef} (h : schema.Reaches seeds o) (kind : TypeKind → Bool) :
    schema.Reaches seeds (Scope.keep schema kind o) := fun u hu ↦
  h u (Option.filter_eq_some_iff.1 hu).1

/-- Wrappers do not count. -/
theorem Reaches.map {o : Option TypeRef} (h : schema.Reaches seeds o) {f : TypeRef → TypeRef}
    (hf : ∀ t, (f t).core = t.core) : schema.Reaches seeds (o.map f) := by
  intro u hu
  obtain ⟨v, hv, rfl⟩ := Option.map_eq_some_iff.1 hu
  rw [hf]
  exact h v hv

theorem ReachesArguments.declaredType {arguments : List InputValue}
    (h : schema.ReachesArguments seeds arguments) (n : Name) :
    schema.Reaches seeds (Scope.declaredType arguments n) := by
  intro u hu
  obtain ⟨v, hv, rfl⟩ := Option.map_eq_some_iff.1 hu
  exact h v (List.mem_of_find?_eq_some hv)

end Schema

namespace Scope.Reached

variable (h : s.Reached schema seeds)
include h

theorem core_of_mem_types (ht : t ∈ s.position.types) :
    schema.Reachable TypeKind.isComposite seeds t.core := by
  rcases Position.mem_types.1 ht with ht | ht | ht | ht
  · exact h.output t ht
  · exact h.parentOutput t ht
  · exact h.input t ht
  · exact h.parentInput t ht

theorem withOutput {o : Option TypeRef} (ho : schema.Reaches seeds o) :
    (s.withOutput o).Reached schema seeds := { h with output := ho }

theorem withInput {o : Option TypeRef} (ho : schema.Reaches seeds o) :
    (s.withInput o).Reached schema seeds := { h with input := ho, parentInput := h.input }

theorem declaredArguments : schema.ReachesArguments seeds s.declaredArguments := by
  rw [Scope.declaredArguments]
  split
  · rename_i d hd
    exact h.directive d hd
  · rename_i f _ hf
    exact h.field f hf
  · intro v hv
    cases hv

theorem ofFragment {condition : Option Name} (hcondition : condition.toList ⊆ seeds) :
    (s.ofFragment schema condition).Reached schema seeds := by
  refine h.withOutput (Schema.Reaches.keep (Schema.reaches_ofName fun n hn ↦ ?_) _)
  cases condition with
  | some m =>
    obtain rfl : m = n := Option.some.inj hn
    exact .seed (hcondition (List.mem_singleton_self m))
  | none =>
    obtain ⟨u, hu, rfl⟩ := Option.map_eq_some_iff.1 hn
    exact h.output u hu

theorem ofSelections : (s.ofSelections schema).Reached schema seeds := by
  have howner : schema.Reaches seeds (s.ofSelections schema).position.parentOutput := by
    intro t ht
    obtain ⟨u, hu, -, rfl⟩ := parentOutput_ofSelections.1 ht
    exact h.output u hu
  exact { h with parentOutput := howner }

/-- A field is a reference of its owner, which is composite. -/
theorem ofField (howner : s.position.WellKinded schema) (n : Name) :
    (s.ofField schema n).Reached schema seeds := by
  have htypes (f : FieldDefinition)
      (hf : (s.position.parentOutput.bind fun t ↦ schema.field? t.core n) = some f) (m : Name)
      (hm : m ∈ f.typeNames) : schema.Reachable TypeKind.isComposite seeds m := by
    obtain ⟨t, ht, hfield⟩ := Option.bind_eq_some_iff.1 hf
    obtain ⟨k, rfl, hkind⟩ := howner.parentOutput t ht
    exact .step (h.parentOutput _ ht) (Schema.typeNames_subset_references hkind hfield hm)
  refine { h with output := Schema.Reaches.keep (fun u hu ↦ ?_) _, field := fun f hf v hv ↦ ?_ }
  · obtain ⟨f, hf, rfl⟩ := Option.map_eq_some_iff.1 hu
    exact htypes f hf _ List.mem_cons_self
  · exact htypes f hf _ (List.mem_cons_of_mem _ (List.mem_map_of_mem hv))

theorem ofVariable {type : TypeRef} (htype : type.core ∈ seeds) :
    (s.ofVariable schema type).Reached schema seeds := by
  refine h.withInput (Schema.Reaches.keep (fun u hu ↦ ?_) _)
  obtain rfl := Option.some.inj hu
  exact .seed htype

theorem ofDirective {d : Directive} (hd : d.seeds schema ⊆ seeds) :
    (s.ofDirective schema d.name).Reached schema seeds := by
  refine { h with directive := fun definition hdefinition v hv ↦ .seed (hd ?_) }
  have hdirective : schema.directive? d.name = some definition := hdefinition
  simp only [Directive.seeds, hdirective]
  exact List.mem_map_of_mem hv

theorem ofArgument (n : Name) : (s.ofArgument schema n).Reached schema seeds :=
  h.withInput ((h.declaredArguments.declaredType n).keep _)

theorem ofList : (s.ofList schema).Reached schema seeds :=
  h.withInput ((h.input.map core_itemsOf_nullable).keep _)

/-- The fields of an input object are references of it. -/
theorem ofObjectField (n : Name) : (s.ofObjectField schema n).Reached schema seeds := by
  refine h.withInput (Schema.Reaches.keep (fun u hu ↦ ?_) _)
  obtain ⟨fields, hfields, hu⟩ := Option.bind_eq_some_iff.1 hu
  obtain ⟨t, ht, hobject⟩ := Option.bind_eq_some_iff.1 hfields
  obtain ⟨v, hv, rfl⟩ := Option.map_eq_some_iff.1 hu
  refine .step (h.input t ht) (Schema.core_mem_references ?_)
  rw [Schema.inputFieldTypes, hobject]
  exact List.mem_map_of_mem (List.mem_of_find?_eq_some hv)

end Scope.Reached

theorem Scope.reached_outside : outside.Reached schema seeds where
  output := Schema.reaches_none
  parentOutput := Schema.reaches_none
  input := Schema.reaches_none
  parentInput := Schema.reaches_none
  field _ h := by cases h
  directive _ h := by cases h

/-! ## Walks -/

/-- **What is handed down is reached**, if the seeds of both places are taken into account. -/
theorem Handed.reached (h : Handed schema p q) (hp : p.scope.Reached schema seeds)
    (hkinds : p.scope.position.WellKinded schema) (hpseeds : p.node.seeds schema ⊆ seeds)
    (hqseeds : q.node.seeds schema ⊆ seeds) : q.scope.Reached schema seeds := by
  cases h with
  | declaration v => exact hp.ofVariable (hqseeds List.mem_cons_self)
  | directive d => exact hp
  | selection _ x =>
    cases x with
    | field responseName n arguments directives selections =>
      exact hp.ofSelections.ofField (Scope.wellKinded_ofSelections hkinds) n
    | spread n directives => exact hp.ofSelections
    | inline condition directives selections =>
      exact hp.ofSelections.ofFragment fun n hn ↦ hqseeds (List.mem_append_left _ hn)
  | argument a => exact hp.ofArgument a.name
  | directiveArgument hnode a =>
    rw [hnode] at hpseeds
    exact (hp.ofDirective hpseeds).ofArgument a.name
  | value v =>
    cases v with
    | list items => exact hp.ofList
    | _ => exact hp
  | objectField _ field => exact hp.ofObjectField field.1

theorem Place.reached_ofDefinition? {d : Definition} (hp : ofDefinition? schema d = some p)
    (hseeds : p.node.seeds schema ⊆ seeds) : p.scope.Reached schema seeds := by
  cases d with
  | operation op =>
    cases hp
    refine Scope.reached_outside.withOutput (Schema.Reaches.keep (Schema.reaches_ofName ?_) _)
    exact fun n hn ↦ .seed (hseeds (List.mem_append_left _ (Option.mem_toList.2 hn)))
  | fragment f =>
    cases hp
    exact Scope.reached_outside.ofFragment fun n hn ↦ by
      obtain rfl := List.mem_singleton.1 hn
      exact hseeds List.mem_cons_self
  | typeSystem d => cases hp

theorem Place.seeds_subset_document {d : Definition} (hd : d ∈ document)
    (hp : ofDefinition? schema d = some p) : p.node.seeds schema ⊆ document.seeds schema := by
  intro n hn
  refine List.mem_flatMap.2 ⟨d, hd, ?_⟩
  cases d <;> cases hp <;> exact hn

theorem Visited.seeds_subset (h : Visited schema rules document p) :
    p.node.seeds schema ⊆ document.seeds schema := by
  induction h with
  | definition hd hp => exact Place.seeds_subset_document hd hp
  | part _ _ hq ih => exact List.Subset.trans (seeds_subset_of_mem_parts hq) ih

/-- **All types that come into force in a walk are reached from its seeds.** -/
theorem Visited.reached (h : Visited schema rules document p) :
    p.scope.Reached schema (document.seeds schema) := by
  induction h with
  | definition hd hp => exact Place.reached_ofDefinition? hp (Place.seeds_subset_document hd hp)
  | part hp hskips hq ih =>
    exact (handed_of_mem_parts hq).reached ih hp.wellKinded hp.seeds_subset
      (hp.part hskips hq).seeds_subset

/-- What comes from the sources of a place is reached, if the types that are in force there and those
that it names are. -/
theorem Place.SourceAt.reachable (h : p.SourceAt schema t) (hp : p.scope.Reached schema seeds)
    (hseeds : p.node.seeds schema ⊆ seeds) :
    schema.Reachable TypeKind.isComposite seeds t.core := by
  have hfields {o : Option TypeRef} (ho : schema.Reaches seeds o)
      (ht : t ∈ schema.fieldTypesOf o) : schema.Reachable TypeKind.isComposite seeds t.core := by
    obtain ⟨u, hu, ht⟩ := Schema.mem_fieldTypesOf.1 ht
    exact .step (ho u hu) (Schema.core_mem_references ht)
  cases h with
  | inForce hu hcore =>
    rw [hcore]
    exact hp.core_of_mem_types hu
  | named hnode => exact .seed (hseeds (Node.core_mem_seeds hnode))
  | declared ht =>
    rw [declaredTypes] at ht
    split at ht
    · exact hfields hp.input ht
    · exact hfields hp.parentInput ht
    · cases ht

/-! ## Footprints -/

/-- **A footprint is within reach of its document.**  The core of every collected type is reachable
from the roots of the operations, the conditions of the fragments, the types of the variables and
what the applied directives take, along the fields and arguments of composite types, the meta fields
among them, and the fields of input objects. -/
theorem reachable_of_mem_collect (schema : Schema) (document : Document) {t : TypeRef}
    (ht : t ∈ collect schema document) :
    schema.Reachable TypeKind.isComposite (document.seeds schema) t.core := by
  obtain ⟨p, hp, ht⟩ := mem_collect_iff_touched.1 ht
  exact (Place.sourceAt_of_mem_touched ht).reachable hp.reached hp.seeds_subset

/-- The search for a node starts from the root of queries and names no type; the input object in the
filter is found through the argument of a field and the field of another input object. -/
theorem reachable_of_mem_collect_findById :
    findById.seeds filterSchema = [BuiltIn.named "Search"] ∧
    .ofName (BuiltIn.named "IdFilter") ∈ collect filterSchema findById ∧
    filterSchema.Reachable TypeKind.isComposite [BuiltIn.named "Search"]
      (BuiltIn.named "IdFilter") := by
  have hseeds : findById.seeds filterSchema = [BuiltIn.named "Search" (Eq.refl true)] := by decide
  have hmem : .ofName (BuiltIn.named "IdFilter" (Eq.refl true)) ∈ collect filterSchema findById := by
    decide
  have h := reachable_of_mem_collect filterSchema findById hmem
  rw [hseeds] at h
  exact ⟨hseeds, hmem, h⟩

/-- Objects and interfaces are not enough for this: `__typename` is selected on a union here, which
alone leads to the type of it. -/
theorem exists_collect_not_reachable :
    ∃ schema document,
      Schema.parse? "type Query { a: Int } union U = Query" = some schema ∧
      Document.parse? "fragment F on U { __typename }" = some document ∧
      ∃ t ∈ collect schema document, t.render = "String!" ∧
        ¬ schema.Reachable TypeKind.hasFields (document.seeds schema) t.core := by
  have h : ((Schema.parse? "type Query { a: Int } union U = Query").any fun schema ↦
      (Document.parse? "fragment F on U { __typename }").any fun document ↦
        decide (∀ m ∈ document.seeds schema,
          schema.references TypeKind.hasFields m ⊆ document.seeds schema) &&
        (collect schema document).toList.any fun t ↦
          decide (t.render = "String!") && decide (t.core ∉ document.seeds schema)) = true := by
    decide +kernel
  obtain ⟨schema, hschema, h⟩ := (Option.any_eq_true _ _).1 h
  obtain ⟨document, hdocument, h⟩ := (Option.any_eq_true _ _).1 h
  rw [Bool.and_eq_true, decide_eq_true_eq] at h
  obtain ⟨hclosed, h⟩ := h
  obtain ⟨t, ht, h⟩ := List.any_eq_true.1 h
  rw [Bool.and_eq_true, decide_eq_true_eq, decide_eq_true_eq] at h
  exact ⟨schema, document, hschema, hdocument, t, ht, h.1, fun hreachable ↦
    h.2 (hreachable.mem_of_closed (List.Subset.refl _) hclosed)⟩

end TypeFootprint
