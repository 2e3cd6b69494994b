import TypeFootprint.Proofs.Footprint.Members
import TypeFootprint.Proofs.Inference.Literals
import TypeFootprint.Proofs.Schema.Trim
import TypeFootprint.Schema.BuiltIn

/-!
# A footprint is all that its document needs

Whatever type decides something in the course of a walk is recorded somewhere: the owner of a
selection set by each of its items, the type of an argument by the literal that is written for it,
an input object by the fields of the literal.  So a schema that keeps no more than the reported
types gives the same footprint.

The two walks are compared place by place.  `Place.trim` restricts the types of a place to the kept
names.  It commutes with every scope rule: where a rule reads the definition of a type, and not only
its name, this needs the type to be kept, and the place behind the rule records that type.

* `Place.call_trim` — a place that records kept types only records the same in the trimmed schema;
* `Place.parts_trim` — if its parts do so, they are the parts in the trimmed schema, trimmed;
* `callsOf_trim` — hence the consultations are the same ones, at trimmed positions;
* `collect_trim_reportedNames` — trimming to the reported types changes nothing.

An empty object literal is the exception: it records what the fields of its input object are of, but
not the input object.
-/

set_option autoImplicit false

namespace TypeFootprint

variable {schema : Schema} {names : List Name} {fragments : Fragments}

/-! ## Trimming scopes -/

/-- The types of a position that are within the names. -/
def Position.trim (names : List Name) (p : Position) : Position :=
  ⟨within names p.output, within names p.parentOutput, within names p.input,
    within names p.parentInput⟩

namespace Scope

/-- The scope with the types within the names. -/
def trim (names : List Name) (s : Scope) : Scope := { s with position := s.position.trim names }

variable {s : Scope}

theorem ofOperation_trim (kind : OperationKind) :
    (s.trim names).ofOperation (schema.trim names) kind
      = (s.ofOperation schema kind).trim names := by
  rw [ofOperation, keep_trim]
  rfl

theorem ofFragment_trim (condition : Option Name) :
    (s.trim names).ofFragment (schema.trim names) condition
      = (s.ofFragment schema condition).trim names := by
  cases condition with
  | some n =>
    rw [ofFragment, Option.some_or, keep_trim]
    rfl
  | none =>
    have h : ((within names s.position.output).map TypeRef.core).map TypeRef.ofName
        = within names ((s.position.output.map TypeRef.core).map .ofName) := by
      rw [Option.map_map, Option.map_map]
      exact within_map_core _
    rw [ofFragment, Option.none_or]
    simp only [trim, Position.trim]
    rw [h, keep_trim_within]
    rfl

theorem ofSelections_trim :
    (s.trim names).ofSelections (schema.trim names) = (s.ofSelections schema).trim names := by
  rw [ofSelections]
  simp only [trim, Position.trim]
  rw [within_map_core, keep_trim_within]
  rfl

/-- A field is looked up on its owner, so the owner has to be kept. -/
theorem ofField_trim (n : Name)
    (howner : ∀ t, s.position.parentOutput = some t → t.core ∈ names) :
    (s.trim names).ofField (schema.trim names) n = (s.ofField schema n).trim names := by
  have h : ((within names s.position.parentOutput).bind fun t ↦
      (schema.trim names).field? t.core n)
        = s.position.parentOutput.bind fun t ↦ schema.field? t.core n := by
    rw [within_eq_self howner]
    cases hp : s.position.parentOutput with
    | none => rfl
    | some t => exact Schema.field?_trim_of_mem (howner t hp) n
  rw [ofField]
  simp only [trim, Position.trim]
  rw [h, keep_trim]
  rfl

theorem ofVariable_trim (type : TypeRef) :
    (s.trim names).ofVariable (schema.trim names) type
      = (s.ofVariable schema type).trim names := by
  rw [ofVariable, keep_trim]
  rfl

theorem ofDirective_trim (n : Name) :
    (s.trim names).ofDirective (schema.trim names) n = (s.ofDirective schema n).trim names := rfl

theorem ofArgument_trim (n : Name) :
    (s.trim names).ofArgument (schema.trim names) n = (s.ofArgument schema n).trim names := by
  rw [ofArgument, keep_trim]
  rfl

theorem ofList_trim :
    (s.trim names).ofList (schema.trim names) = (s.ofList schema).trim names := by
  rw [ofList]
  simp only [trim, Position.trim]
  rw [within_map core_itemsOf_nullable, keep_trim_within]
  rfl

/-- A field of an object literal is looked up in the input object, so that has to be kept. -/
theorem ofObjectField_trim (n : Name)
    (hinput : ∀ t, s.position.input = some t → t.core ∈ names) :
    (s.trim names).ofObjectField (schema.trim names) n
      = (s.ofObjectField schema n).trim names := by
  have h : ((within names s.position.input).bind fun t ↦ (schema.trim names).inputObject? t.core)
      = s.position.input.bind fun t ↦ schema.inputObject? t.core := by
    rw [within_eq_self hinput]
    cases hp : s.position.input with
    | none => rfl
    | some t => exact Schema.inputObject?_trim_of_mem (hinput t hp)
  rw [ofObjectField]
  simp only [trim, Position.trim]
  rw [h, keep_trim]
  rfl

end Scope

/-! ## Trimming rules -/

/-- All types have their cores among the names. -/
def Kept (names : List Name) (types : List TypeRef) : Prop := ∀ t ∈ types, t.core ∈ names

/-- A recorded type is kept. -/
theorem Kept.core_mem {types : List (Option TypeRef)} (h : Kept names (Recorded.known types).types)
    {t : TypeRef} (ht : some t ∈ types) : t.core ∈ names :=
  h t (List.mem_filterMap.2 ⟨_, ht, rfl⟩)

theorem known_within {types : List (Option TypeRef)}
    (h : Kept names (Recorded.known types).types) :
    Recorded.known (types.map (within names)) = Recorded.known types := by
  have hself : types.map (within names) = types.map id :=
    List.map_congr_left fun t ht ↦ within_eq_self fun u hu ↦ h.core_mem (hu ▸ ht)
  rw [hself, List.map_id]

theorem inputCore_trim (p : Position) : inputCore (p.trim names) = within names (inputCore p) :=
  within_map_core _

theorem Fragments.type?_trim (n : Name) :
    fragments.type? (schema.trim names) n = within names (fragments.type? schema n) := by
  rw [type?, type?, Option.bind_eq_bind]
  cases fragments.find? n with
  | none => rfl
  | some f => exact Schema.keepKind_trim _ _

theorem resolveCondition_trim (condition : Option Name) :
    condition.bind (schema.trim names).resolveName?
      = within names (condition.bind schema.resolveName?) := by
  cases condition with
  | none => rfl
  | some n => exact Schema.resolve?_trim _

/-- What a selection records is kept, so it records the same. -/
theorem collectSelection_trim {p : Position} {x : Selection}
    (h : Kept names (collectSelection schema fragments p x).types) :
    collectSelection (schema.trim names) fragments (p.trim names) x
      = collectSelection schema fragments p x := by
  cases x with
  | field responseName n arguments directives selections => exact known_within h
  | spread n directives =>
    rw [collectSelection, Fragments.type?_trim]
    exact known_within h
  | inline condition directives selections =>
    rw [collectSelection, resolveCondition_trim]
    exact known_within h

/-- A literal, likewise; but the definition of an input object has to be kept too, and the literal
does not record its name. -/
theorem collectValue_trim {p : Position} {v : Value}
    (h : Kept names (collectValue schema p v).types)
    (hobject : ∀ fields t, v = .object fields → p.input = some t → schema.inputObject? t.core ≠ none →
      t.core ∈ names) :
    collectValue (schema.trim names) (p.trim names) v = collectValue schema p v := by
  cases v with
  | var n => rfl
  | null => exact known_within h
  | list items =>
    rw [collectValue]
    simp only [Position.trim]
    rw [within_map TypeRef.core_nullable]
    exact known_within h
  | object fields =>
    cases hp : p.input with
    | none => simp only [collectValue, Position.trim, hp]; rfl
    | some t =>
      have hmem : t.core ∈ names := by
        by_cases hi : schema.inputObject? t.core = none
        · refine h (.ofName t.core) ?_
          simp [collectValue, hp, hi, Recorded.known, Recorded.skipping]
        · exact hobject fields t rfl hp hi
      have hinput : (p.trim names).input = some t :=
        (congrArg (within names) hp).trans (within_of_mem hmem)
      simp only [collectValue, hp, hinput, Schema.inputObject?_trim_of_mem hmem,
        Schema.inputFieldTypes_trim_of_mem hmem]
  | _ =>
    show Recorded.known [inputCore (p.trim names)] = Recorded.known [inputCore p]
    rw [inputCore_trim]
    exact known_within h

theorem collectObjectField_trim {p : Position}
    (h : Kept names (collectObjectField schema p).types) :
    collectObjectField (schema.trim names) (p.trim names) = collectObjectField schema p := by
  have hinput : within names p.input = p.input := by
    refine within_eq_self fun t ht ↦ h t ?_
    rw [collectObjectField]
    split <;> simp [Recorded.and, ht]
  cases hp : p.parentInput with
  | none => simp only [collectObjectField, Position.trim, hp, hinput]; rfl
  | some t =>
    have hmem : t.core ∈ names := by
      refine h (.ofName t.core) ?_
      simp [collectObjectField, hp, Recorded.known, Recorded.and]
    have hparent : (p.trim names).parentInput = some t :=
      (congrArg (within names) hp).trans (within_of_mem hmem)
    simp only [collectObjectField, hparent, hp, Schema.inputFieldTypes_trim_of_mem hmem]
    simp only [Position.trim, hinput]

/-! ## Trimming places -/

/-- The consultation with the position trimmed. -/
def Call.trim (names : List Name) (c : Call) : Call := { c with position := c.position.trim names }

namespace Place

/-- The place with its scope trimmed. -/
def trim (names : List Name) (p : Place) : Place := ⟨p.node, p.scope.trim names⟩

/-- The place records types that are kept only, if this is what the fragments are. -/
def RecordsKept (schema : Schema) (fragments : Fragments) (names : List Name) (p : Place) : Prop :=
  Kept names (p.call (collectRules schema fragments)).recorded.types

variable {s : Scope}

/-- **A place that records kept types only records the same in the trimmed schema.**  Where an input
object is taken apart it has to be kept. -/
theorem call_trim {p : Place} (h : p.RecordsKept schema fragments names)
    (hobject : ∀ fields t, p.node = .value (.object fields) → p.scope.position.input = some t →
      schema.inputObject? t.core ≠ none → t.core ∈ names) :
    (p.trim names).call (collectRules (schema.trim names) fragments)
      = (p.call (collectRules schema fragments)).trim names := by
  obtain ⟨node, s⟩ := p
  have hrecorded : collectRules (schema.trim names) fragments node (s.position.trim names)
      = collectRules schema fragments node s.position := by
    cases node with
    | operation op => rfl
    | variableDefinition v =>
      rw [collectRules, Schema.resolve?_trim]
      exact known_within h
    | fragmentDefinition f =>
      rw [collectRules, Schema.resolveName?, Schema.resolve?_trim]
      exact known_within h
    | selection x => exact collectSelection_trim h
    | argument a => exact known_within h
    | directive d => rfl
    | value v => exact collectValue_trim h fun fields t hv ↦ hobject fields t (congrArg Node.value hv)
    | objectField n v => exact collectObjectField_trim h
  simp only [call, trim, Call.trim, Scope.trim, hrecorded]

theorem ofValue_trim (v : Value) :
    ofValue (schema.trim names) (s.trim names) v = (ofValue schema s v).trim names := by
  cases v with
  | list items => exact congrArg (Place.mk _) Scope.ofList_trim
  | _ => rfl

theorem ofArgument_trim (a : Argument) :
    ofArgument (schema.trim names) (s.trim names) a = (ofArgument schema s a).trim names :=
  congrArg (Place.mk _) (Scope.ofArgument_trim a.name)

theorem ofVariable_trim (v : VariableDefinition) :
    ofVariable (schema.trim names) (s.trim names) v = (ofVariable schema s v).trim names :=
  congrArg (Place.mk _) (Scope.ofVariable_trim v.type)

theorem ofDirective_trim (d : Directive) :
    ofDirective (s.trim names) d = (ofDirective s d).trim names := rfl

/-- A field records its owner. -/
theorem ofSelection_trim {x : Selection}
    (h : (ofSelection schema s x).RecordsKept schema fragments names) :
    ofSelection (schema.trim names) (s.trim names) x = (ofSelection schema s x).trim names := by
  cases x with
  | field responseName n arguments directives selections =>
    refine congrArg (Place.mk _) (Scope.ofField_trim n fun t ht ↦ ?_)
    refine Kept.core_mem h (t := t) ?_
    simp [ofSelection, Scope.ofField, Scope.withOutput, ht]
  | spread n directives => rfl
  | inline condition directives selections =>
    exact congrArg (Place.mk _) (Scope.ofFragment_trim condition)

/-- A field of an object literal records the input object. -/
theorem core_mem_of_objectField {field : Name × Value}
    (h : (ofObjectField schema s field).RecordsKept schema fragments names) {t : TypeRef}
    (ht : s.position.input = some t) : t.core ∈ names :=
  h (.ofName t.core) (core_mem_objectField field ht)

theorem ofObjectField_trim {field : Name × Value}
    (h : (ofObjectField schema s field).RecordsKept schema fragments names) :
    ofObjectField (schema.trim names) (s.trim names) field
      = (ofObjectField schema s field).trim names :=
  congrArg (Place.mk _) (Scope.ofObjectField_trim field.1 fun _ ht ↦ core_mem_of_objectField h ht)

/-- Trimming in a list of places. -/
theorem map_trim {α : Type} {xs : List α} {f g : α → Place}
    (h : ∀ x ∈ xs, f x = (g x).trim names) : xs.map f = (xs.map g).map (trim names) := by
  rw [List.map_map]
  exact List.map_congr_left h

theorem ofSelections_trim {xs : List Selection}
    (h : ∀ q ∈ ofSelections schema s xs, q.RecordsKept schema fragments names) :
    ofSelections (schema.trim names) (s.trim names) xs
      = (ofSelections schema s xs).map (trim names) := by
  rw [ofSelections, Scope.ofSelections_trim]
  exact map_trim fun x hx ↦ ofSelection_trim (h _ (List.mem_map_of_mem hx))

/-- **Parts that record kept types only are the parts in the trimmed schema.** -/
theorem parts_trim {p : Place}
    (h : ∀ q ∈ p.parts schema, q.RecordsKept schema fragments names) :
    (p.trim names).parts (schema.trim names) = (p.parts schema).map (trim names) := by
  obtain ⟨node, s⟩ := p
  rw [trim]
  have harguments (s : Scope) (as : List Argument) :
      as.map (ofArgument (schema.trim names) (s.trim names))
        = (as.map (ofArgument schema s)).map (trim names) :=
    map_trim fun a _ ↦ ofArgument_trim a
  have hdirectives (ds : List Directive) :
      ds.map (ofDirective (s.trim names)) = (ds.map (ofDirective s)).map (trim names) :=
    map_trim fun d _ ↦ ofDirective_trim d
  have hvalues (vs : List Value) :
      vs.map (ofValue (schema.trim names) (s.trim names))
        = (vs.map (ofValue schema s)).map (trim names) :=
    map_trim fun v _ ↦ ofValue_trim v
  cases node with
  | operation op =>
    have hvariables : op.declarations.map (ofVariable (schema.trim names) (s.trim names))
        = (op.declarations.map (ofVariable schema s)).map (trim names) :=
      map_trim fun v _ ↦ ofVariable_trim v
    have hselections := ofSelections_trim fun q hq ↦
      h q (List.mem_append_right _ (List.mem_append_right _ hq))
    rw [parts_operation, parts_operation, hvariables, hdirectives, hselections, List.map_append,
      List.map_append]
  | variableDefinition v =>
    rw [parts_variableDefinition, parts_variableDefinition, ofValue_trim, hvalues, hdirectives,
      List.map_cons, List.map_append]
  | fragmentDefinition f =>
    have hselections := ofSelections_trim fun q hq ↦ h q (List.mem_append_right _ hq)
    rw [parts_fragmentDefinition, parts_fragmentDefinition, hdirectives, hselections,
      List.map_append]
  | selection x =>
    cases x with
    | field responseName n arguments directives selections =>
      have hselections := ofSelections_trim fun q hq ↦
        h q (List.mem_append_right _ (List.mem_append_right _ hq))
      rw [parts_field, parts_field, harguments, hdirectives, hselections, List.map_append,
        List.map_append]
    | spread n directives => exact hdirectives directives
    | inline condition directives selections =>
      have hselections := ofSelections_trim fun q hq ↦ h q (List.mem_append_right _ hq)
      rw [parts_inline, parts_inline, hdirectives, hselections, List.map_append]
  | argument a =>
    rw [parts_argument, parts_argument, ofValue_trim, List.map_cons, List.map_nil]
  | directive d =>
    rw [parts_directive, parts_directive, Scope.ofDirective_trim, harguments]
  | value v =>
    cases v with
    | list items => exact hvalues items
    | object fields =>
      rw [parts_object, parts_object]
      exact map_trim fun field hfield ↦ ofObjectField_trim (h _ (List.mem_map_of_mem hfield))
    | _ => rfl
  | objectField n v =>
    rw [parts_objectField, parts_objectField, ofValue_trim, List.map_cons, List.map_nil]

end Place

/-! ## Trimming walks -/

/-- Whether a value is the object literal without fields. -/
def Value.isEmptyObject : Value → Bool
  | .object [] => true
  | _ => false

/-- The test that is passed by every value but the object literal without fields. -/
def Value.notEmptyObject (v : Value) : Bool := !v.isEmptyObject

/-- An input object is recorded by the first field of a literal that is written against it. -/
theorem core_mem_of_object {p : Place}
    (hkept : ∀ c ∈ callsOf schema (collectRules schema fragments) p, Kept names c.recorded.types)
    (htest : p.node.allValues Value.notEmptyObject = true) (fields : List (Name × Value))
    (t : TypeRef) (hnode : p.node = .value (.object fields))
    (hinput : p.scope.position.input = some t) (hobject : schema.inputObject? t.core ≠ none) :
    t.core ∈ names := by
  obtain ⟨node, s⟩ := p
  obtain rfl : node = .value (.object fields) := hnode
  cases fields with
  | nil => simp [Node.allValues, Value.all, Value.notEmptyObject, Value.isEmptyObject] at htest
  | cons field fields =>
    have hs : s.position.input = some t := hinput
    have hpart : Place.ofObjectField schema s field
        ∈ Place.parts schema ⟨.value (.object (field :: fields)), s⟩ := by simp
    have hrecords := hkept _
      (callsOf_subset_of_mem_parts (skips_object hs hobject) hpart (call_mem_callsOf _))
    exact Place.core_mem_of_objectField hrecords hs

/-- **A walk that records kept types only is the same walk in the trimmed schema**, through the same
nodes, with the same answers. -/
theorem callsOf_trim (p : Place)
    (hkept : ∀ c ∈ callsOf schema (collectRules schema fragments) p, Kept names c.recorded.types)
    (htest : p.node.allValues Value.notEmptyObject = true) :
    callsOf (schema.trim names) (collectRules (schema.trim names) fragments) (p.trim names)
      = (callsOf schema (collectRules schema fragments) p).map (Call.trim names) := by
  induction p using Place.parts_induction schema with
  | step p ih =>
    have hcall : (p.trim names).call (collectRules (schema.trim names) fragments)
        = (p.call (collectRules schema fragments)).trim names :=
      Place.call_trim (hkept _ (call_mem_callsOf p)) (core_mem_of_object hkept htest)
    have hskips : (p.trim names).skips (collectRules (schema.trim names) fragments)
        = p.skips (collectRules schema fragments) := by
      rw [Place.skips, hcall]
      rfl
    rw [callsOf_eq, callsOf_eq schema, hcall, hskips, List.map_cons]
    cases hs : p.skips (collectRules schema fragments) with
    | true => rfl
    | false =>
      have hsub {q : Place} (hq : q ∈ p.parts schema) :
          ∀ c ∈ callsOf schema (collectRules schema fragments) q, Kept names c.recorded.types :=
        fun c hc ↦ hkept c (callsOf_subset_of_mem_parts hs hq hc)
      have hparts := Place.parts_trim fun q hq ↦ hsub hq _ (call_mem_callsOf q)
      have hbelow : (p.parts schema).flatMap (fun q ↦ callsOf (schema.trim names)
            (collectRules (schema.trim names) fragments) (q.trim names))
          = (p.parts schema).flatMap fun q ↦
            (callsOf schema (collectRules schema fragments) q).map (Call.trim names) := by
        refine List.flatMap_congr fun q hq ↦ ?_
        exact ih q hq (hsub hq) (Place.allValues_of_mem_parts htest hq)
      simp only [Bool.false_eq_true, if_false]
      rw [hparts, List.flatMap_map, hbelow, List.map_flatMap]

/-- A definition opens the same place. -/
theorem Place.ofDefinition?_trim (d : Definition) :
    ofDefinition? (schema.trim names) d = (ofDefinition? schema d).map (trim names) := by
  cases d with
  | operation op => exact congrArg (some ∘ Place.mk _) (Scope.ofOperation_trim (s := .outside) op.kind)
  | fragment f => exact congrArg (some ∘ Place.mk _) (Scope.ofFragment_trim (s := .outside) _)
  | typeSystem d => rfl

theorem callsOfDocument_trim {document : Document}
    (hkept : ∀ c ∈ callsOfDocument schema (collectRules schema fragments) document,
      Kept names c.recorded.types)
    (htest : document.allValues Value.notEmptyObject = true) :
    callsOfDocument (schema.trim names) (collectRules (schema.trim names) fragments) document
      = (callsOfDocument schema (collectRules schema fragments) document).map
          (Call.trim names) := by
  have hplaces : document.filterMap (Place.ofDefinition? (schema.trim names))
      = (document.filterMap (Place.ofDefinition? schema)).map (Place.trim names) := by
    rw [List.map_filterMap]
    exact List.filterMap_congr fun d _ ↦ Place.ofDefinition?_trim d
  rw [callsOfDocument, hplaces, List.flatMap_map, callsOfDocument, List.map_flatMap]
  refine List.flatMap_congr fun p hp ↦ callsOf_trim p (fun c hc ↦ ?_) ?_
  · exact hkept c (List.mem_flatMap.2 ⟨p, hp, hc⟩)
  · exact Place.allValues_of_mem_document htest hp

/-! ## Trimming to a footprint -/

/-- The names of the types that a document touches, with those of the possible types behind them. -/
def reportedNames (schema : Schema) (document : Document) : List Name :=
  (expand schema (collect schema document)).toList.map TypeRef.core

theorem collect_trim {document : Document}
    (hkept : ∀ t ∈ collect schema document, t.core ∈ names)
    (htest : document.allValues Value.notEmptyObject = true) :
    collect (schema.trim names) document = collect schema document := by
  have htypes : recordedTypes ((callsOfDocument schema
        (collectRules schema (.ofDocument document)) document).map (Call.trim names))
      = recordedTypes (callsOfDocument schema
        (collectRules schema (.ofDocument document)) document) := by
    rw [recordedTypes, List.flatMap_map]
    rfl
  rw [collect_eq, callsOfDocument_trim (fun c hc t ht ↦ hkept t ?_) htest, htypes, collect_eq]
  rw [collect_eq, mem_recordedTypes]
  exact ⟨c, hc, ht⟩

theorem core_mem_reportedNames {document : Document} {t : TypeRef}
    (h : t ∈ expand schema (collect schema document)) : t.core ∈ reportedNames schema document :=
  List.mem_map_of_mem h

theorem expand_trim {types : OrderedSet TypeRef}
    (hkept : ∀ t ∈ expand schema types, t.core ∈ names) :
    expand (schema.trim names) types = expand schema types := by
  have hpossible : types.toList.flatMap (fun t ↦
        (possibleTypes (schema.trim names) t.core).map TypeRef.ofName)
      = types.toList.flatMap fun t ↦ (possibleTypes schema t.core).map .ofName := by
    refine List.flatMap_congr fun t ht ↦ ?_
    rw [possibleTypes_trim (hkept t (mem_expand.2 (.inl ht))) fun m hm ↦ ?_]
    have hm' := hkept (.ofName m) (mem_expand.2 (.inr ⟨t, ht, m, hm, rfl⟩))
    rwa [TypeRef.core_ofName] at hm'
  rw [expand, hpossible, expand]

/-- **A footprint is all that its document needs.**  If no object literal of the document is empty,
a schema that keeps the reported types only gives the same types, in the same order, before and after
the abstract ones are expanded. -/
theorem collect_trim_reportedNames (schema : Schema) (document : Document)
    (h : document.allValues Value.notEmptyObject = true) :
    collect (schema.trim (reportedNames schema document)) document = collect schema document ∧
    expand (schema.trim (reportedNames schema document))
        (collect (schema.trim (reportedNames schema document)) document)
      = expand schema (collect schema document) := by
  have hcollect : collect (schema.trim (reportedNames schema document)) document
      = collect schema document :=
    collect_trim (fun t ht ↦ core_mem_reportedNames (mem_expand.2 (.inl ht))) h
  refine ⟨hcollect, ?_⟩
  rw [hcollect]
  exact expand_trim fun t ht ↦ core_mem_reportedNames ht

/-- A schema in which nodes are found by the properties of their identifiers. -/
def filterSchema : Schema where
  types := BuiltIn.types ++
    [BuiltIn.objectType (BuiltIn.named "Search")
      [⟨none, BuiltIn.named "find",
        [BuiltIn.argument (BuiltIn.named "by") (BuiltIn.required (BuiltIn.named "Filter"))],
        BuiltIn.optional (BuiltIn.named "Node"), []⟩],
     ⟨none, BuiltIn.named "Filter", [], .inputObject
      [BuiltIn.argument (BuiltIn.named "id") (BuiltIn.optional (BuiltIn.named "IdFilter"))]⟩,
     ⟨none, BuiltIn.named "IdFilter", [], .inputObject
      [BuiltIn.argument (BuiltIn.named "equals") (BuiltIn.optional .string)]⟩,
     ⟨none, BuiltIn.named "Node", [], .interface []
      [BuiltIn.plainField (BuiltIn.named "id") (BuiltIn.required .string)]⟩,
     ⟨none, BuiltIn.named "User", [], .object [BuiltIn.named "Node"]
      [BuiltIn.plainField (BuiltIn.named "id") (BuiltIn.required .string)]⟩]
  directives := BuiltIn.directives
  roots := ⟨some (BuiltIn.named "Search"), none, none⟩
  types_nodup := by decide

/-- A query for a node with this filter. -/
def findBy (filter : List (Name × Value)) : Document :=
  [.operation ⟨.query, none, [], [], [.field none (BuiltIn.named "find")
    [⟨BuiltIn.named "by", .object filter⟩] [] [.field none (BuiltIn.named "id") [] [] []]]⟩]

/-- A query for the node with an identifier. -/
def findById : Document :=
  findBy [(BuiltIn.named "id", .object [(BuiltIn.named "equals", .string "1")])]

/-- Object literals inside each other, none of them empty, and an interface around them. -/
theorem collect_trim_reportedNames_findById :
    findById.allValues Value.notEmptyObject = true ∧
    collect (filterSchema.trim (reportedNames filterSchema findById)) findById
      = collect filterSchema findById ∧
    expand (filterSchema.trim (reportedNames filterSchema findById))
        (collect (filterSchema.trim (reportedNames filterSchema findById)) findById)
      = expand filterSchema (collect filterSchema findById) :=
  have h : findById.allValues Value.notEmptyObject = true := by decide
  ⟨h, collect_trim_reportedNames filterSchema findById h⟩

/-- The filter `{}` records `IdFilter`, which is found in `Filter` only, but not `Filter`. -/
example :
    (collect (filterSchema.trim (reportedNames filterSchema (findBy []))) (findBy [])).toList
      ≠ (collect filterSchema (findBy [])).toList := by
  decide

end TypeFootprint
