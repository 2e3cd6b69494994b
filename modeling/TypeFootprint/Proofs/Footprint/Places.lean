import TypeFootprint.Proofs.Footprint.Members

/-!
# The footprint of a place

A document touches what its definitions touch, and a definition touches what its places do.
`Place.footprint` lists what is touched at a place and below it, with the fragments of the document
forgotten, so it depends on nothing but the text of the place and its scope.

* `mem_collect_iff_footprint` — a document touches what its definitions touch;
* `footprint_field`, `footprint_spread` and their companions — what a node touches by itself, and
  what its parts touch;
* `footprint_ofValue_congr` — of its scope, a value uses the input type in force and nothing else;
* `footprint_ofArgument_congr` — an argument uses the output type in force and its owner besides,
  and what is declared for it.
-/

set_option autoImplicit false

namespace TypeFootprint

namespace Place

variable {schema : Schema} {s s' : Scope} {p : Place} {t : TypeRef}

/-- The types that are touched at a place or below it. -/
def footprint (schema : Schema) (p : Place) : List TypeRef :=
  (callsOf schema (collectRules schema .empty) p).flatMap fun c ↦ c.recorded.types

/-- The types that are touched at some places or below them. -/
def footprints (schema : Schema) (ps : List Place) : List TypeRef := ps.flatMap (footprint schema)

@[simp] theorem footprints_nil : footprints schema [] = [] := rfl

@[simp] theorem footprints_cons (p : Place) (ps : List Place) :
    footprints schema (p :: ps) = p.footprint schema ++ footprints schema ps := rfl

@[simp] theorem footprints_append (ps qs : List Place) :
    footprints schema (ps ++ qs) = footprints schema ps ++ footprints schema qs :=
  List.flatMap_append

theorem mem_footprints {ps : List Place} :
    t ∈ footprints schema ps ↔ ∃ p ∈ ps, t ∈ p.footprint schema := List.mem_flatMap

theorem footprints_map_congr {α : Type} {xs : List α} {f g : α → Place}
    (h : ∀ x ∈ xs, (f x).footprint schema = (g x).footprint schema) :
    footprints schema (xs.map f) = footprints schema (xs.map g) := by
  rw [footprints, footprints, List.flatMap_map, List.flatMap_map]
  exact List.flatMap_congr h

/-- A place touches what it records by itself, and what its parts touch if they are visited. -/
theorem footprint_eq (p : Place) :
    p.footprint schema = p.touched schema ++
      if p.skips (collectRules schema .empty) then [] else footprints schema (p.parts schema) := by
  rw [footprint, callsOf_eq, List.flatMap_cons, ← touched]
  split
  · rfl
  · rw [List.flatMap_assoc]
    rfl

/-- Only object literals are passed over. -/
theorem footprint_of_node_ne (h : ∀ fields, p.node ≠ .value (.object fields)) :
    p.footprint schema = p.touched schema ++ footprints schema (p.parts schema) := by
  obtain ⟨node, s⟩ := p
  have hskips : skips (collectRules schema .empty) ⟨node, s⟩ = false := by
    cases node with
    | selection x => cases x <;> rfl
    | objectField n v =>
      rw [skips, call, collectRules, collectObjectField]
      cases s.position.parentInput <;> rfl
    | value v =>
      cases v with
      | object fields => exact absurd rfl (h fields)
      | _ => rfl
    | _ => rfl
  rw [footprint_eq, hskips]
  rfl

/-! ## What the nodes touch -/

theorem types_known_pair (t u : Option TypeRef) :
    (Recorded.known [t, u]).types = t.toList ++ u.toList := by
  cases t <;> cases u <;> rfl

theorem footprint_fragmentDefinition (f : Fragment) :
    footprint schema ⟨.fragmentDefinition f, s⟩ =
      (schema.resolveName? f.condition).toList ++
        (footprints schema (f.directives.map (ofDirective s)) ++
          footprints schema (ofSelections schema s f.selections)) := by
  have htouched : touched schema ⟨.fragmentDefinition f, s⟩
      = (schema.resolveName? f.condition).toList := by
    rw [touched, call, collectRules]
    cases schema.resolveName? f.condition <;> rfl
  rw [footprint_of_node_ne (by simp), htouched, parts_fragmentDefinition, footprints_append]

theorem footprint_operation (op : Operation) :
    footprint schema ⟨.operation op, s⟩ =
      footprints schema (op.declarations.map (ofVariable schema s)) ++
        (footprints schema (op.directives.map (ofDirective s)) ++
          footprints schema (ofSelections schema s op.selections)) := by
  rw [footprint_of_node_ne (by simp), parts_operation, footprints_append, footprints_append]
  rfl

theorem footprint_field (responseName : Option Name) (n : Name) (arguments : List Argument)
    (directives : List Directive) (selections : List Selection) :
    footprint schema ⟨.selection (.field responseName n arguments directives selections), s⟩ =
      (s.position.output.toList ++ s.position.parentOutput.toList) ++
        (footprints schema (arguments.map (ofArgument schema s)) ++
          (footprints schema (directives.map (ofDirective s)) ++
            footprints schema (ofSelections schema s selections))) := by
  rw [footprint_of_node_ne (by simp), parts_field, footprints_append, footprints_append]
  exact congrArg (· ++ _) (types_known_pair _ _)

theorem footprint_spread (n : Name) (directives : List Directive) :
    footprint schema ⟨.selection (.spread n directives), s⟩ =
      s.position.parentOutput.toList ++ footprints schema (directives.map (ofDirective s)) := by
  rw [footprint_of_node_ne (by simp), parts_spread]
  exact congrArg (· ++ _) (types_known_pair none _)

theorem footprint_inline (condition : Option Name) (directives : List Directive)
    (selections : List Selection) :
    footprint schema ⟨.selection (.inline condition directives selections), s⟩ =
      ((condition.bind schema.resolveName?).toList ++
          (s.position.parentOutput.toList ++ s.position.output.toList)) ++
        (footprints schema (directives.map (ofDirective s)) ++
          footprints schema (ofSelections schema s selections)) := by
  have htouched : touched schema ⟨.selection (.inline condition directives selections), s⟩
      = (condition.bind schema.resolveName?).toList ++
        (s.position.parentOutput.toList ++ s.position.output.toList) := by
    rw [← types_known_pair, touched, call, collectRules, collectSelection]
    cases condition.bind schema.resolveName? <;> rfl
  rw [footprint_of_node_ne (by simp), htouched, parts_inline, footprints_append]

theorem footprint_ofDirective (d : Directive) :
    footprint schema (ofDirective s d) =
      footprints schema (d.arguments.map (ofArgument schema (s.ofDirective schema d.name))) := by
  rw [ofDirective, footprint_of_node_ne (by simp), parts_directive]
  rfl

theorem footprint_ofArgument (a : Argument) :
    footprint schema (ofArgument schema s a) =
      (s.position.output.toList ++ s.position.parentOutput.toList) ++
        footprint schema (ofValue schema (s.ofArgument schema a.name) a.value) := by
  rw [ofArgument, footprint_of_node_ne (by simp), parts_argument, footprints_cons, footprints_nil,
    List.append_nil]
  exact congrArg (· ++ _) (types_known_pair _ _)

theorem footprint_ofObjectField (field : Name × Value) :
    footprint schema (ofObjectField schema s field) =
      (collectObjectField schema (s.ofObjectField schema field.1).position).types ++
        footprint schema (ofValue schema (s.ofObjectField schema field.1) field.2) := by
  rw [ofObjectField, footprint_of_node_ne (by simp), parts_objectField, footprints_cons,
    footprints_nil, List.append_nil]
  rfl

theorem footprints_ofSelections_cons (x : Selection) (xs : List Selection) :
    footprints schema (ofSelections schema s (x :: xs)) =
      footprint schema (ofSelection schema (s.ofSelections schema) x) ++
        footprints schema (ofSelections schema s xs) := rfl

/-- Whatever is selected touches the owner of the selection set. -/
theorem parentOutput_mem_footprint_ofSelection (x : Selection)
    (h : s.position.parentOutput = some t) : t ∈ footprint schema (ofSelection schema s x) := by
  cases x with
  | field responseName n arguments directives selections =>
    rw [ofSelection, footprint_field]
    simp [Scope.ofField, Scope.withOutput, h]
  | spread n directives =>
    rw [ofSelection, footprint_spread]
    simp [h]
  | inline condition directives selections =>
    rw [ofSelection, footprint_inline]
    simp [Scope.ofFragment, Scope.withOutput, h]

theorem parentOutput_mem_footprints_ofSelections {xs : List Selection} (hxs : xs ≠ [])
    (h : (s.ofSelections schema).position.parentOutput = some t) :
    t ∈ footprints schema (ofSelections schema s xs) := by
  obtain ⟨x, xs, rfl⟩ := List.exists_cons_of_ne_nil hxs
  rw [footprints_ofSelections_cons]
  exact List.mem_append_left _ (parentOutput_mem_footprint_ofSelection x h)

/-! ## What a footprint depends on -/

/-- Places with the same answer of the rules touch the same if their parts do. -/
theorem footprint_congr {node : Node}
    (hrules : collectRules schema .empty node s.position
      = collectRules schema .empty node s'.position)
    (hparts : footprints schema (parts schema ⟨node, s⟩)
      = footprints schema (parts schema ⟨node, s'⟩)) :
    footprint schema ⟨node, s⟩ = footprint schema ⟨node, s'⟩ := by
  rw [footprint_eq, footprint_eq]
  exact congrArg₂ (fun (r : Recorded) ts ↦ r.types ++ if r.skipChildren then [] else ts)
    hrules hparts

/-- The rule of a literal asks for the input type in force only; but that of a list comes when the
type of the items is in force, and asks for the one around. -/
theorem collectRules_value_congr {v : Value} (hv : ∀ items, v ≠ .list items)
    (h : s.position.input = s'.position.input) :
    collectRules schema .empty (.value v) s.position
      = collectRules schema .empty (.value v) s'.position := by
  cases v with
  | list items => exact absurd rfl (hv items)
  | _ => simp only [collectRules, collectValue, inputCore, h]

/-- What is written inside a literal is written against types that are found from its own. -/
theorem footprint_ofValue_congr {s s' : Scope} (h : s.position.input = s'.position.input)
    (v : Value) :
    footprint schema (ofValue schema s v) = footprint schema (ofValue schema s' v) := by
  cases v with
  | list items =>
    have hitems : (s.ofList schema).position.input = (s'.ofList schema).position.input := by
      simp only [Scope.ofList, Scope.withInput, h]
    refine footprint_congr ?_ (footprints_map_congr fun v hv ↦
      have := List.sizeOf_lt_of_mem hv
      footprint_ofValue_congr hitems v)
    simp only [collectRules, collectValue, Scope.ofList, Scope.withInput, h]
  | object fields =>
    refine footprint_congr (collectRules_value_congr (by simp) h) ?_
    refine footprints_map_congr fun field hfield ↦ ?_
    obtain ⟨n, v⟩ := field
    have hinput : (s.ofObjectField schema n).position.input
        = (s'.ofObjectField schema n).position.input := by
      simp only [Scope.ofObjectField, Scope.withInput, h]
    have hrule : collectObjectField schema (s.ofObjectField schema n).position
        = collectObjectField schema (s'.ofObjectField schema n).position := by
      simp only [collectObjectField, Scope.ofObjectField, Scope.withInput, h]
    have hsize : sizeOf v < sizeOf fields := by
      have := List.sizeOf_lt_of_mem hfield
      rw [Prod.mk.sizeOf_spec] at this
      omega
    rw [footprint_ofObjectField, footprint_ofObjectField, hrule, footprint_ofValue_congr hinput v]
  | _ => exact footprint_congr (collectRules_value_congr (by simp) h) rfl
termination_by sizeOf v

/-- An argument touches the output type in force and its owner, and otherwise what its value is
declared to be. -/
theorem footprint_ofArgument_congr (hposition : s.position = s'.position)
    (hdeclared : s.declaredArguments = s'.declaredArguments) (a : Argument) :
    footprint schema (ofArgument schema s a) = footprint schema (ofArgument schema s' a) := by
  have hinput : (s.ofArgument schema a.name).position.input
      = (s'.ofArgument schema a.name).position.input := by
    simp only [Scope.ofArgument, Scope.withInput, hdeclared]
  rw [footprint_ofArgument, footprint_ofArgument, footprint_ofValue_congr hinput, hposition]

end Place

/-! ## Documents -/

/-- The types that a definition touches. -/
def Definition.footprint (schema : Schema) (d : Definition) : List TypeRef :=
  Place.footprints schema (Place.ofDefinition? schema d).toList

variable {schema : Schema} {document : Document} {t : TypeRef}

theorem Definition.footprint_operation (op : Operation) :
    (Definition.operation op).footprint schema =
      Place.footprint schema ⟨.operation op, Scope.outside.ofOperation schema op.kind⟩ :=
  List.append_nil _

theorem Definition.footprint_fragment (f : Fragment) :
    (Definition.fragment f).footprint schema =
      Place.footprint schema
        ⟨.fragmentDefinition f, Scope.outside.ofFragment schema (some f.condition)⟩ :=
  List.append_nil _

/-- **A document touches what its definitions touch.** -/
theorem mem_collect_iff_footprint :
    t ∈ collect schema document ↔ ∃ d ∈ document, t ∈ d.footprint schema := by
  have hcalls : t ∈ collect schema document ↔
      ∃ c ∈ callsOfDocument schema (collectRules schema .empty) document, t ∈ c.recorded.types := by
    rw [mem_collect_iff_touched]
    constructor
    · rintro ⟨p, hp, ht⟩
      exact ⟨_, mem_callsOfDocument.2 ⟨p, hp, rfl⟩, ht⟩
    · rintro ⟨c, hc, ht⟩
      obtain ⟨p, hp, rfl⟩ := mem_callsOfDocument.1 hc
      exact ⟨p, hp, ht⟩
  rw [hcalls, callsOfDocument]
  constructor
  · rintro ⟨c, hc, ht⟩
    obtain ⟨p, hp, hc⟩ := List.mem_flatMap.1 hc
    obtain ⟨d, hd, hdp⟩ := List.mem_filterMap.1 hp
    exact ⟨d, hd, Place.mem_footprints.2
      ⟨p, Option.mem_toList.2 hdp, List.mem_flatMap.2 ⟨c, hc, ht⟩⟩⟩
  · rintro ⟨d, hd, ht⟩
    obtain ⟨p, hp, ht⟩ := Place.mem_footprints.1 ht
    obtain ⟨c, hc, ht⟩ := List.mem_flatMap.1 ht
    exact ⟨c, List.mem_flatMap.2
      ⟨p, List.mem_filterMap.2 ⟨d, hd, Option.mem_toList.1 hp⟩, hc⟩, ht⟩

end TypeFootprint
