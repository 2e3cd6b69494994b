import TypeFootprint.Inference.Typing

/-!
# The places that a walk visits

`callsOfDocument` is a list; what a single consultation says does not need its order.  `Visited` is
the set of the places that are consulted about, as a relation: the definitions of the document, and
with a place its parts, unless the rule passes over them.  A property that every definition has and
that each place hands to its parts is thus one of all places, by induction on `Visited`.

`mem_callsOfDocument` says that the consultations are those at visited places.  For a property of
scopes it does not matter what the text of a place is: `Handed` forgets it, and keeps how the scope
of a part comes about.
-/

set_option autoImplicit false

namespace TypeFootprint

/-- A place that the rules are consulted about in a document. -/
inductive Visited (schema : Schema) (rules : Rules) (document : Document) : Place → Prop
  | definition {d : Definition} {p : Place} (hd : d ∈ document)
      (hp : Place.ofDefinition? schema d = some p) : Visited schema rules document p
  | part {p q : Place} (hp : Visited schema rules document p) (hskips : p.skips rules = false)
      (hq : q ∈ p.parts schema) : Visited schema rules document q

variable {schema : Schema} {rules rules' : Rules} {document document' : Document} {p q : Place}

/-! ## Handing down -/

/-- Whether a node settles the output type of the selections below it: an operation, a field or a
fragment. -/
def Node.hasOutput : Node → Bool
  | .operation _ | .fragmentDefinition _ => true
  | .selection (.field ..) | .selection (.inline ..) => true
  | _ => false

/-- A place with a scope that it gets from the place above it. -/
inductive Handed (schema : Schema) (p : Place) : Place → Prop
  | declaration (v : VariableDefinition) : Handed schema p (.ofVariable schema p.scope v)
  | directive (d : Directive) : Handed schema p (.ofDirective p.scope d)
  | selection (hp : p.node.hasOutput = true) (x : Selection) :
    Handed schema p (.ofSelection schema (p.scope.ofSelections schema) x)
  | argument (a : Argument) : Handed schema p (.ofArgument schema p.scope a)
  | directiveArgument {d : Directive} (hp : p.node = .directive d) (a : Argument) :
    Handed schema p (.ofArgument schema (p.scope.ofDirective schema d.name) a)
  | value (v : Value) : Handed schema p (.ofValue schema p.scope v)
  | objectField {fields : List (Name × Value)} (hp : p.node = .value (.object fields))
      (field : Name × Value) : Handed schema p (.ofObjectField schema p.scope field)

theorem handed_of_mem_parts (h : q ∈ p.parts schema) : Handed schema p q := by
  obtain ⟨node, s⟩ := p
  have hargument {as : List Argument} (h : q ∈ as.map (Place.ofArgument schema s)) :
      Handed schema ⟨node, s⟩ q := by
    obtain ⟨a, -, rfl⟩ := List.mem_map.1 h
    exact .argument a
  have hdirective {ds : List Directive} (h : q ∈ ds.map (Place.ofDirective s)) :
      Handed schema ⟨node, s⟩ q := by
    obtain ⟨d, -, rfl⟩ := List.mem_map.1 h
    exact .directive d
  have hselection (hnode : node.hasOutput = true) {xs : List Selection}
      (h : q ∈ Place.ofSelections schema s xs) : Handed schema ⟨node, s⟩ q := by
    obtain ⟨x, -, rfl⟩ := List.mem_map.1 h
    exact .selection hnode x
  have hvalue {vs : List Value} (h : q ∈ vs.map (Place.ofValue schema s)) :
      Handed schema ⟨node, s⟩ q := by
    obtain ⟨v, -, rfl⟩ := List.mem_map.1 h
    exact .value v
  cases node with
  | operation op =>
    simp only [Place.parts_operation, List.mem_append] at h
    rcases h with h | h | h
    · obtain ⟨v, -, rfl⟩ := List.mem_map.1 h
      exact .declaration v
    · exact hdirective h
    · exact hselection rfl h
  | variableDefinition v =>
    simp only [Place.parts_variableDefinition, List.mem_cons, List.mem_append] at h
    rcases h with rfl | h | h
    · exact .value _
    · exact hvalue h
    · exact hdirective h
  | fragmentDefinition f =>
    simp only [Place.parts_fragmentDefinition, List.mem_append] at h
    exact h.elim hdirective (hselection rfl)
  | selection x =>
    cases x with
    | field responseName n arguments directives selections =>
      simp only [Place.parts_field, List.mem_append] at h
      rcases h with h | h | h
      · exact hargument h
      · exact hdirective h
      · exact hselection rfl h
    | spread n directives => exact hdirective h
    | inline condition directives selections =>
      simp only [Place.parts_inline, List.mem_append] at h
      exact h.elim hdirective (hselection rfl)
  | argument a =>
    obtain rfl : q = .ofValue schema s a.value := by simpa using h
    exact .value _
  | directive d =>
    obtain ⟨a, -, rfl⟩ := List.mem_map.1 h
    exact .directiveArgument rfl a
  | value v =>
    cases v with
    | list items => exact hvalue h
    | object fields =>
      obtain ⟨field, -, rfl⟩ := List.mem_map.1 h
      exact .objectField rfl field
    | _ => simp [Place.parts] at h
  | objectField n v =>
    obtain rfl : q = .ofValue schema s v := by simpa using h
    exact .value _

/-- A field of an object literal that is visited has its literal above it, and the type that this is
written against around it. -/
theorem Visited.exists_object_of_objectField {n : Name} {v : Value}
    (h : Visited schema rules document q) (hnode : q.node = .objectField n v) :
    ∃ fields s, Visited schema rules document ⟨.value (.object fields), s⟩ ∧
      Place.skips rules ⟨.value (.object fields), s⟩ = false ∧
      q.scope.position.parentInput = s.position.input := by
  cases h with
  | @definition d _ hd hp => cases d <;> cases hp <;> cases hnode
  | @part p _ hp hskips hq =>
    obtain ⟨node, s⟩ := p
    cases handed_of_mem_parts hq with
    | @objectField fields hobject field =>
      obtain rfl : node = .value (.object fields) := hobject
      exact ⟨fields, s, hp, hskips, rfl⟩
    | value v => simp at hnode
    | _ => cases hnode

/-! ## Consultations at visited places -/

theorem call_mem_callsOf (p : Place) : p.call rules ∈ callsOf schema rules p := by
  rw [callsOf_eq]
  exact List.mem_cons_self

theorem callsOf_subset_of_mem_parts (hskips : p.skips rules = false) (hq : q ∈ p.parts schema) :
    callsOf schema rules q ⊆ callsOf schema rules p := by
  intro c hc
  rw [callsOf_eq schema rules p, hskips]
  exact List.mem_cons_of_mem _ (List.mem_flatMap.2 ⟨q, hq, hc⟩)

theorem Visited.callsOf_subset (h : Visited schema rules document p) :
    callsOf schema rules p ⊆ callsOfDocument schema rules document := by
  induction h with
  | definition hd hp =>
    intro c hc
    exact List.mem_flatMap.2 ⟨_, List.mem_filterMap.2 ⟨_, hd, hp⟩, hc⟩
  | part _ hskips hq ih => exact List.Subset.trans (callsOf_subset_of_mem_parts hskips hq) ih

theorem Visited.exists_of_mem_callsOf {c : Call} (hp : Visited schema rules document p)
    (hc : c ∈ callsOf schema rules p) :
    ∃ q, Visited schema rules document q ∧ q.call rules = c := by
  induction p using Place.parts_induction schema with
  | step p ih =>
    rw [callsOf_eq, List.mem_cons] at hc
    rcases hc with rfl | hc
    · exact ⟨p, hp, rfl⟩
    · split at hc
      · simp at hc
      · rename_i hskips
        obtain ⟨q, hq, hcq⟩ := List.mem_flatMap.1 hc
        exact ih q hq (hp.part (by simpa using hskips) hq) hcq

/-- **The consultations in a document are those at the places that are visited.** -/
theorem mem_callsOfDocument {c : Call} :
    c ∈ callsOfDocument schema rules document ↔
      ∃ p, Visited schema rules document p ∧ p.call rules = c := by
  constructor
  · intro hc
    obtain ⟨p, hp, hcp⟩ := List.mem_flatMap.1 hc
    obtain ⟨d, hd, hdp⟩ := List.mem_filterMap.1 hp
    exact (Visited.definition hd hdp).exists_of_mem_callsOf hcp
  · rintro ⟨p, hp, rfl⟩
    exact hp.callsOf_subset (call_mem_callsOf p)

/-! ## Other documents and other rules -/

theorem Visited.mono (h : Visited schema rules document p) (hsub : document ⊆ document') :
    Visited schema rules document' p := by
  induction h with
  | definition hd hp => exact .definition (hsub hd) hp
  | part _ hskips hq ih => exact ih.part hskips hq

/-- What is visited depends on the definitions one by one. -/
theorem visited_append :
    Visited schema rules (document ++ document') p ↔
      Visited schema rules document p ∨ Visited schema rules document' p := by
  constructor
  · intro h
    induction h with
    | definition hd hp =>
      rcases List.mem_append.1 hd with hd | hd
      · exact .inl (.definition hd hp)
      · exact .inr (.definition hd hp)
    | part _ hskips hq ih => exact ih.imp (·.part hskips hq) (·.part hskips hq)
  · rintro (h | h)
    · exact h.mono (List.subset_append_left _ _)
    · exact h.mono (List.subset_append_right _ _)

/-- What is visited depends on the rules only through what they pass over. -/
theorem Visited.congr (h : Visited schema rules document p)
    (hrules : ∀ q : Place, q.skips rules' = q.skips rules) :
    Visited schema rules' document p := by
  induction h with
  | definition hd hp => exact .definition hd hp
  | part _ hskips hq ih => exact ih.part ((hrules _).trans hskips) hq

end TypeFootprint
