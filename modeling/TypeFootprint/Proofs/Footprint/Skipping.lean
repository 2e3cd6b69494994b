import TypeFootprint.Proofs.Footprint.Trimming
import TypeFootprint.Proofs.Inference.Enclosure

/-!
# Passing over more

Two sets of rules may record the same types everywhere, and one of them may pass over the parts of
more nodes than the other.  Then its walk is the other one without the consultations below these
nodes: `enclosedCallsOf_skipsMore` says so for a place, by induction on what is below it, and
`walkDocument_skipsMore` for a document.

No position changes, because what is in force at a node is settled by the text around it and not by
the rules.
-/

set_option autoImplicit false

namespace TypeFootprint

/-- The second rules record what the first ones record, and pass over whatever these pass over. -/
structure Rules.SkipsMore (rules rules' : Rules) : Prop where
  types : ∀ node position, (rules' node position).types = (rules node position).types
  skips : ∀ node position, (rules node position).skipChildren = true →
    (rules' node position).skipChildren = true

/-- The consultation of other rules about the same node in the same position. -/
def Call.answeredBy (rules : Rules) (c : Call) : Call :=
  ⟨c.node, c.position, rules c.node c.position⟩

/-- Whether the rules pass over the parts of the node in this position. -/
def Call.isSkippedBy (rules : Rules) (c : Call) : Bool := (rules c.node c.position).skipChildren

/-- The same for a consultation and all those around it. -/
def EnclosedCall.answeredBy (rules : Rules) (e : EnclosedCall) : EnclosedCall :=
  ⟨e.call.answeredBy rules, e.around.map (Call.answeredBy rules)⟩

/-- Whether the rules pass over none of the nodes around. -/
def EnclosedCall.remainsUnder (rules : Rules) (e : EnclosedCall) : Bool :=
  e.around.all fun c ↦ !c.isSkippedBy rules

variable {schema : Schema} {rules rules' : Rules} {around : List Call} {p : Place}

theorem Rules.skipsMore_skipping (rules : Rules) (skip : Node → Bool) :
    rules.SkipsMore (rules.skipping skip) := by
  constructor
  · intro node position
    rw [skipping]
    split <;> rfl
  · intro node position h
    rw [skipping]
    split
    · rfl
    · exact h

/-- Nothing remains below a node that is passed over. -/
theorem filter_remainsUnder_eq_nil {c : Call} (hc : c ∈ around) (hskip : c.isSkippedBy rules' = true)
    (p : Place) :
    (enclosedCallsOf schema rules around p).filter (EnclosedCall.remainsUnder rules') = [] := by
  refine List.filter_eq_nil_iff.2 fun e he hremains ↦ ?_
  have hall := List.all_eq_true.1 hremains c ((suffix_around he).subset hc)
  rw [hskip] at hall
  cases hall

/-- **Below a place, the walk that passes over more is what remains of the other.** -/
theorem enclosedCallsOf_skipsMore (h : rules.SkipsMore rules') (p : Place)
    (haround : ∀ c ∈ around, c.isSkippedBy rules' = false) :
    enclosedCallsOf schema rules' (around.map (Call.answeredBy rules')) p =
      ((enclosedCallsOf schema rules around p).filter (EnclosedCall.remainsUnder rules')).map
        (EnclosedCall.answeredBy rules') := by
  induction p using Place.parts_induction schema generalizing around with
  | step p ih =>
    have hremains : EnclosedCall.remainsUnder rules' ⟨p.call rules, around⟩ = true :=
      List.all_eq_true.2 fun c hc ↦ by rw [haround c hc]; rfl
    rw [enclosedCallsOf_eq, enclosedCallsOf_eq, List.filter_cons_of_pos hremains, List.map_cons]
    refine congrArg (List.cons _) ?_
    cases hskips' : p.skips rules' with
    | true =>
      have hnone : (if p.skips rules then []
            else (p.parts schema).flatMap (enclosedCallsOf schema rules (p.call rules :: around))).filter
          (EnclosedCall.remainsUnder rules') = [] := by
        split
        · rfl
        · rw [List.filter_flatMap, List.flatMap_eq_nil_iff]
          have hskip : (p.call rules).isSkippedBy rules' = true := hskips'
          exact fun q _ ↦ filter_remainsUnder_eq_nil List.mem_cons_self hskip q
      rw [hnone]
      rfl
    | false =>
      have hskips : p.skips rules = false := by
        cases hskips : p.skips rules with
        | false => rfl
        | true => exact (h.skips _ _ hskips).symm.trans hskips'
      have hinner : ∀ c ∈ p.call rules :: around, c.isSkippedBy rules' = false := by
        intro c hc
        rcases List.mem_cons.1 hc with rfl | hc
        · exact hskips'
        · exact haround c hc
      rw [hskips]
      simp only [Bool.false_eq_true, if_false]
      rw [List.filter_flatMap, List.map_flatMap]
      exact List.flatMap_congr fun q hq ↦ ih q hq hinner

/-- **In a document, too.** -/
theorem enclosedCalls_skipsMore (h : rules.SkipsMore rules') (document : Document) :
    enclosedCalls schema rules' document =
      ((enclosedCalls schema rules document).filter (EnclosedCall.remainsUnder rules')).map
        (EnclosedCall.answeredBy rules') := by
  have hnone : ∀ c ∈ ([] : List Call), c.isSkippedBy rules' = false := fun _ hc ↦ by cases hc
  rw [enclosedCalls, enclosedCalls, List.filter_flatMap, List.map_flatMap]
  exact List.flatMap_congr fun p _ ↦ enclosedCallsOf_skipsMore h p hnone

/-- A node that is consulted about in both walks records the same types. -/
theorem types_answeredBy (h : rules.SkipsMore rules') {document : Document} {e : EnclosedCall}
    (he : e ∈ enclosedCalls schema rules document) :
    (e.call.answeredBy rules').recorded.types = e.call.recorded.types := by
  obtain ⟨p, -, hp⟩ := exists_visited_of_mem_enclosedCalls he
  rw [← hp]
  exact h.types _ _

/-- **Passing over the parts of some nodes removes what is below them, and nothing else.**  If the
second rules record the same types as the first and pass over more, the consultations of their walk
are those of the first walk, in the same order, that have no node around them which is passed over;
each is about the same node in the same position and records the same types.  So no type is found
that the first walk does not find. -/
theorem walkDocument_skipsMore {rules rules' : Rules} (h : rules.SkipsMore rules')
    (schema : Schema) (document : Document) :
    (enclosedCalls schema rules document).map EnclosedCall.call
      = walkDocument schema rules document ∧
    walkDocument schema rules' document =
      ((enclosedCalls schema rules document).filter fun e ↦
        e.around.all fun c ↦ !(rules' c.node c.position).skipChildren).map
          (fun e ↦ ⟨e.call.node, e.call.position, rules' e.call.node e.call.position⟩) ∧
    (∀ e ∈ enclosedCalls schema rules document,
      (rules' e.call.node e.call.position).types = e.call.recorded.types) ∧
    ∀ t ∈ recordedTypes (walkDocument schema rules' document),
      t ∈ recordedTypes (walkDocument schema rules document) := by
  have hwalk := map_call_enclosedCalls schema rules document
  have hwalk' : walkDocument schema rules' document =
      ((enclosedCalls schema rules document).filter (EnclosedCall.remainsUnder rules')).map
        fun e ↦ e.call.answeredBy rules' := by
    rw [← map_call_enclosedCalls, enclosedCalls_skipsMore h, List.map_map]
    rfl
  refine ⟨hwalk, hwalk', fun e he ↦ types_answeredBy h he, fun t ht ↦ ?_⟩
  obtain ⟨c, hc, ht⟩ := mem_recordedTypes.1 ht
  rw [hwalk'] at hc
  obtain ⟨e, he, rfl⟩ := List.mem_map.1 hc
  have he := (List.mem_filter.1 he).1
  rw [types_answeredBy h he] at ht
  exact mem_recordedTypes.2 ⟨e.call, hwalk ▸ List.mem_map_of_mem he, ht⟩

/-- The rules of a footprint, with the values of all arguments passed over. -/
def rulesWithoutArguments : Rules :=
  (collectRules filterSchema (.ofDocument findById)).skipping fun node ↦ node.kind = .argument

/-- The filter of a search is an argument of a field.  Passing it over leaves the field and its
selection: four of nine consultations remain. -/
theorem walkDocument_skipsMore_findById :
    (collectRules filterSchema (.ofDocument findById)).SkipsMore rulesWithoutArguments ∧
    walkDocument filterSchema rulesWithoutArguments findById =
      ((enclosedCalls filterSchema (collectRules filterSchema (.ofDocument findById))
          findById).filter fun e ↦
        e.around.all fun c ↦ !(rulesWithoutArguments c.node c.position).skipChildren).map
          (fun e ↦
            ⟨e.call.node, e.call.position, rulesWithoutArguments e.call.node e.call.position⟩) ∧
    (walkDocument filterSchema (collectRules filterSchema (.ofDocument findById))
      findById).length = 9 ∧
    (walkDocument filterSchema rulesWithoutArguments findById).length = 4 :=
  have h : (collectRules filterSchema (.ofDocument findById)).SkipsMore rulesWithoutArguments :=
    Rules.skipsMore_skipping _ _
  ⟨h, (walkDocument_skipsMore h filterSchema findById).2.1, by decide, by decide⟩

end TypeFootprint
