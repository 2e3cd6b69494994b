import TypeFootprint.Proofs.Inference.Agreement
import TypeFootprint.Proofs.Inference.Visits

/-!
# The consultations around a consultation

A walk asks about a node before it asks about the parts of the node, but the list of its
consultations does not say which node is a part of which: the same text may stand at several places.
`enclosedCalls` lists the consultations of a walk, each with those about the nodes around its node.
Whatever relates a node to the nodes around it can be said of this list.

* `map_call_enclosedCalls` — the list is the walk, if what is around is left out;
* `exists_of_mem_enclosedCalls` — what holds of definitions and is handed to parts holds of all that
  is listed;
* `suffix_around` — what is around a node is around its parts.
-/

set_option autoImplicit false

namespace TypeFootprint

/-- A consultation, and those about the nodes around its node, innermost first. -/
structure EnclosedCall where
  call : Call
  around : List Call

section

variable (schema : Schema) (rules : Rules)

/-- The consultation at a place, and those below it unless the rule passes over them, where the nodes
around the place have been consulted about. -/
def enclosedCallsOf (around : List Call) (p : Place) : List EnclosedCall :=
  ⟨p.call rules, around⟩ ::
    if p.skips rules then []
    else (p.parts schema).attach.flatMap fun q ↦ enclosedCallsOf (p.call rules :: around) q.1
termination_by sizeOf p.node
decreasing_by exact Place.sizeOf_lt_of_mem_parts q.2

theorem enclosedCallsOf_eq (around : List Call) (p : Place) :
    enclosedCallsOf schema rules around p =
      ⟨p.call rules, around⟩ ::
        if p.skips rules then []
        else (p.parts schema).flatMap (enclosedCallsOf schema rules (p.call rules :: around)) := by
  rw [enclosedCallsOf, List.flatMap_subtype fun _ _ ↦ rfl, List.unattach_attach]

/-- The consultations of a walk through a document, in order, with those around them. -/
def enclosedCalls (document : Document) : List EnclosedCall :=
  (document.filterMap (Place.ofDefinition? schema)).flatMap (enclosedCallsOf schema rules [])

end

variable {schema : Schema} {rules : Rules} {document : Document} {around : List Call} {p : Place}
  {e : EnclosedCall}

theorem map_call_enclosedCallsOf (around : List Call) (p : Place) :
    (enclosedCallsOf schema rules around p).map EnclosedCall.call = callsOf schema rules p := by
  induction p using Place.parts_induction schema generalizing around with
  | step p ih =>
    rw [enclosedCallsOf_eq, callsOf_eq, List.map_cons]
    split
    · rfl
    · rw [List.map_flatMap]
      exact congrArg _ (List.flatMap_congr fun q hq ↦ ih q hq _)

/-- **The list is the walk.** -/
theorem map_call_enclosedCalls (schema : Schema) (rules : Rules) (document : Document) :
    (enclosedCalls schema rules document).map EnclosedCall.call
      = walkDocument schema rules document := by
  have hwalk : walkDocument schema rules document = callsOfDocument schema rules document :=
    (lists_walkDefinitions document).calls
  rw [hwalk, enclosedCalls, List.map_flatMap, callsOfDocument]
  exact List.flatMap_congr fun p _ ↦ map_call_enclosedCallsOf [] p

/-! ## What is handed down -/

section

variable {motive : List Call → Place → Prop}
  (part : ∀ (around : List Call) (p q : Place), motive around p → p.skips rules = false →
    q ∈ p.parts schema → motive (p.call rules :: around) q)
include part

theorem exists_of_mem_enclosedCallsOf (hp : motive around p)
    (he : e ∈ enclosedCallsOf schema rules around p) :
    ∃ q, motive e.around q ∧ q.call rules = e.call := by
  induction p using Place.parts_induction schema generalizing around with
  | step p ih =>
    rw [enclosedCallsOf_eq, List.mem_cons] at he
    rcases he with rfl | he
    · exact ⟨p, hp, rfl⟩
    · split at he
      · cases he
      · rename_i hskips
        obtain ⟨q, hq, he⟩ := List.mem_flatMap.1 he
        exact ih q hq (part around p q hp (by simpa using hskips) hq) he

/-- **What every definition has, with nothing around it, and what each place hands to its parts, is
had by all that is consulted about.** -/
theorem exists_of_mem_enclosedCalls
    (definition : ∀ d ∈ document, ∀ p, Place.ofDefinition? schema d = some p → motive [] p)
    (he : e ∈ enclosedCalls schema rules document) :
    ∃ q, motive e.around q ∧ q.call rules = e.call := by
  obtain ⟨p, hp, he⟩ := List.mem_flatMap.1 he
  obtain ⟨d, hd, hdp⟩ := List.mem_filterMap.1 hp
  exact exists_of_mem_enclosedCallsOf part (definition d hd p hdp) he

end

theorem exists_visited_of_mem_enclosedCalls (he : e ∈ enclosedCalls schema rules document) :
    ∃ p, Visited schema rules document p ∧ p.call rules = e.call :=
  exists_of_mem_enclosedCalls (motive := fun _ p ↦ Visited schema rules document p)
    (fun _ _ _ hp hskips hq ↦ hp.part hskips hq) (fun _ hd _ hp ↦ .definition hd hp) he

/-- What is around a place is around all that is below it. -/
theorem suffix_around (he : e ∈ enclosedCallsOf schema rules around p) : around <:+ e.around := by
  obtain ⟨q, hq, -⟩ := exists_of_mem_enclosedCallsOf (motive := fun inner _ ↦ around <:+ inner)
    (fun _ p _ h _ _ ↦ h.trans (List.suffix_cons (p.call rules) _)) (List.suffix_refl around) he
  exact hq

end TypeFootprint
