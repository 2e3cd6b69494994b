import TypeFootprint.Proofs.Footprint.Defined
import TypeFootprint.Proofs.Footprint.Merging
import TypeFootprint.Proofs.Footprint.Trimming
import TypeFootprint.Proofs.Inference.Deletion

/-!
# Footprints grow with the document and with the schema

Every place of a document that is left after some deletions corresponds to a place of the whole
document, where the same types are in force; and a schema that extends another one can only turn
unknown types into known ones.  What the rules record grows with what is in force, so a footprint
never loses anything when the document or the schema grows.

Two things might go the other way.  A definition that is deleted may have been the last one of a
fragment name, and then all spreads of the name mean another fragment; but what a spread takes from
the fragment that it names is recorded at the definition as well (`mem_collect_iff_touched`).  And
an object literal that is written against a type without a definition records the type, where it
would record the fields of an input object; but types that are in force are defined
(`Visited.defined`), and stay what they are in a larger schema.

* `Place.touched_subset` — corresponding places record no less;
* `Visited.exists_below` — whatever is visited corresponds to something that is visited;
* `mem_collect_mono` and `mem_resolveTypeNames_mono` — hence a larger footprint, with more names;
* `subset_of_remainsOf` for documents, `subset_of_extends` for schemas.
-/

set_option autoImplicit false

namespace TypeFootprint

variable {schema schema' : Schema} {document document' : Document} {p p' : Place} {t : TypeRef}

/-! ## What is recorded -/

theorem types_known_subset {types types' : List (Option TypeRef)}
    (h : List.Forall₂ Below types types') :
    (Recorded.known types).types ⊆ (Recorded.known types').types := by
  intro t ht
  obtain ⟨o, ho, hot⟩ := List.mem_filterMap.1 ht
  induction h with
  | nil => cases ho
  | @cons o₁ o₁' types types' h₁ _ ih =>
    rcases List.mem_cons.1 ho with rfl | ho
    · exact List.mem_filterMap.2 ⟨o₁', List.mem_cons_self, h₁ t hot⟩
    · obtain ⟨o', ho', hot'⟩ := List.mem_filterMap.1 (ih (List.mem_filterMap.2 ⟨o, ho, hot⟩) ho)
      exact List.mem_filterMap.2 ⟨o', List.mem_cons_of_mem _ ho', hot'⟩

section

variable (hschema : schema.Extends schema')
include hschema

theorem collectSelection_subset {position position' : Position} (h : position.Below position')
    {x x' : Selection} (hx : x.RemainsOf x') :
    (collectSelection schema .empty position x).types
      ⊆ (collectSelection schema' .empty position' x').types := by
  cases hx with
  | field => exact types_known_subset (.cons h.output (.cons h.parentOutput .nil))
  | spread => exact types_known_subset (.cons (.none_left _) (.cons h.parentOutput .nil))
  | inline condition =>
    have hcondition : Below (condition.bind schema.resolveName?)
        (condition.bind schema'.resolveName?) :=
      (Below.refl condition).bind fun n ↦ hschema.resolve?_below (.ofName n)
    exact types_known_subset (.cons hcondition (.cons h.parentOutput (.cons h.output .nil)))

/-- An object literal that is written against a type records the same, because the type is
defined. -/
theorem collectValue_subset {position position' : Position} (h : position.Below position')
    (hdefined : position.Defined schema) {v v' : Value} (hv : v.RemainsOf v') :
    (collectValue schema position v).types ⊆ (collectValue schema' position' v').types := by
  cases v with
  | list vs =>
    obtain ⟨ws, rfl, -⟩ := hv.of_list
    exact types_known_subset (.cons (h.parentInput.map _) .nil)
  | object fields =>
    obtain ⟨fields', rfl, -⟩ := hv.of_object
    cases hinput : position.input with
    | none => simp [collectValue, hinput, Recorded.none, Recorded.skipping]
    | some u =>
      have hinput' : position'.input = some u := h.input u hinput
      obtain ⟨d, hd⟩ := Option.isSome_iff_exists.1 (hdefined.input u hinput)
      have hsub := hschema.inputFieldTypes_subset u.core
      simp only [collectValue, hinput, hinput', hschema.inputObject?_eq_of_type? hd]
      cases schema.inputObject? u.core with
      | none => exact List.Subset.refl _
      | some declared => simpa [Recorded.none, Recorded.and] using hsub
  | var n =>
    cases hv
    exact List.nil_subset _
  | null =>
    cases hv
    exact types_known_subset (.cons h.input .nil)
  | _ =>
    cases hv
    exact types_known_subset (.cons (h.input.map _) .nil)

theorem collectObjectField_subset {position position' : Position} (h : position.Below position') :
    (collectObjectField schema position).types ⊆ (collectObjectField schema' position').types := by
  have hinput := h.input.toList_subset
  cases hparent : position.parentInput with
  | none =>
    have hlast : position'.input.toList ⊆ (collectObjectField schema' position').types := by
      rw [collectObjectField]
      split <;> exact List.subset_append_right _ _
    simp only [collectObjectField, hparent]
    exact List.Subset.trans hinput hlast
  | some u =>
    have hparent' : position'.parentInput = some u := h.parentInput u hparent
    intro t ht
    simp only [collectObjectField, hparent, hparent', Recorded.and, List.mem_append] at ht ⊢
    rcases ht with (ht | ht) | ht
    · exact .inl (.inl ht)
    · exact .inl (.inr (hschema.inputFieldTypes_subset u.core ht))
    · exact .inr (hinput ht)

/-- **Corresponding places record no less.** -/
theorem Place.touched_subset (h : p.Below p') (hdefined : p.scope.position.Defined schema) :
    p.touched schema ⊆ p'.touched schema' := by
  obtain ⟨node, s⟩ := p
  obtain ⟨node', s'⟩ := p'
  obtain ⟨hnode, hscope⟩ := h
  have hposition : s.position.Below s'.position := hscope.position
  cases hnode with
  | operation => exact List.nil_subset _
  | variableDefinition h =>
    simp only [touched, call, collectRules, h.type]
    exact types_known_subset (.cons (hschema.resolve?_below _) (.cons hposition.input .nil))
  | fragmentDefinition h =>
    simp only [touched, call, collectRules, h.condition]
    exact types_known_subset (.cons (hschema.resolve?_below _) .nil)
  | selection h => exact collectSelection_subset hschema hposition h
  | argument =>
    exact types_known_subset (.cons hposition.output (.cons hposition.parentOutput .nil))
  | directive => exact List.nil_subset _
  | value h => exact collectValue_subset hschema hposition hdefined h
  | objectField => exact collectObjectField_subset hschema hposition

/-! ## What is visited -/

/-- What is not passed over in the smaller document is not passed over in the larger one: an object
literal whose fields are visited is written against an input object. -/
theorem Place.skips_eq_false_of_below (h : p.Below p')
    (hskips : p.skips (collectRules schema .empty) = false) :
    p'.skips (collectRules schema' .empty) = false := by
  obtain ⟨node, s⟩ := p
  obtain ⟨node', s'⟩ := p'
  obtain ⟨hnode, hscope⟩ := h
  cases hnode with
  | selection h => cases h with | _ => rfl
  | objectField =>
    rw [skips, call, collectRules, collectObjectField]
    cases s'.position.parentInput <;> rfl
  | @value v v' h =>
    cases v with
    | object fields =>
      obtain ⟨fields', rfl, -⟩ := h.of_object
      obtain ⟨u, hinput, hobject⟩ := skips_object_iff.1 hskips
      obtain ⟨declared, hdeclared⟩ := Option.ne_none_iff_exists'.1 hobject
      refine skips_object (hscope.position.input u hinput) ?_
      simp [hschema.inputObject?_below u.core declared hdeclared]
    | list vs =>
      obtain ⟨ws, rfl, -⟩ := h.of_list
      rfl
    | _ =>
      cases h
      rfl
  | _ => rfl

/-- **Every visited place of the smaller document corresponds to one of the larger document.** -/
theorem Visited.exists_below (hdocument : document.RemainsOf document')
    (h : Visited schema (collectRules schema .empty) document p) :
    ∃ p', Visited schema' (collectRules schema' .empty) document' p' ∧ p.Below p' := by
  induction h with
  | @definition d p hd hp =>
    obtain ⟨d', hd', hremains⟩ := exists_of_mem_sublistForall₂ hdocument d hd
    obtain ⟨p', hp', hbelow⟩ :=
      Place.ofDefinition?_below hschema hremains p (Option.mem_toList.2 hp)
    exact ⟨p', .definition hd' (Option.mem_toList.1 hp'), hbelow⟩
  | @part p q hp hskips hq ih =>
    obtain ⟨p', hp', hbelow⟩ := ih
    obtain ⟨q', hq', hpart⟩ := Place.parts_below hschema hbelow q hq
    exact ⟨q', hp'.part (Place.skips_eq_false_of_below hschema hbelow hskips) hq', hpart⟩

/-! ## Footprints -/

theorem mem_collect_mono (hdocument : document.RemainsOf document')
    (ht : t ∈ collect schema document) : t ∈ collect schema' document' := by
  obtain ⟨p, hp, ht⟩ := mem_collect_iff_touched.1 ht
  obtain ⟨p', hp', hbelow⟩ := hp.exists_below hschema hdocument
  exact mem_collect_iff_touched.2 ⟨p', hp', Place.touched_subset hschema hbelow hp.defined ht⟩

theorem mem_resolveTypeNames_mono (hdocument : document.RemainsOf document') {policy : Policy}
    {n : String} (hn : n ∈ resolveTypeNames schema document policy) :
    n ∈ resolveTypeNames schema' document' policy := by
  rw [mem_resolveTypeNames] at hn ⊢
  refine hn.imp_left (And.imp_left ?_)
  rintro ⟨u, hu, hname⟩
  refine ⟨u, mem_collect_mono hschema hdocument hu, hname.imp_right ?_⟩
  rintro ⟨m, hm, hmn⟩
  exact ⟨m, possibleTypes_subset hschema u.core hm, hmn⟩

end

/-! ## Larger documents -/

/-- **Deleting from a document adds nothing.**  Whatever is deleted from a document, be it
definitions, declarations of variables, default values, directives, arguments, selections, items of
list literals or fields of object literals: all types that the rest touches are touched by the whole
document, and all names that the rest needs are needed by it, under every policy. -/
theorem subset_of_remainsOf (schema : Schema) {document document' : Document}
    (h : document.RemainsOf document') :
    (∀ t ∈ collect schema document, t ∈ collect schema document') ∧
    ∀ (policy : Policy), ∀ n ∈ resolveTypeNames schema document policy,
      n ∈ resolveTypeNames schema document' policy :=
  ⟨fun _ ht ↦ mem_collect_mono (.refl schema) h ht,
    fun _ _ hn ↦ mem_resolveTypeNames_mono (.refl schema) h hn⟩

/-- A literal loses its only field, and the spreads of `Part` their last definition. -/
theorem subset_of_remainsOf_findById :
    Document.RemainsOf (findBy [] ++ [spreadPart, partOn "User"])
        (findById ++ [spreadPart, partOn "User", partOn "Node"]) ∧
      ∀ n ∈ resolveTypeNames filterSchema (findBy [] ++ [spreadPart, partOn "User"]) .standard,
        n ∈ resolveTypeNames filterSchema
          (findById ++ [spreadPart, partOn "User", partOn "Node"]) .standard := by
  have h : Document.RemainsOf (findBy [] ++ [spreadPart, partOn "User"])
      (findById ++ [spreadPart, partOn "User", partOn "Node"]) := by
    refine .cons (.operation ⟨rfl, rfl, .nil, .nil, .cons ?_ .nil⟩)
      (.cons (.refl _) (.cons (.refl _) .nil))
    exact .field none _ (.cons ⟨rfl, .object .nil⟩ .nil) .nil (.cons (.refl _) .nil)
  exact ⟨h, (subset_of_remainsOf filterSchema h).2 .standard⟩

/-! ## Larger schemas -/

/-- **A growing schema drops nothing.**  If a schema has all types of another one with the same
definitions, the same directives, and the roots that are set there, then all types that a document
touches in the smaller schema are touched in the larger one, and all names that it needs are needed
there, under every policy. -/
theorem subset_of_extends {schema schema' : Schema} (h : schema.Extends schema')
    (document : Document) :
    (∀ t ∈ collect schema document, t ∈ collect schema' document) ∧
    ∀ (policy : Policy), ∀ n ∈ resolveTypeNames schema document policy,
      n ∈ resolveTypeNames schema' document policy :=
  ⟨fun _ ht ↦ mem_collect_mono h (.refl document) ht,
    fun _ _ hn ↦ mem_resolveTypeNames_mono h (.refl document) hn⟩

/-- The schema of searches with a root for mutations. -/
def mutableFilterSchema : Schema :=
  { filterSchema with roots :=
    { filterSchema.roots with mutation := some (BuiltIn.named "User" (Eq.refl true)) } }

/-- The schema gains the input object of the inner literal, an implementation of the interface, and
a root. -/
theorem subset_of_extends_findById :
    (filterSchema.trim [BuiltIn.named "Search", BuiltIn.named "Filter",
        BuiltIn.named "Node"]).Extends mutableFilterSchema ∧
      ∀ n ∈ resolveTypeNames (filterSchema.trim [BuiltIn.named "Search", BuiltIn.named "Filter",
          BuiltIn.named "Node"]) findById .standard,
        n ∈ resolveTypeNames mutableFilterSchema findById .standard := by
  have h : (filterSchema.trim [BuiltIn.named "Search", BuiltIn.named "Filter",
      BuiltIn.named "Node"]).Extends mutableFilterSchema := by
    refine ⟨(filterSchema.extends_trim _).types, fun _ ↦ rfl, fun kind ↦ ?_⟩
    cases kind with
    | mutation => exact .none_left _
    | _ => exact .refl _
  exact ⟨h, (subset_of_extends h findById).2 .standard⟩

end TypeFootprint
