import TypeFootprint.Proofs.Footprint.Places
import TypeFootprint.Proofs.Inference.Kinds

/-!
# Rewriting a part of a document

A rewriting rule `Q` relates selection sets; `Selection.Rewrites Q` and `Definition.Rewrites Q` apply
it once, at any depth.  What the rule does to a footprint is settled where it is applied, and the
nodes above have little to add: each touches the output type of its own selection set.  So a rule may
lose an output type that is in force, and nothing is lost in the definition around it.

* `Scope.Selecting` — the scopes in which selection sets stand;
* `Place.mem_map_footprints_of_rewrites`, `Place.mem_map_footprint_of_rewrites` — what a rule loses
  in a selection set, up to the output type in force, is all that is lost in the selection sets and in
  the definition around it.

Types may be told apart by a function of theirs only, such as their core.
-/

set_option autoImplicit false

namespace TypeFootprint

/-- A selection set is rewritten, from some item on, by a rule for selection sets. -/
inductive Selection.Rewrites (Q : List Selection → List Selection → Prop) :
    List Selection → List Selection → Prop
  | here {xs ys : List Selection} (h : Q xs ys) : Rewrites Q xs ys
  | field {xs ys : List Selection} (h : Rewrites Q xs ys) (responseName : Option Name) (n : Name)
      (arguments : List Argument) (directives : List Directive) (rest : List Selection) :
    Rewrites Q (.field responseName n arguments directives xs :: rest)
      (.field responseName n arguments directives ys :: rest)
  | inline {xs ys : List Selection} (h : Rewrites Q xs ys) (condition : Option Name)
      (directives : List Directive) (rest : List Selection) :
    Rewrites Q (.inline condition directives xs :: rest) (.inline condition directives ys :: rest)
  | later {xs ys : List Selection} (h : Rewrites Q xs ys) (x : Selection) :
    Rewrites Q (x :: xs) (x :: ys)

/-- The selection set of an operation or of a fragment is rewritten. -/
inductive Definition.Rewrites (Q : List Selection → List Selection → Prop) :
    Definition → Definition → Prop
  | operation {op : Operation} {selections : List Selection}
      (h : Selection.Rewrites Q op.selections selections) :
    Rewrites Q (.operation op) (.operation { op with selections })
  | fragment {f : Fragment} {selections : List Selection}
      (h : Selection.Rewrites Q f.selections selections) :
    Rewrites Q (.fragment f) (.fragment { f with selections })

theorem Selection.Rewrites.symm {Q : List Selection → List Selection → Prop}
    {xs ys : List Selection} (h : Selection.Rewrites Q xs ys) :
    Selection.Rewrites (fun xs ys ↦ Q ys xs) ys xs := by
  induction h with
  | here h => exact .here (Q := fun xs ys ↦ Q ys xs) h
  | field h responseName n arguments directives rest ih =>
    exact .field ih responseName n arguments directives rest
  | inline h condition directives rest ih => exact .inline ih condition directives rest
  | later h x ih => exact .later ih x

theorem Selection.Rewrites.ne_nil {Q : List Selection → List Selection → Prop}
    (hQ : ∀ xs ys, Q xs ys → ys ≠ []) {xs ys : List Selection} (h : Selection.Rewrites Q xs ys) :
    ys ≠ [] := by
  cases h with
  | here h => exact hQ _ _ h
  | field h responseName n arguments directives rest => exact List.cons_ne_nil _ _
  | inline h condition directives rest => exact List.cons_ne_nil _ _
  | later h x => exact List.cons_ne_nil _ _

theorem Definition.Rewrites.symm {Q : List Selection → List Selection → Prop} {d d' : Definition}
    (h : d.Rewrites Q d') : d'.Rewrites (fun xs ys ↦ Q ys xs) d := by
  cases h with
  | operation h => exact .operation h.symm
  | fragment h => exact .fragment h.symm

variable {schema : Schema} {s : Scope} {t : TypeRef}

/-! ## Where selection sets stand -/

/-- The scopes of the nodes that have a selection set: operations and fragments, and fields and
inline fragments in such a selection set. -/
inductive Scope.Selecting (schema : Schema) : Scope → Prop
  | operation (kind : OperationKind) : Selecting schema (outside.ofOperation schema kind)
  | fragment (n : Name) : Selecting schema (outside.ofFragment schema (some n))
  | field {s : Scope} (h : Selecting schema s) (n : Name) :
    Selecting schema ((s.ofSelections schema).ofField schema n)
  | inline {s : Scope} (h : Selecting schema s) (condition : Option Name) :
    Selecting schema ((s.ofSelections schema).ofFragment schema condition)

namespace Scope

theorem Selecting.wellKinded (h : s.Selecting schema) : s.position.WellKinded schema := by
  induction h with
  | operation kind => exact wellKinded_ofOperation kind wellKinded_outside
  | fragment n => exact wellKinded_withOutput wellKinded_outside _
  | field h n ih => exact wellKinded_withOutput (wellKinded_ofSelections ih) _
  | inline h condition ih => exact wellKinded_withOutput (wellKinded_ofSelections ih) _

/-- The output type under a condition is the type of that name. -/
theorem resolveName?_of_output_ofFragment {n : Name}
    (h : (s.ofFragment schema (some n)).position.output = some t) :
    schema.resolveName? n = some t := by
  have hkept : keep schema TypeKind.isOutput (some (.ofName n)) = some t := h
  rw [keep_some] at hkept
  exact Schema.resolve?_of_keepKind hkept

/-- The root type of an operation owns its selections. -/
theorem parentOutput_of_output_ofOperation {kind : OperationKind}
    (h : (s.ofOperation schema kind).position.output = some t) :
    ((s.ofOperation schema kind).ofSelections schema).position.parentOutput = some t := by
  obtain ⟨hroot, hkind⟩ := Option.filter_eq_some_iff.1 h
  obtain ⟨n, -, rfl⟩ := Option.map_eq_some_iff.1 hroot
  obtain ⟨k, hk, hobject⟩ := Schema.hasKind_iff.1 hkind
  have hcomposite : schema.hasKind TypeKind.isComposite n = true := by
    refine Schema.hasKind_iff.2 ⟨k, hk, ?_⟩
    rw [of_decide_eq_true hobject]
    rfl
  exact parentOutput_ofSelections.2 ⟨.ofName n, h, hcomposite, rfl⟩

end Scope

/-! ## Footprints -/

namespace Place

section

variable {α : Type} {f : TypeRef → α} {Q : List Selection → List Selection → Prop} {a : α}
  {others : List α}
  (hQ : ∀ {s : Scope} {xs ys : List Selection}, s.Selecting schema → Q xs ys →
    a ∈ (footprints schema (ofSelections schema s xs)).map f →
      a ∈ (footprints schema (ofSelections schema s ys)).map f ∨
        a ∈ s.position.output.toList.map f ∨ a ∈ others)
include hQ

/-- **Footprints of rewritten selection sets.**  If a rule loses no more than the output type in
force and some other types, no more is lost in the selection sets around the place where it is
applied. -/
theorem mem_map_footprints_of_rewrites {xs ys : List Selection} (h : Selection.Rewrites Q xs ys) :
    ∀ {s : Scope}, s.Selecting schema → a ∈ (footprints schema (ofSelections schema s xs)).map f →
      a ∈ (footprints schema (ofSelections schema s ys)).map f ∨
        a ∈ s.position.output.toList.map f ∨ a ∈ others := by
  induction h with
  | here h => exact fun hs ha ↦ hQ hs h ha
  | field h responseName n arguments directives rest ih =>
    intro s hs ha
    simp only [footprints_ofSelections_cons, ofSelection, footprint_field, List.map_append,
      List.mem_append] at ha ⊢
    rcases ha with (hown | harguments | hdirectives | hselections) | hrest
    · exact .inl (.inl (.inl hown))
    · exact .inl (.inl (.inr (.inl harguments)))
    · exact .inl (.inl (.inr (.inr (.inl hdirectives))))
    · rcases ih (hs.field n) hselections with ha | houtput | hothers
      · exact .inl (.inl (.inr (.inr (.inr ha))))
      · exact .inl (.inl (.inl (.inl houtput)))
      · exact .inr (.inr hothers)
    · exact .inl (.inr hrest)
  | inline h condition directives rest ih =>
    intro s hs ha
    simp only [footprints_ofSelections_cons, ofSelection, footprint_inline, List.map_append,
      List.mem_append] at ha ⊢
    rcases ha with (hown | hdirectives | hselections) | hrest
    · exact .inl (.inl (.inl hown))
    · exact .inl (.inl (.inr (.inl hdirectives)))
    · rcases ih (hs.inline condition) hselections with ha | houtput | hothers
      · exact .inl (.inl (.inr (.inr ha)))
      · exact .inl (.inl (.inl (.inr (.inr houtput))))
      · exact .inr (.inr hothers)
    · exact .inl (.inr hrest)
  | later h x ih =>
    intro s hs ha
    rw [footprints_ofSelections_cons, List.map_append, List.mem_append] at ha ⊢
    rcases ha with ha | ha
    · exact .inl (.inl ha)
    · exact (ih hs ha).imp_left .inr

/-- The same for definitions.  A fragment touches its condition, and the root type of an operation
owns the selections, of which there have to be some. -/
theorem mem_map_footprint_of_rewrites (hne : ∀ xs ys, Q xs ys → ys ≠ []) {d d' : Definition}
    (h : d.Rewrites Q d') (ha : a ∈ (d.footprint schema).map f) :
    a ∈ (d'.footprint schema).map f ∨ a ∈ others := by
  cases h with
  | @operation op selections h =>
    simp only [Definition.footprint_operation, footprint_operation, List.map_append,
      List.mem_append] at ha ⊢
    rcases ha with hdeclarations | hdirectives | hselections
    · exact .inl (.inl hdeclarations)
    · exact .inl (.inr (.inl hdirectives))
    · rcases mem_map_footprints_of_rewrites hQ h (.operation op.kind) hselections with
        ha | houtput | hothers
      · exact .inl (.inr (.inr ha))
      · obtain ⟨t, ht, rfl⟩ := List.mem_map.1 houtput
        exact .inl (.inr (.inr (List.mem_map_of_mem (parentOutput_mem_footprints_ofSelections
          (h.ne_nil hne) (Scope.parentOutput_of_output_ofOperation (Option.mem_toList.1 ht))))))
      · exact .inr hothers
  | @fragment f selections h =>
    simp only [Definition.footprint_fragment, footprint_fragmentDefinition, List.map_append,
      List.mem_append] at ha ⊢
    rcases ha with hcondition | hdirectives | hselections
    · exact .inl (.inl hcondition)
    · exact .inl (.inr (.inl hdirectives))
    · rcases mem_map_footprints_of_rewrites hQ h (.fragment f.condition) hselections with
        ha | houtput | hothers
      · exact .inl (.inr (.inr ha))
      · obtain ⟨t, ht, rfl⟩ := List.mem_map.1 houtput
        exact .inl (.inl (List.mem_map_of_mem (Option.mem_toList.2
          (Scope.resolveName?_of_output_ofFragment (Option.mem_toList.1 ht)))))
      · exact .inr hothers

end

end Place

end TypeFootprint
