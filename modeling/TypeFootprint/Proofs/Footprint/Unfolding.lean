import TypeFootprint.Proofs.Footprint.Rewriting
import TypeFootprint.Schema.BuiltIn

/-!
# Writing a fragment in place of its spread

A spread of a fragment may be replaced by an inline fragment with the condition and the selections
of the fragment.  The two go through different rules, in different scopes:

* the inline fragment also touches its condition, and the output type under it; but so does the
  definition of the fragment;
* the directives are read under another output type, which a node above touches as well;
* the selections are read inside another field.  Only the arguments of an unknown directive are
  looked up in the field around it, so this makes no difference where all directives are defined.

`Selection.Replaces` replaces one selection at any depth.  That is a rewriting of the selection set
from this selection on, so `Place.mem_map_footprint_of_rewrites` carries what holds of two selections
to the documents around them.  `mem_collect_unfold` applies this once in each direction.
-/

set_option autoImplicit false

namespace TypeFootprint

/-! ## Replacing a selection -/

/-- One selection, somewhere in a selection set, is replaced by a related one. -/
inductive Selection.Replaces (R : Selection → Selection → Prop) :
    List Selection → List Selection → Prop
  | here {x y : Selection} (h : R x y) (rest : List Selection) : Replaces R (x :: rest) (y :: rest)
  | field {xs ys : List Selection} (h : Replaces R xs ys) (responseName : Option Name) (n : Name)
      (arguments : List Argument) (directives : List Directive) (rest : List Selection) :
    Replaces R (.field responseName n arguments directives xs :: rest)
      (.field responseName n arguments directives ys :: rest)
  | inline {xs ys : List Selection} (h : Replaces R xs ys) (condition : Option Name)
      (directives : List Directive) (rest : List Selection) :
    Replaces R (.inline condition directives xs :: rest) (.inline condition directives ys :: rest)
  | later {xs ys : List Selection} (h : Replaces R xs ys) (x : Selection) :
    Replaces R (x :: xs) (x :: ys)

/-- One selection, somewhere in an operation or in a fragment, is replaced by a related one. -/
inductive Definition.Replaces (R : Selection → Selection → Prop) : Definition → Definition → Prop
  | operation {op : Operation} {selections : List Selection}
      (h : Selection.Replaces R op.selections selections) :
    Replaces R (.operation op) (.operation { op with selections })
  | fragment {f : Fragment} {selections : List Selection}
      (h : Selection.Replaces R f.selections selections) :
    Replaces R (.fragment f) (.fragment { f with selections })

/-- A spread of a fragment becomes an inline fragment, with the directives of the spread. -/
inductive Selection.UnfoldsTo (f : Fragment) : Selection → Selection → Prop
  | spread (directives : List Directive) :
    UnfoldsTo f (.spread f.name directives) (.inline (some f.condition) directives f.selections)

/-- One spread of a document is replaced by what the last fragment of its name says.  The fragment
stays defined. -/
def Document.Unfolds (document document' : Document) : Prop :=
  ∃ (f : Fragment) (before after : Document) (d d' : Definition),
    (Fragments.ofDocument document).find? f.name = some f ∧
    d.Replaces (Selection.UnfoldsTo f) d' ∧
    document = before ++ d :: after ∧ document' = before ++ d' :: after

theorem Selection.Replaces.symm {R : Selection → Selection → Prop} {xs ys : List Selection}
    (h : Selection.Replaces R xs ys) : Selection.Replaces (fun x y ↦ R y x) ys xs := by
  induction h with
  | here h rest => exact .here (R := fun x y ↦ R y x) h rest
  | field h responseName n arguments directives rest ih =>
    exact .field ih responseName n arguments directives rest
  | inline h condition directives rest ih => exact .inline ih condition directives rest
  | later h x ih => exact .later ih x

theorem Definition.Replaces.symm {R : Selection → Selection → Prop} {d d' : Definition}
    (h : d.Replaces R d') : d'.Replaces (fun x y ↦ R y x) d := by
  cases h with
  | operation h => exact .operation h.symm
  | fragment h => exact .fragment h.symm

/-- Two selection sets that start with related selections and go on alike. -/
inductive Selection.AtHead (R : Selection → Selection → Prop) :
    List Selection → List Selection → Prop
  | mk {x y : Selection} (h : R x y) (rest : List Selection) : AtHead R (x :: rest) (y :: rest)

theorem Selection.Replaces.rewrites {R : Selection → Selection → Prop} {xs ys : List Selection}
    (h : Selection.Replaces R xs ys) : Selection.Rewrites (Selection.AtHead R) xs ys := by
  induction h with
  | here h rest => exact .here (.mk h rest)
  | field h responseName n arguments directives rest ih =>
    exact .field ih responseName n arguments directives rest
  | inline h condition directives rest ih => exact .inline ih condition directives rest
  | later h x ih => exact .later ih x

theorem Definition.Replaces.rewrites {R : Selection → Selection → Prop} {d d' : Definition}
    (h : d.Replaces R d') : d.Rewrites (Selection.AtHead R) d' := by
  cases h with
  | operation h => exact .operation h.rewrites
  | fragment h => exact .fragment h.rewrites

/-! ## Directives -/

mutual

/-- The directives of an item of a selection set and of the items inside it. -/
def Selection.directives : Selection → List Directive
  | .field _ _ _ directives selections => directives ++ Selection.directivesIn selections
  | .spread _ directives => directives
  | .inline _ directives selections => directives ++ Selection.directivesIn selections

/-- The directives in a selection set. -/
def Selection.directivesIn : List Selection → List Directive
  | [] => []
  | x :: xs => x.directives ++ Selection.directivesIn xs

end

/-- The directives of an operation or of a fragment, at any depth. -/
def Definition.directives : Definition → List Directive
  | .operation op =>
    op.declarations.flatMap VariableDefinition.directives ++ op.directives ++
      Selection.directivesIn op.selections
  | .fragment f => f.directives ++ Selection.directivesIn f.selections
  | .typeSystem _ => []

/-- The directives in the operations and fragments of a document. -/
def Document.directives (document : Document) : List Directive :=
  document.flatMap Definition.directives

variable {schema : Schema} {s : Scope} {t : TypeRef} {f : Fragment} {xs ys : List Selection}
  {ds : List Directive}

theorem Selection.mem_directivesIn {d : Directive} :
    d ∈ Selection.directivesIn xs ↔ ∃ x ∈ xs, d ∈ x.directives := by
  induction xs with
  | nil => simp [Selection.directivesIn]
  | cons x xs ih => simp [Selection.directivesIn, ih]

/-! ## Scopes -/

namespace Scope

/-- The same scope inside another field. -/
def withField (field : Option FieldDefinition) (s : Scope) : Scope := { s with field }

/-- Neither a value nor a directive is being read. -/
structure OutputOnly (s : Scope) : Prop where
  input : s.position.input = none
  parentInput : s.position.parentInput = none
  directive : s.directive = none

theorem OutputOnly.ofSelections (h : s.OutputOnly) : (s.ofSelections schema).OutputOnly :=
  ⟨h.input, h.parentInput, h.directive⟩

theorem OutputOnly.ofField (h : s.OutputOnly) (n : Name) : (s.ofField schema n).OutputOnly :=
  ⟨h.input, h.parentInput, h.directive⟩

theorem OutputOnly.ofOperation (h : s.OutputOnly) (kind : OperationKind) :
    (s.ofOperation schema kind).OutputOnly :=
  ⟨h.input, h.parentInput, h.directive⟩

theorem OutputOnly.ofFragment (h : s.OutputOnly) (condition : Option Name) :
    (s.ofFragment schema condition).OutputOnly :=
  ⟨h.input, h.parentInput, h.directive⟩

theorem outputOnly_outside : outside.OutputOnly := ⟨rfl, rfl, rfl⟩

/-- Under a type condition, the field around is all that is left of a scope. -/
theorem ofSelections_ofFragment (h : s.OutputOnly) (n : Name) :
    (s.ofFragment schema (some n)).ofSelections schema
      = ((outside.ofFragment schema (some n)).ofSelections schema).withField s.field := by
  obtain ⟨⟨output, owner, input, parentInput⟩, field, directive⟩ := s
  obtain ⟨rfl, rfl, rfl⟩ := h
  rfl

theorem Selecting.outputOnly (h : s.Selecting schema) : s.OutputOnly := by
  induction h with
  | operation kind => exact outputOnly_outside.ofOperation kind
  | fragment n => exact outputOnly_outside.ofFragment (some n)
  | field h n ih => exact ih.ofSelections.ofField n
  | inline h condition ih => exact ih.ofSelections.ofFragment condition

theorem ofFragment_withField (field : Option FieldDefinition) (condition : Option Name) :
    (s.withField field).ofFragment schema condition
      = (s.ofFragment schema condition).withField field := rfl

theorem ofSelections_withField (field : Option FieldDefinition) :
    (s.withField field).ofSelections schema = (s.ofSelections schema).withField field := rfl

end Scope

namespace Place

/-! ## Directives in other scopes -/

/-- A known directive brings its own arguments, so the field around does not count. -/
theorem footprints_ofDirective_withField (hds : ∀ d ∈ ds, schema.directive? d.name ≠ none)
    (field : Option FieldDefinition) :
    footprints schema (ds.map (ofDirective (s.withField field)))
      = footprints schema (ds.map (ofDirective s)) := by
  refine footprints_map_congr fun d hd ↦ ?_
  obtain ⟨definition, hdefinition⟩ := Option.ne_none_iff_exists'.1 (hds d hd)
  have hdeclared : ((s.withField field).ofDirective schema d.name).declaredArguments
      = (s.ofDirective schema d.name).declaredArguments := by
    simp only [Scope.ofDirective, Scope.declaredArguments, hdefinition]
  rw [footprint_ofDirective, footprint_ofDirective]
  refine footprints_map_congr fun a _ ↦ ?_
  rw [footprint_ofArgument_congr _ hdeclared]
  rfl

/-- The output type in force is all that the arguments of directives touch on account of it. -/
theorem mem_footprints_ofDirective_withOutput (output : Option TypeRef)
    (ht : t ∈ footprints schema (ds.map (ofDirective s))) :
    t ∈ footprints schema (ds.map (ofDirective (s.withOutput output))) ∨
      s.position.output = some t := by
  obtain ⟨_, hp, ht⟩ := mem_footprints.1 ht
  obtain ⟨d, hd, rfl⟩ := List.mem_map.1 hp
  rw [footprint_ofDirective] at ht
  obtain ⟨_, hq, ht⟩ := mem_footprints.1 ht
  obtain ⟨a, ha, rfl⟩ := List.mem_map.1 hq
  have hvalue : footprint schema
        (ofValue schema ((s.ofDirective schema d.name).ofArgument schema a.name) a.value)
      = footprint schema (ofValue schema
        (((s.withOutput output).ofDirective schema d.name).ofArgument schema a.name) a.value) :=
    footprint_ofValue_congr (by rfl) a.value
  have hargument : t ∈ footprint schema
      (ofArgument schema ((s.withOutput output).ofDirective schema d.name) a) ∨
      s.position.output = some t := by
    simp only [footprint_ofArgument, List.mem_append, Option.mem_toList] at ht ⊢
    rcases ht with (houtput | howner) | ht
    · exact .inr houtput
    · exact .inl (.inl (.inr howner))
    · exact .inl (.inr (hvalue ▸ ht))
  refine hargument.imp_left fun ht ↦ mem_footprints.2 ⟨_, List.mem_map_of_mem hd, ?_⟩
  rw [footprint_ofDirective]
  exact mem_footprints.2 ⟨_, List.mem_map_of_mem ha, ht⟩

/-! ## Selections in another field -/

/-- A selection whose directives are known touches the same in another field. -/
theorem footprint_ofSelection_withField (field : Option FieldDefinition) {s : Scope} (x : Selection)
    (hx : ∀ d ∈ x.directives, schema.directive? d.name ≠ none) :
    footprint schema (ofSelection schema (s.withField field) x)
      = footprint schema (ofSelection schema s x) := by
  cases x with
  -- the field of a selection takes the place of the one around
  | field responseName n arguments directives selections => rfl
  | spread n directives =>
    rw [Selection.directives] at hx
    rw [ofSelection, ofSelection, footprint_spread, footprint_spread,
      footprints_ofDirective_withField hx]
    rfl
  | inline condition directives selections =>
    simp only [Selection.directives, List.mem_append] at hx
    have hdirectives := fun s : Scope ↦
      footprints_ofDirective_withField (s := s) (fun d hd ↦ hx d (.inl hd)) field
    have hselections : footprints schema
          (ofSelections schema ((s.ofFragment schema condition).withField field) selections)
        = footprints schema (ofSelections schema (s.ofFragment schema condition) selections) := by
      refine footprints_map_congr fun x hmem ↦ ?_
      have := List.sizeOf_lt_of_mem hmem
      rw [Scope.ofSelections_withField]
      exact footprint_ofSelection_withField field x fun d hd ↦
        hx d (.inr (Selection.mem_directivesIn.2 ⟨x, hmem, hd⟩))
    simp only [ofSelection]
    rw [Scope.ofFragment_withField, footprint_inline, footprint_inline, hselections, hdirectives]
    rfl
termination_by sizeOf x

theorem footprints_ofSelection_withField (field : Option FieldDefinition) {s : Scope}
    (hxs : ∀ d ∈ Selection.directivesIn xs, schema.directive? d.name ≠ none) :
    footprints schema (xs.map (ofSelection schema (s.withField field)))
      = footprints schema (xs.map (ofSelection schema s)) :=
  footprints_map_congr fun x hx ↦ footprint_ofSelection_withField field x fun d hd ↦
    hxs d (Selection.mem_directivesIn.2 ⟨x, hx, hd⟩)

/-! ## A spread and what it stands for -/

/-- A spread touches what the inline fragment does, and the output type in force. -/
theorem mem_footprint_inline_of_spread (n c : Name) (selections : List Selection)
    (ht : t ∈ footprint schema (ofSelection schema s (.spread n ds))) :
    t ∈ footprint schema (ofSelection schema s (.inline (some c) ds selections)) ∨
      s.position.output = some t := by
  simp only [ofSelection, footprint_spread, footprint_inline, List.mem_append,
    Option.mem_toList] at ht ⊢
  rcases ht with howner | hdirectives
  · exact .inl (.inl (.inr (.inl howner)))
  · exact (mem_footprints_ofDirective_withOutput _ hdirectives).imp_left fun h ↦ .inr (.inl h)

/-- The selections of a fragment touch wherever they stand what they touch in its definition. -/
theorem footprints_ofSelections_ofFragment (hs : s.OutputOnly)
    (hf : ∀ d ∈ Selection.directivesIn f.selections, schema.directive? d.name ≠ none) :
    footprints schema (ofSelections schema (s.ofFragment schema (some f.condition)) f.selections) =
      footprints schema (ofSelections schema
        (Scope.outside.ofFragment schema (some f.condition)) f.selections) := by
  rw [ofSelections, Scope.ofSelections_ofFragment hs, footprints_ofSelection_withField _ hf]
  rfl

/-- An inline fragment touches what the spread does, and what the fragment does where it is
defined. -/
theorem mem_footprint_spread_of_inline (hs : s.OutputOnly)
    (hf : ∀ d ∈ Selection.directivesIn f.selections, schema.directive? d.name ≠ none)
    (ht : t ∈ footprint schema
      (ofSelection schema s (.inline (some f.condition) ds f.selections))) :
    t ∈ footprint schema (ofSelection schema s (.spread f.name ds)) ∨
      t ∈ (Definition.fragment f).footprint schema := by
  simp only [ofSelection, footprint_spread, footprint_inline,
    footprints_ofSelections_ofFragment hs hf, Definition.footprint_fragment,
    footprint_fragmentDefinition, List.mem_append, Option.mem_toList] at ht ⊢
  have hcondition (h : (s.ofFragment schema (some f.condition)).position.output = some t) :
      schema.resolveName? f.condition = some t := Scope.resolveName?_of_output_ofFragment h
  rcases ht with (ht | howner | houtput) | hdirectives | hselections
  · exact .inr (.inl ht)
  · exact .inl (.inl howner)
  · exact .inr (.inl (hcondition houtput))
  · exact (mem_footprints_ofDirective_withOutput s.position.output hdirectives).imp .inr
      fun houtput ↦ .inl (hcondition houtput)
  · exact .inr (.inr (.inr hselections))

/-! ## Selections in place of others -/

/-- If a selection touches no more than its replacement, the output type in force and some other
types, this is so of the definition around it, where an output type in force is touched anyway. -/
theorem mem_footprint_of_replaces {R : Selection → Selection → Prop} {others : List TypeRef}
    (hR : ∀ {s : Scope} {x y : Selection}, s.OutputOnly → R x y →
      t ∈ footprint schema (ofSelection schema s x) →
        t ∈ footprint schema (ofSelection schema s y) ∨ s.position.output = some t ∨ t ∈ others)
    {d d' : Definition} (h : d.Replaces R d') (ht : t ∈ d.footprint schema) :
    t ∈ d'.footprint schema ∨ t ∈ others := by
  have hhead {s : Scope} {xs ys : List Selection} (hs : s.Selecting schema)
      (h : Selection.AtHead R xs ys)
      (ht : t ∈ (footprints schema (ofSelections schema s xs)).map id) :
      t ∈ (footprints schema (ofSelections schema s ys)).map id ∨
        t ∈ s.position.output.toList.map id ∨ t ∈ others := by
    obtain ⟨h, rest⟩ := h
    simp only [List.map_id, footprints_ofSelections_cons, List.mem_append, Option.mem_toList]
      at ht ⊢
    rcases ht with ht | ht
    · exact (hR hs.outputOnly.ofSelections h ht).imp_left .inl
    · exact .inl (.inr ht)
  have hne (xs ys : List Selection) (h : Selection.AtHead R xs ys) : ys ≠ [] := by
    cases h
    exact List.cons_ne_nil _ _
  have hrewrites := mem_map_footprint_of_rewrites hhead hne h.rewrites (by rwa [List.map_id])
  rwa [List.map_id] at hrewrites

end Place

/-! ## Unfolding a spread -/

variable {document document' : Document} {d d' : Definition}

theorem Definition.mem_footprint_of_unfolds (h : d.Replaces (Selection.UnfoldsTo f) d')
    (ht : t ∈ d.footprint schema) : t ∈ d'.footprint schema := by
  have hothers : t ∈ d'.footprint schema ∨ t ∈ ([] : List TypeRef) := by
    refine Place.mem_footprint_of_replaces ?_ h ht
    rintro s _ _ - ⟨directives⟩ ht
    exact (Place.mem_footprint_inline_of_spread _ _ _ ht).imp_right .inl
  exact hothers.resolve_right List.not_mem_nil

theorem Definition.mem_footprint_of_unfolds_symm (h : d.Replaces (Selection.UnfoldsTo f) d')
    (hf : ∀ d ∈ Selection.directivesIn f.selections, schema.directive? d.name ≠ none)
    (ht : t ∈ d'.footprint schema) :
    t ∈ d.footprint schema ∨ t ∈ (Definition.fragment f).footprint schema := by
  refine Place.mem_footprint_of_replaces ?_ h.symm ht
  rintro s _ _ hs ⟨directives⟩ ht
  exact (Place.mem_footprint_spread_of_inline hs hf ht).imp_right .inr

/-- **A spread means the same as its fragment written in place.**  If the directives of a document
are all defined, replacing any spread by an inline fragment, with the condition and the selections
of the fragment and the directives of the spread, leaves the collected types as they are.  The spread
may stand anywhere, also inside the fragment itself, and fragments may be cyclic or have a condition
that is not the name of a composite type. -/
theorem mem_collect_unfold (schema : Schema)
    (hdirectives : ∀ d ∈ document.directives, schema.directive? d.name ≠ none)
    (h : document.Unfolds document') (t : TypeRef) :
    t ∈ collect schema document' ↔ t ∈ collect schema document := by
  obtain ⟨f, before, after, d, d', hfind, hd, rfl, rfl⟩ := h
  have hf : Definition.fragment f ∈ before ++ d :: after :=
    mem_fragments.1 (Fragments.mem_definitions_of_find? hfind)
  have hselections : ∀ d ∈ Selection.directivesIn f.selections, schema.directive? d.name ≠ none :=
    fun e he ↦ hdirectives e (List.mem_flatMap.2 ⟨_, hf, List.mem_append_right _ he⟩)
  have hsplit (d : Definition) : t ∈ collect schema (before ++ d :: after) ↔
      t ∈ collect schema before ∨ t ∈ d.footprint schema ∨ t ∈ collect schema after := by
    simp only [mem_collect_iff_footprint, List.mem_append, List.mem_cons, or_and_right, exists_or,
      exists_eq_left]
  constructor
  · intro ht
    rcases (hsplit d').1 ht with hbefore | hdefinition | hafter
    · exact (hsplit d).2 (.inl hbefore)
    · rcases Definition.mem_footprint_of_unfolds_symm hd hselections hdefinition with ht | ht
      · exact (hsplit d).2 (.inr (.inl ht))
      · exact mem_collect_iff_footprint.2 ⟨_, hf, ht⟩
    · exact (hsplit d).2 (.inr (.inr hafter))
  · intro ht
    rcases (hsplit d).1 ht with hbefore | hdefinition | hafter
    · exact (hsplit d').2 (.inl hbefore)
    · exact (hsplit d').2 (.inr (.inl (Definition.mem_footprint_of_unfolds hd hdefinition)))
    · exact (hsplit d').2 (.inr (.inr hafter))

/-- A schema of books and their sequels, with a directive of its own. -/
def librarySchema : Schema where
  types := BuiltIn.types ++
    [BuiltIn.objectType (BuiltIn.named "Library")
      [⟨none, BuiltIn.named "book",
        [BuiltIn.argument (BuiltIn.named "titled") (BuiltIn.required .string)],
        BuiltIn.optional (BuiltIn.named "Book"), []⟩],
     BuiltIn.objectType (BuiltIn.named "Book")
      [BuiltIn.plainField (BuiltIn.named "sequel") (BuiltIn.optional (BuiltIn.named "Book"))]]
  directives :=
    ⟨none, BuiltIn.named "cached", [BuiltIn.argument (BuiltIn.named "for") (BuiltIn.optional .string)],
      false, [.fragmentSpread, .inlineFragment]⟩ :: BuiltIn.directives
  roots := ⟨some (BuiltIn.named "Library"), none, none⟩
  types_nodup := by decide

/-- A query for a book that selects these items. -/
def bookSelecting (selections : List Selection) : Definition :=
  .operation ⟨.query, none, [], [], [.field none (BuiltIn.named "book") [] [] selections]⟩

/-- The fragment `Sequels`, which selects these items of the next book. -/
def sequelsSelecting (selections : List Selection) : Fragment :=
  ⟨BuiltIn.named "Sequels", BuiltIn.named "Book", [],
    [.field none (BuiltIn.named "sequel") [] [] selections]⟩

/-- The directive that keeps something for a while. -/
def cached : Directive := ⟨BuiltIn.named "cached", [⟨BuiltIn.named "for", .string "1d"⟩]⟩

/-- A book with its sequels, and theirs, without end. -/
def sequels : Selection := .spread (BuiltIn.named "Sequels") [cached]

/-- One more sequel before the others. -/
def nextSequel : Selection :=
  .inline (some (BuiltIn.named "Book")) [cached] (sequelsSelecting [sequels]).selections

/-- A query for a book with its sequels, where the spread inside the fragment may be unfolded. -/
def bookWithSequels (inner : Selection) : Document :=
  [bookSelecting [sequels], .fragment (sequelsSelecting [inner])]

/-- A fragment that spreads itself is unfolded inside itself. -/
theorem mem_collect_unfold_sequels :
    (∀ d ∈ (bookWithSequels sequels).directives, librarySchema.directive? d.name ≠ none) ∧
    (bookWithSequels sequels).Unfolds (bookWithSequels nextSequel) ∧
    ∀ t, t ∈ collect librarySchema (bookWithSequels nextSequel) ↔
      t ∈ collect librarySchema (bookWithSequels sequels) := by
  have hdirectives : ∀ d ∈ (bookWithSequels sequels).directives,
      librarySchema.directive? d.name ≠ none := by
    decide
  have hreplaces : Definition.Replaces (Selection.UnfoldsTo (sequelsSelecting [sequels]))
      (.fragment (sequelsSelecting [sequels])) (.fragment (sequelsSelecting [nextSequel])) :=
    .fragment (.field (.here (.spread [cached]) []) _ _ _ _ _)
  have hunfolds : (bookWithSequels sequels).Unfolds (bookWithSequels nextSequel) :=
    ⟨_, [bookSelecting [sequels]], [], _, _, rfl, hreplaces, rfl, rfl⟩
  exact ⟨hdirectives, hunfolds, mem_collect_unfold librarySchema hdirectives hunfolds⟩

/-- An unknown directive has its arguments looked up in the field around it: in place of its spread,
the fragment touches the type of a title. -/
example :
    let unknown : Selection :=
      .inline none [⟨BuiltIn.named "unknown", [⟨BuiltIn.named "titled", .null⟩]⟩] []
    let unfolded : Selection := .inline (some (BuiltIn.named "Book")) [] [unknown]
    let fragment : Definition :=
      .fragment ⟨BuiltIn.named "Sequels", BuiltIn.named "Book", [], [unknown]⟩
    (collect librarySchema
        [bookSelecting [.spread (BuiltIn.named "Sequels") []], fragment]).sameElements
      (collect librarySchema [bookSelecting [unfolded], fragment]) = false := by
  decide

end TypeFootprint
