import TypeFootprint.Proofs.Footprint.Rewriting
import TypeFootprint.Proofs.Footprint.Wrappers

/-!
# Inline fragments that say nothing

An inline fragment without a type condition and without directives may give way to its selections.
They are read under the core of the output type around the fragment, and without the fragment under
that type itself.  So the types that are recorded may differ, if the type around the fragment has
wrappers; their cores do not:

* `Scope.ofFragment_none_sameCores` — such a fragment changes the scope by wrappers only, because
  every output type that is in force is of an output kind already;
* the owner of the fragment, which it records, also owns its selections, and the output type that it
  records is in force around it.

`spliced_footprint` says so for a fragment anywhere in a document, and for the names in the end.
-/

set_option autoImplicit false

namespace TypeFootprint

/-- An inline fragment that says nothing, in front of other selections, gives way to its own
selections. -/
inductive Selection.Splices : List Selection → List Selection → Prop
  | inline {xs : List Selection} (hxs : xs ≠ []) (rest : List Selection) :
    Splices (.inline none [] xs :: rest) (xs ++ rest)

/-- One inline fragment of a document, at any depth of an operation or of a fragment, gives way to
its selections. -/
def Document.Splices (document document' : Document) : Prop :=
  ∃ (before after : Document) (d d' : Definition), d.Rewrites Selection.Splices d' ∧
    document = before ++ d :: after ∧ document' = before ++ d' :: after

variable {schema : Schema} {s s' : Scope} {xs ys : List Selection} {n : Name}

/-! ## Scopes -/

/-- Without a condition a fragment keeps the core of the output type around it. -/
theorem Scope.ofFragment_none_sameCores (h : s.position.WellKinded schema) :
    (s.ofFragment schema none).SameCores s := by
  have hcore : (keep schema TypeKind.isOutput
      ((s.position.output.map TypeRef.core).map .ofName)).map TypeRef.core
        = s.position.output.map TypeRef.core := by
    rw [map_core_keep]
    cases houtput : s.position.output with
    | none => rfl
    | some t =>
      simp only [Option.map_some, TypeRef.core_ofName]
      exact Option.filter_eq_some_iff.2 ⟨rfl, h.output t houtput⟩
  exact (SameCores.refl s).withOutput hcore

/-! ## Footprints -/

namespace Place

/-- Scopes that differ by wrappers lead to footprints with the same cores. -/
theorem map_core_footprints_ofSelections_congr
    (h : (s.ofSelections schema).SameCores (s'.ofSelections schema)) (xs : List Selection) :
    (footprints schema (ofSelections schema s xs)).map TypeRef.core
      = (footprints schema (ofSelections schema s' xs)).map TypeRef.core := by
  have hplace (x : Selection) :
      (footprint schema (ofSelection schema (s.ofSelections schema) x)).map TypeRef.core
        = (footprint schema (ofSelection schema (s'.ofSelections schema) x)).map TypeRef.core :=
    map_core_flatMap_types (callsOf_sameCores rfl (ofSelection_sameCores rfl h x))
  simp only [footprints, ofSelections, List.flatMap_map, List.map_flatMap, hplace]

/-- Besides what its selections touch in its place, the fragment touches their owner and the output
type in force. -/
theorem map_core_footprints_inline_cons (h : s.Selecting schema) (xs rest : List Selection) :
    (footprints schema (ofSelections schema s (.inline none [] xs :: rest))).map TypeRef.core
      = ((s.ofSelections schema).position.parentOutput.toList.map TypeRef.core ++
          s.position.output.toList.map TypeRef.core) ++
        (footprints schema (ofSelections schema s (xs ++ rest))).map TypeRef.core := by
  have hscope : ((s.ofSelections schema).ofFragment schema none).SameCores
      (s.ofSelections schema) :=
    Scope.ofFragment_none_sameCores (Scope.wellKinded_ofSelections h.wellKinded)
  have houtput : ((s.ofSelections schema).ofFragment schema none).position.output.toList.map
      TypeRef.core = s.position.output.toList.map TypeRef.core := by
    rw [← Option.toList_map, hscope.position.output, Option.toList_map]
    rfl
  have hselections : (footprints schema (ofSelections schema
        ((s.ofSelections schema).ofFragment schema none) xs)).map TypeRef.core
      = (footprints schema (ofSelections schema s xs)).map TypeRef.core :=
    map_core_footprints_ofSelections_congr (hscope.ofSelections rfl) xs
  have happend : footprints schema (ofSelections schema s (xs ++ rest))
      = footprints schema (ofSelections schema s xs) ++
        footprints schema (ofSelections schema s rest) := by
    rw [ofSelections, List.map_append, footprints_append]
    rfl
  rw [footprints_ofSelections_cons, ofSelection, footprint_inline, happend]
  simp only [List.map_append, List.map_nil, footprints_nil, Option.bind_none, Option.toList_none,
    List.nil_append, houtput, hselections, List.append_assoc]
  rfl

theorem core_mem_footprints_of_spliced (hs : s.Selecting schema) (h : Selection.Splices xs ys)
    (hn : n ∈ (footprints schema (ofSelections schema s ys)).map TypeRef.core) :
    n ∈ (footprints schema (ofSelections schema s xs)).map TypeRef.core := by
  obtain ⟨-, rest⟩ := h
  rw [map_core_footprints_inline_cons hs]
  exact List.mem_append_right _ hn

/-- The owner of the fragment owns its selections too, so no more than the output type in force is
lost with the fragment. -/
theorem core_mem_footprints_of_splices (hs : s.Selecting schema) (h : Selection.Splices xs ys)
    (hn : n ∈ (footprints schema (ofSelections schema s xs)).map TypeRef.core) :
    n ∈ (footprints schema (ofSelections schema s ys)).map TypeRef.core ∨
      n ∈ s.position.output.toList.map TypeRef.core := by
  obtain ⟨hne, rest⟩ := h
  rw [map_core_footprints_inline_cons hs, List.mem_append, List.mem_append] at hn
  rcases hn with (howner | houtput) | hselections
  · obtain ⟨t, ht, rfl⟩ := List.mem_map.1 howner
    exact .inl (List.mem_map_of_mem (parentOutput_mem_footprints_ofSelections
      (List.append_ne_nil_of_left_ne_nil hne rest) (Option.mem_toList.1 ht)))
  · exact .inr houtput
  · exact .inl hselections

end Place

/-! ## Documents -/

variable {document document' : Document} {d d' : Definition}

/-- A definition touches the same cores after the fragment has given way. -/
theorem Definition.core_mem_footprint_splices (h : d.Rewrites Selection.Splices d') :
    n ∈ (d'.footprint schema).map TypeRef.core ↔ n ∈ (d.footprint schema).map TypeRef.core := by
  have hne (xs ys : List Selection) (h : Selection.Splices xs ys) : ys ≠ [] ∧ xs ≠ [] := by
    obtain ⟨hxs, rest⟩ := h
    exact ⟨List.append_ne_nil_of_left_ne_nil hxs rest, List.cons_ne_nil _ _⟩
  constructor
  · intro hn
    have hmem : n ∈ (d.footprint schema).map TypeRef.core ∨ n ∈ ([] : List Name) := by
      refine Place.mem_map_footprint_of_rewrites ?_ (fun xs ys h ↦ (hne ys xs h).2) h.symm hn
      exact fun hs h hn ↦ .inl (Place.core_mem_footprints_of_spliced hs h hn)
    exact hmem.resolve_right List.not_mem_nil
  · intro hn
    have hmem : n ∈ (d'.footprint schema).map TypeRef.core ∨ n ∈ ([] : List Name) := by
      refine Place.mem_map_footprint_of_rewrites ?_ (fun xs ys h ↦ (hne xs ys h).1) h hn
      exact fun hs h hn ↦ (Place.core_mem_footprints_of_splices hs h hn).imp_right .inl
    exact hmem.resolve_right List.not_mem_nil

/-- The names that a document needs depend on the cores of its types. -/
theorem mem_resolveTypeNames_congr
    (h : ∀ n, (∃ t ∈ collect schema document, t.core = n) ↔
      ∃ t ∈ collect schema document', t.core = n) {policy : Policy} {text : String} :
    text ∈ resolveTypeNames schema document policy ↔
      text ∈ resolveTypeNames schema document' policy := by
  have hcongr (P : Name → Prop) :
      (∃ t ∈ collect schema document, P t.core) ↔ ∃ t ∈ collect schema document', P t.core := by
    constructor
    · rintro ⟨t, ht, hP⟩
      obtain ⟨u, hu, hcore⟩ := (h t.core).1 ⟨t, ht, rfl⟩
      exact ⟨u, hu, hcore ▸ hP⟩
    · rintro ⟨t, ht, hP⟩
      obtain ⟨u, hu, hcore⟩ := (h t.core).2 ⟨t, ht, rfl⟩
      exact ⟨u, hu, hcore ▸ hP⟩
  simp only [mem_resolveTypeNames, canonicalName?_eq]
  rw [hcongr fun n ↦ some n.reduced = some text ∨
    ∃ m ∈ possibleTypes schema n, some (TypeRef.ofName m).core.reduced = some text]

/-- **Inline fragments that say nothing are transparent.**  For every schema, let an inline fragment
without a type condition and without directives, anywhere in a document, give way to its selections,
of which there are some.  Then the types that the document touches have the same cores as before, and
it needs the same names under every policy. -/
theorem spliced_footprint (schema : Schema) (h : document.Splices document') (policy : Policy) :
    (∀ n, (∃ t ∈ collect schema document', t.core = n) ↔
      ∃ t ∈ collect schema document, t.core = n) ∧
    ∀ text, text ∈ resolveTypeNames schema document' policy ↔
      text ∈ resolveTypeNames schema document policy := by
  obtain ⟨before, after, d, d', hd, rfl, rfl⟩ := h
  have hsplit (n : Name) (d : Definition) : (∃ t ∈ collect schema (before ++ d :: after), t.core = n) ↔
      (∃ t ∈ collect schema before, t.core = n) ∨ n ∈ (d.footprint schema).map TypeRef.core ∨
        ∃ t ∈ collect schema after, t.core = n := by
    simp only [mem_collect_iff_footprint, List.mem_append, List.mem_cons, List.mem_map,
      or_and_right, exists_or, exists_eq_left]
  have hcores (n : Name) : (∃ t ∈ collect schema (before ++ d' :: after), t.core = n) ↔
      ∃ t ∈ collect schema (before ++ d :: after), t.core = n := by
    rw [hsplit, hsplit, Definition.core_mem_footprint_splices hd]
  exact ⟨hcores, fun text ↦ mem_resolveTypeNames_congr hcores⟩

/-- What is asked of every post: its tags, and more if that is wanted. -/
def tagsAndMore : List Selection :=
  [.field none (BuiltIn.named "tags" (Eq.refl true)) [] [] [],
   .spread (BuiltIn.named "More" (Eq.refl true))
    [⟨BuiltIn.named "include" (Eq.refl true),
      [⟨BuiltIn.named "if" (Eq.refl true), .boolean true⟩]⟩]]

/-- A query for posts that selects these items. -/
def postsSelecting (selections : List Selection) : Document :=
  [.operation ⟨.query, none, [], [],
    [.field none (BuiltIn.named "posts" (Eq.refl true)) [] [] [.inline none [] selections]]⟩]

/-- Of two nested fragments under a list of posts, the inner one gives way. -/
theorem spliced_footprint_postsSelecting :
    (postsSelecting [.inline none [] tagsAndMore]).Splices (postsSelecting tagsAndMore) ∧
    (∀ n, (∃ t ∈ collect (tagSchema fun n ↦ .list (.named n true) true)
          (postsSelecting tagsAndMore), t.core = n) ↔
        ∃ t ∈ collect (tagSchema fun n ↦ .list (.named n true) true)
          (postsSelecting [.inline none [] tagsAndMore]), t.core = n) ∧
    ∀ text, text ∈ resolveTypeNames (tagSchema fun n ↦ .list (.named n true) true)
          (postsSelecting tagsAndMore) .standard ↔
        text ∈ resolveTypeNames (tagSchema fun n ↦ .list (.named n true) true)
          (postsSelecting [.inline none [] tagsAndMore]) .standard := by
  have hsplices : (postsSelecting [.inline none [] tagsAndMore]).Splices
      (postsSelecting tagsAndMore) := by
    have hrewrites : Selection.Rewrites Selection.Splices [.inline none [] tagsAndMore]
        (tagsAndMore ++ []) := .here (.inline (List.cons_ne_nil _ _) [])
    exact ⟨[], [], _, _, .operation (.field (.inline hrewrites none [] []) _ _ _ _ _), rfl, rfl⟩
  exact ⟨hsplices, spliced_footprint _ hsplices .standard⟩

/-- What is collected is not the same: in a list of strings, which own no selections, the fragment
adds a reference to the strings themselves. -/
example : (collect (tagSchema fun n ↦ .list (.named n true) true) (postsSelecting
      [.field none (BuiltIn.named "tags") [] [] [.inline none [] tagsAndMore]])).size ≠
    (collect (tagSchema fun n ↦ .list (.named n true) true) (postsSelecting
      [.field none (BuiltIn.named "tags") [] [] tagsAndMore])).size := by
  decide

end TypeFootprint
