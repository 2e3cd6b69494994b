import TypeFootprint.Proofs.Footprint.Members
import TypeFootprint.Schema.BuiltIn

/-!
# Merging documents

Documents are often spread over several files and put together before anything is resolved.  The
order in which that happens changes which definition of a fragment name is the last, and with it
what a spread records.  It does not change the footprint: that is the union of what the definitions
touch by themselves (`mem_collect_iff_touched`), and a union has no order.

* `mem_collect_append`, `mem_resolveTypeNames_append` — a merged document has the union of the
  footprints.
* `collect_typeSystem` — definitions of the type system add nothing, not even to the order.
* `sortNames_congr` — sorted names depend on the set of names only.
* `merged_footprint` — all of it, for documents that are split and reordered in any way.
-/

set_option autoImplicit false

namespace TypeFootprint

variable {schema : Schema} {policy : Policy} {document document' : Document}

/-! ## Unions -/

theorem mem_collect_append {t : TypeRef} :
    t ∈ collect schema (document ++ document') ↔
      t ∈ collect schema document ∨ t ∈ collect schema document' := by
  simp only [mem_collect_iff_touched, visited_append, or_and_right, exists_or]

theorem mem_resolveTypeNames_append {n : String} :
    n ∈ resolveTypeNames schema (document ++ document') policy ↔
      n ∈ resolveTypeNames schema document policy ∨
        n ∈ resolveTypeNames schema document' policy := by
  simp only [mem_resolveTypeNames, mem_collect_append, or_and_right, exists_or]
  -- a forced name is in both footprints
  exact or_or_distrib_right

theorem collect_typeSystem (d : TypeSystemDefinition) :
    collect schema (document ++ .typeSystem d :: document')
      = collect schema (document ++ document') := by
  have hfragments : Fragments.ofDocument (document ++ .typeSystem d :: document')
      = .ofDocument (document ++ document') := by
    simp [Fragments.ofDocument, Document.fragments, List.filterMap_append]
  rw [collect_eq, collect_eq, hfragments, callsOfDocument, callsOfDocument,
    List.filterMap_append, List.filterMap_append, List.filterMap_cons_none rfl]

/-! ## Orders -/

theorem mem_collect_of_perm (h : document.Perm document') {t : TypeRef} :
    t ∈ collect schema document ↔ t ∈ collect schema document' := by
  simp only [mem_collect_iff_touched]
  constructor
  · rintro ⟨p, hp, ht⟩
    exact ⟨p, hp.mono h.subset, ht⟩
  · rintro ⟨p, hp, ht⟩
    exact ⟨p, hp.mono h.symm.subset, ht⟩

theorem pairwise_sortNames (names : List String) : (sortNames names).Pairwise (· ≤ ·) := by
  have h : (sortNames names).Pairwise fun a b ↦ decide (a ≤ b) = true := by
    refine List.pairwise_mergeSort (fun a b c hab hbc ↦ ?_) (fun a b ↦ ?_) names
    · rw [decide_eq_true_eq] at hab hbc ⊢
      exact String.le_trans hab hbc
    · rw [Bool.or_eq_true, decide_eq_true_eq, decide_eq_true_eq]
      exact String.le_total a b
  exact h.imp of_decide_eq_true

/-- Sorting forgets the order in which names were found. -/
theorem sortNames_congr {names names' : OrderedSet String} (h : ∀ n, n ∈ names ↔ n ∈ names') :
    sortNames names.toList = sortNames names'.toList := by
  have hperm : names.toList.Perm names'.toList :=
    (List.perm_ext_iff_of_nodup names.nodup names'.nodup).2 h
  have hsorted : (sortNames names.toList).Perm (sortNames names'.toList) :=
    (List.mergeSort_perm _ _).trans (hperm.trans (List.mergeSort_perm _ _).symm)
  exact hsorted.eq_of_pairwise (fun _ _ _ _ ↦ String.le_antisymm)
    (pairwise_sortNames _) (pairwise_sortNames _)

/-! ## Merged documents -/

/-- **Merging documents is a union.**  The types that a merged document touches are those that its
parts touch, and the names that it needs are those that its parts need, under any policy; this holds
although a part may spread fragments of another part, or define a fragment name again.  What is
neither an operation nor a fragment adds nothing.  So documents that are made of the same
definitions, in whatever order and from whatever files, need the same sorted names. -/
theorem merged_footprint (schema : Schema) (policy : Policy) :
    (∀ (d₁ d₂ : Document) (t : TypeRef),
      t ∈ collect schema (d₁ ++ d₂) ↔ t ∈ collect schema d₁ ∨ t ∈ collect schema d₂) ∧
    (∀ (d₁ d₂ : Document) (n : String),
      n ∈ resolveTypeNames schema (d₁ ++ d₂) policy ↔
        n ∈ resolveTypeNames schema d₁ policy ∨ n ∈ resolveTypeNames schema d₂ policy) ∧
    (∀ (d₁ d₂ : Document) (d : TypeSystemDefinition),
      collect schema (d₁ ++ .typeSystem d :: d₂) = collect schema (d₁ ++ d₂)) ∧
    (∀ (document : Document) (files : List Document), files.flatten.Perm document →
      sortNames (resolveTypeNames schema files.flatten policy).toList
        = sortNames (resolveTypeNames schema document policy).toList) := by
  refine ⟨fun _ _ _ ↦ mem_collect_append, fun _ _ _ ↦ mem_resolveTypeNames_append,
    fun _ _ d ↦ collect_typeSystem d, fun document files h ↦ sortNames_congr fun n ↦ ?_⟩
  simp only [mem_resolveTypeNames, mem_collect_of_perm h]

/-- The one fragment `Part`, on a type of this name. -/
def partOn (condition : String) (h : isName condition.toList = true := by decide) : Definition :=
  .fragment ⟨BuiltIn.named "Part", ⟨condition, h⟩, [],
    [.spread (BuiltIn.named "Part") [], .field none .name [] [] []]⟩

/-- A query that spreads the fragment. -/
def spreadPart : Definition :=
  .operation ⟨.query, none, [], [], [.spread (BuiltIn.named "Part") []]⟩

/-- What the introspection types make of them: `Part` is defined twice, and the order in which the
three files are put together decides what it is a part of. -/
theorem merged_footprint_of_part_twice :
    [[spreadPart], [partOn "__Type"], [partOn "__Field"]].flatten.Perm
        [partOn "__Field", spreadPart, partOn "__Type"] ∧
      sortNames (resolveTypeNames
          ⟨BuiltIn.types, BuiltIn.directives, ⟨some .typeType, none, none⟩, BuiltIn.types_nodup⟩
          [[spreadPart], [partOn "__Type"], [partOn "__Field"]].flatten .standard).toList
        = sortNames (resolveTypeNames
          ⟨BuiltIn.types, BuiltIn.directives, ⟨some .typeType, none, none⟩, BuiltIn.types_nodup⟩
          [partOn "__Field", spreadPart, partOn "__Type"] .standard).toList := by
  have h : [[spreadPart], [partOn "__Type"], [partOn "__Field"]].flatten.Perm
      ([partOn "__Field"] ++ [spreadPart, partOn "__Type"]) :=
    @List.perm_append_comm _ [spreadPart, partOn "__Type"] [partOn "__Field"]
  exact ⟨h, (merged_footprint _ .standard).2.2.2 _ _ h⟩

end TypeFootprint
