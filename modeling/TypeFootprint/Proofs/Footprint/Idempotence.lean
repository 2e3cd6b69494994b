import TypeFootprint.Proofs.Footprint.CanonicalNames

/-!
# Canonicalizing twice

The names that come out of a run may be canonicalized again.  Reducing a name that is reduced
already changes nothing, and neither does denying what is denied already; but the forced names come
out as they were given, and the second run reduces them like all others.  So the only names that it
can add are the reduced forms of forced names (`mem_canonicalizeTexts_again`), and the two runs have
the same result exactly if these are there already or are denied
(`canonicalize_again_iff`) — above all, if the forced names are canonical.
-/

set_option autoImplicit false

namespace TypeFootprint

variable {policy : Policy} {n : String}

/-- A canonical name is its own reduced form. -/
theorem canonicalText?_of_canonical (h : IsCanonicalName n) : canonicalText? n = some n := by
  have hfilter : n.toList.filter isCanonicalChar = n.toList := List.filter_eq_self.2 h.2
  rw [canonicalText?, hfilter]
  split
  · next hnil => exact absurd (String.toList_eq_nil_iff.1 hnil) h.1
  · rw [String.ofList_toList]

theorem mem_canonicalizeTexts {texts : List String} :
    n ∈ canonicalizeTexts policy texts ↔
      (∃ text ∈ texts, canonicalText? text = some n) ∧ n ∉ policy.denied ∨ n ∈ policy.forced := by
  simp only [canonicalizeTexts, Policy.mem_apply, OrderedSet.mem_ofList, List.mem_filterMap]

/-- The canonical names of types are the canonical forms of their notations. -/
theorem canonicalize_eq (policy : Policy) (types : OrderedSet TypeRef) :
    canonicalize policy types =
      canonicalizeTexts policy (types.toList.map TypeRef.render) := by
  rw [canonicalize, canonicalizeTexts, List.filterMap_map]
  rfl

/-- The reduced forms that the forced names have, unless they are denied. -/
def Policy.residue (policy : Policy) : List String :=
  (policy.forced.toList.filterMap canonicalText?).filter fun n ↦ decide (n ∉ policy.denied)

theorem Policy.mem_residue :
    n ∈ policy.residue ↔
      (∃ name ∈ policy.forced, canonicalText? name = some n) ∧ n ∉ policy.denied := by
  simp only [residue, List.mem_filter, List.mem_filterMap, decide_eq_true_eq, OrderedSet.mem_def]

/-- **What a second run makes of the names of the first.**  It keeps them all and adds the residue
of the policy. -/
theorem mem_canonicalizeTexts_again (texts : List String) :
    n ∈ canonicalizeTexts policy (canonicalizeTexts policy texts).toList ↔
      n ∈ canonicalizeTexts policy texts ∨ n ∈ policy.residue := by
  rw [mem_canonicalizeTexts, Policy.mem_residue]
  constructor
  · rintro (⟨⟨m, hm, hn⟩, hdenied⟩ | hforced)
    · rcases mem_canonicalizeTexts.1 (OrderedSet.mem_def.2 hm) with ⟨⟨text, htext, hm⟩, -⟩ | hm
      · -- What was reduced once is not reduced any further.
        rw [canonicalText?_of_canonical (canonical_of_canonicalText? hm), Option.some.injEq] at hn
        subst hn
        exact .inl (mem_canonicalizeTexts.2 (.inl ⟨⟨text, htext, hm⟩, hdenied⟩))
      · exact .inr ⟨⟨m, hm, hn⟩, hdenied⟩
    · exact .inl (mem_canonicalizeTexts.2 (.inr hforced))
  · rintro (hn | ⟨⟨m, hm, hn⟩, hdenied⟩)
    · rcases mem_canonicalizeTexts.1 hn with ⟨⟨text, -, htext⟩, hdenied⟩ | hforced
      · exact .inl ⟨⟨n, OrderedSet.mem_def.1 hn,
          canonicalText?_of_canonical (canonical_of_canonicalText? htext)⟩, hdenied⟩
      · exact .inr hforced
    · have hresult : m ∈ canonicalizeTexts policy texts := mem_canonicalizeTexts.2 (.inr hm)
      exact .inl ⟨⟨m, OrderedSet.mem_def.1 hresult, hn⟩, hdenied⟩

/-- A second run has the result of the first exactly if the residue is there already. -/
theorem sameElements_again_iff (policy : Policy) (texts : List String) :
    (canonicalizeTexts policy (canonicalizeTexts policy texts).toList).sameElements
        (canonicalizeTexts policy texts) = true ↔
      ∀ n ∈ policy.residue, n ∈ canonicalizeTexts policy texts := by
  simp only [OrderedSet.sameElements_iff, mem_canonicalizeTexts_again]
  constructor
  · exact fun h n hn ↦ (h n).1 (.inr hn)
  · exact fun h n ↦ ⟨fun hn ↦ hn.elim id (h n), .inl⟩

/-- Under a policy that forces canonical names only, as the standard policy does, a second run has
the result of the first. -/
theorem sameElements_again_of_canonical (h : ∀ n ∈ policy.forced, IsCanonicalName n)
    (texts : List String) :
    (canonicalizeTexts policy (canonicalizeTexts policy texts).toList).sameElements
      (canonicalizeTexts policy texts) = true := by
  refine (sameElements_again_iff policy texts).2 fun n hn ↦ ?_
  obtain ⟨⟨m, hm, hmn⟩, -⟩ := Policy.mem_residue.1 hn
  rw [canonicalText?_of_canonical (h m hm), Option.some.injEq] at hmn
  exact mem_canonicalizeTexts.2 (.inr (hmn ▸ hm))

/-- The residue is in every result exactly if it is in that of no names at all, where only the
forced names are. -/
theorem residue_subset_canonicalizeTexts_iff :
    (∀ texts, ∀ n ∈ policy.residue, n ∈ canonicalizeTexts policy texts) ↔
      ∀ n ∈ policy.residue, n ∈ policy.forced := by
  constructor
  · intro h n hn
    simpa [mem_canonicalizeTexts] using h [] n hn
  · exact fun h texts n hn ↦ mem_canonicalizeTexts.2 (.inr (h n hn))

/-- **When canonicalizing twice is canonicalizing once.**  For names as for types, a second run
under the same policy has the same result exactly if the residue of the policy is in the result
already.  It is so for all names, and for all sets of types, just if the policy forces its own
residue. -/
theorem canonicalize_again_iff (policy : Policy) :
    (∀ texts, (canonicalizeTexts policy (canonicalizeTexts policy texts).toList).sameElements
        (canonicalizeTexts policy texts) = true ↔
      ∀ n ∈ policy.residue, n ∈ canonicalizeTexts policy texts) ∧
    (∀ types, (canonicalizeTexts policy (canonicalize policy types).toList).sameElements
        (canonicalize policy types) = true ↔
      ∀ n ∈ policy.residue, n ∈ canonicalize policy types) ∧
    ((∀ texts, (canonicalizeTexts policy (canonicalizeTexts policy texts).toList).sameElements
        (canonicalizeTexts policy texts) = true) ↔ ∀ n ∈ policy.residue, n ∈ policy.forced) ∧
    ((∀ types, (canonicalizeTexts policy (canonicalize policy types).toList).sameElements
        (canonicalize policy types) = true) ↔ ∀ n ∈ policy.residue, n ∈ policy.forced) := by
  refine ⟨sameElements_again_iff policy, fun types ↦ ?_, ?_, ?_⟩
  · rw [canonicalize_eq, sameElements_again_iff]
  · simp only [sameElements_again_iff, residue_subset_canonicalizeTexts_iff]
  · simp only [canonicalize_eq, sameElements_again_iff]
    constructor
    · intro h n hn
      simpa [mem_canonicalizeTexts, OrderedSet.empty] using h .empty n hn
    · exact fun h types ↦ residue_subset_canonicalizeTexts_iff.2 h _

/-- A policy that forces a name with a digit. -/
def digitPolicy : Policy := Policy.empty.force "Address2"

/-- Under this policy the second run finds a name that the first did not find: for a list of names
as for a set of types. -/
theorem exists_canonicalize_again_ne :
    (canonicalizeTexts digitPolicy ["User"]).toList = ["User", "Address2"] ∧
    (canonicalizeTexts digitPolicy (canonicalizeTexts digitPolicy ["User"]).toList).toList =
      ["User", "Address", "Address2"] ∧
    (canonicalizeTexts digitPolicy (canonicalizeTexts digitPolicy ["User"]).toList).sameElements
      (canonicalizeTexts digitPolicy ["User"]) = false ∧
    (canonicalizeTexts digitPolicy (canonicalize digitPolicy .empty).toList).sameElements
      (canonicalize digitPolicy .empty) = false := by
  decide +kernel

end TypeFootprint
