import TypeFootprint.Inference.Walk
import TypeFootprint.Proofs.OrderedSet
import TypeFootprint.Proofs.TypeRef.Notation
import TypeFootprint.Schema.BuiltIn

/-!
# Looking a type up by its notation

A set of types is asked for a type, which compares types, or for a text, which compares notations.
The two agree because a type has one notation and no other type has it.  A text that is no notation
is not read as a type, and finds nothing.

The sets are those that insertions make of the empty one, which says what is in them, too.
-/

set_option autoImplicit false

namespace TypeFootprint

open OrderedSet (ofInsertions)

variable {types : OrderedSet TypeRef} {t : TypeRef} {text : String}

theorem containsNotation_iff :
    containsNotation types text = true ↔ ∃ t ∈ types, t.render = text := by
  rw [containsNotation, List.any_eq_true]
  exact exists_congr fun t ↦ and_congr_right fun _ ↦ beq_iff_eq

/-- A look-up by a text is a look-up by the type that is read from it, if one is. -/
theorem containsNotation_iff_parse? :
    containsNotation types text = true ↔ ∃ t ∈ types, TypeRef.parse? text = some t := by
  simp only [containsNotation_iff, TypeRef.parse?_eq_some_iff]

/-- No other type has the notation of a type, so nothing but the type is found by it. -/
theorem containsNotation_render : containsNotation types t.render = true ↔ t ∈ types := by
  rw [containsNotation_iff]
  refine ⟨?_, fun h ↦ ⟨t, h, rfl⟩⟩
  rintro ⟨u, hu, hrender⟩
  exact TypeRef.render_injective hrender ▸ hu

/-- **Looking up by notation is looking up by type.**  After whatever insertions into the empty set,
a look-up by the notation of a type succeeds exactly if the set has the type, which it has exactly
if an insertion handed it over.  A look-up by a text succeeds exactly if the text is read as a type
that the set has, so one by a text that is no notation never does. -/
theorem containsNotation_ofInsertions (insertions : List (Insertion TypeRef)) :
    (∀ t : TypeRef,
      (containsNotation (ofInsertions insertions) t.render = true ↔ t ∈ ofInsertions insertions) ∧
      (t ∈ ofInsertions insertions ↔ ∃ i ∈ insertions, t ∈ i.elements)) ∧
    ∀ text : String,
      (containsNotation (ofInsertions insertions) text = true ↔
        ∃ t ∈ ofInsertions insertions, TypeRef.parse? text = some t) ∧
      ((∀ t : TypeRef, t.render ≠ text) →
        containsNotation (ofInsertions insertions) text = false) := by
  refine ⟨fun t ↦ ⟨containsNotation_render, OrderedSet.mem_ofInsertions⟩,
    fun text ↦ ⟨containsNotation_iff_parse?, fun h ↦ ?_⟩⟩
  rw [Bool.eq_false_iff, ne_eq, containsNotation_iff]
  rintro ⟨t, -, ht⟩
  exact h t ht

/-- A list of statuses, each of which must be there. -/
def statuses : TypeRef := BuiltIn.listOf (BuiltIn.required (BuiltIn.named "UserStatus"))

/-- The statuses twice, once beside another type, and nothing in between. -/
def statusInsertions : List (Insertion TypeRef) :=
  [.many [statuses, .ofName (BuiltIn.named "UserFilter")], .optional none, .one statuses]

/-- The list is found by its notation, its items are not, and nothing is found by half a notation. -/
theorem containsNotation_ofInsertions_statuses :
    containsNotation (ofInsertions statusInsertions) "[UserStatus!]" = true ∧
      containsNotation (ofInsertions statusInsertions) "UserStatus" = false ∧
      (∀ t : TypeRef, t.render ≠ "[UserStatus!") ∧
      containsNotation (ofInsertions statusInsertions) "[UserStatus!" = false := by
  obtain ⟨htypes, htexts⟩ := containsNotation_ofInsertions statusInsertions
  have hlist : statuses.render = "[UserStatus!]" := by decide +kernel
  have hitem : (TypeRef.ofName (BuiltIn.named "UserStatus")).render = "UserStatus" :=
    TypeRef.render_ofName _
  have hhalf : ∀ t : TypeRef, t.render ≠ "[UserStatus!" :=
    TypeRef.parse?_eq_none_iff.1 (by decide +kernel)
  refine ⟨?_, ?_, hhalf, (htexts _).2 hhalf⟩
  · rw [← hlist, (htypes statuses).1, (htypes statuses).2]
    exact ⟨_, .head _, .head _⟩
  · rw [← hitem, Bool.eq_false_iff, ne_eq, (htypes _).1]
    decide +kernel

end TypeFootprint
