import TypeFootprint.Footprint.Resolve
import TypeFootprint.Proofs.Inference.Agreement
import TypeFootprint.Proofs.Inference.Visits

/-!
# What is in a footprint

Membership in the results of collecting, expanding and naming, without the order of the results.

* `mem_collect` — a type is collected if it is recorded at a visited place.
* `mem_collect_iff_touched` — the same, but with the fragments of the document forgotten.  A spread
  records the condition of the fragment that it names; the definition of that fragment is visited in
  its own right and records it too.  So what a definition adds to a footprint does not depend on the
  other definitions of the document.
* `mem_expand` and `mem_canonicalize` — and what becomes of the collected types.
-/

set_option autoImplicit false

namespace TypeFootprint

variable {schema : Schema} {document : Document} {fragments : Fragments} {t : TypeRef}

/-! ## Collecting -/

theorem mem_recordedTypes {calls : List Call} :
    t ∈ recordedTypes calls ↔ ∃ c ∈ calls, t ∈ c.recorded.types := by
  rw [recordedTypes, OrderedSet.mem_ofList, List.mem_flatMap]

/-- The consultations of a walk are those at the visited places. -/
theorem mem_walkDocument {rules : Rules} {c : Call} :
    c ∈ walkDocument schema rules document ↔
      ∃ p, Visited schema rules document p ∧ p.call rules = c := by
  have h : walkDocument schema rules document = callsOfDocument schema rules document :=
    (lists_walkDefinitions document).calls
  rw [h, mem_callsOfDocument]

/-- What is collected is what the handing down of types records. -/
theorem collect_eq (schema : Schema) (document : Document) :
    collect schema document
      = recordedTypes (callsOfDocument schema
          (collectRules schema (.ofDocument document)) document) :=
  congrArg recordedTypes (lists_walkDefinitions document).calls

theorem mem_collect :
    t ∈ collect schema document ↔
      ∃ p, Visited schema (collectRules schema (.ofDocument document)) document p ∧
        t ∈ (p.call (collectRules schema (.ofDocument document))).recorded.types := by
  rw [collect, mem_recordedTypes]
  constructor
  · rintro ⟨c, hc, ht⟩
    obtain ⟨p, hp, rfl⟩ := mem_walkDocument.1 hc
    exact ⟨p, hp, ht⟩
  · rintro ⟨p, hp, ht⟩
    exact ⟨_, mem_walkDocument.2 ⟨p, hp, rfl⟩, ht⟩

/-! ## Forgetting the fragments -/

/-- No fragment is known by name. -/
def Fragments.empty : Fragments := ⟨[]⟩

/-- The types that a place records by itself, whatever the fragments of the document are. -/
def Place.touched (schema : Schema) (p : Place) : List TypeRef :=
  (p.call (collectRules schema .empty)).recorded.types

/-- Whether the parts of a place are passed over does not depend on the fragments. -/
theorem skips_collectRules (fragments : Fragments) (p : Place) :
    p.skips (collectRules schema fragments) = p.skips (collectRules schema .empty) := by
  obtain ⟨node, s⟩ := p
  cases node with
  | selection x => cases x <;> rfl
  | _ => rfl

/-- Only a spread records anything else for the fragments: the condition of the one it names. -/
theorem mem_recorded_iff {p : Place} :
    t ∈ (p.call (collectRules schema fragments)).recorded.types ↔
      t ∈ p.touched schema ∨
        ∃ n ds, p.node = .selection (.spread n ds) ∧ fragments.type? schema n = some t := by
  obtain ⟨node, s⟩ := p
  cases node with
  | selection x =>
    cases x with
    | spread n ds =>
      have hempty : Fragments.empty.type? schema n = none := rfl
      simp [Place.touched, Place.call, collectRules, collectSelection, Recorded.known, hempty,
        or_comm, eq_comm]
    | _ => simp [Place.touched, Place.call, collectRules, collectSelection]
  | _ => simp [Place.touched, Place.call, collectRules]

/-- A type of a certain kind is a defined type. -/
theorem Schema.resolve?_of_keepKind {p : TypeKind → Bool} {u : TypeRef}
    (h : schema.keepKind p u = some t) : schema.resolve? u = some t := by
  obtain ⟨hkind, rfl⟩ := Schema.keepKind_eq_some_iff.1 h
  obtain ⟨k, hk, -⟩ := Schema.hasKind_iff.1 hkind
  rw [Schema.resolve?, hk, Option.map_some]

theorem Fragments.mem_definitions_of_find? {n : Name} {f : Fragment}
    (h : fragments.find? n = some f) : f ∈ fragments.definitions :=
  List.mem_reverse.1 (List.mem_of_find?_eq_some h)

theorem Fragments.exists_of_type? {n : Name} (h : fragments.type? schema n = some t) :
    ∃ f ∈ fragments.definitions, schema.resolveName? f.condition = some t := by
  rw [Fragments.type?, Option.bind_eq_bind, Option.bind_eq_some_iff] at h
  obtain ⟨f, hf, h⟩ := h
  exact ⟨f, mem_definitions_of_find? hf, Schema.resolve?_of_keepKind h⟩

theorem mem_fragments {f : Fragment} : f ∈ document.fragments ↔ .fragment f ∈ document := by
  rw [Document.fragments, List.mem_filterMap]
  constructor
  · rintro ⟨d, hd, h⟩
    cases d <;> simp_all
  · exact fun h ↦ ⟨_, h, rfl⟩

/-- **A footprint is made of what the places touch by themselves.**  What a spread takes from the
fragment it names, the definition of that fragment records as well. -/
theorem mem_collect_iff_touched :
    t ∈ collect schema document ↔
      ∃ p, Visited schema (collectRules schema .empty) document p ∧ t ∈ p.touched schema := by
  rw [mem_collect]
  constructor
  · rintro ⟨p, hp, ht⟩
    rcases mem_recorded_iff.1 ht with ht | ⟨n, ds, -, hn⟩
    · exact ⟨p, hp.congr fun q ↦ (skips_collectRules _ q).symm, ht⟩
    · obtain ⟨f, hf, hcondition⟩ := Fragments.exists_of_type? hn
      refine ⟨_, .definition (mem_fragments.1 hf) rfl, ?_⟩
      simp [Place.touched, Place.call, collectRules, Recorded.known, hcondition]
  · rintro ⟨p, hp, ht⟩
    exact ⟨p, hp.congr (skips_collectRules _), mem_recorded_iff.2 (.inl ht)⟩

/-! ## Object literals -/

/-- The fields of an object literal are visited exactly if it is written against an input object. -/
theorem skips_object_iff {s : Scope} {fields : List (Name × Value)} :
    Place.skips (collectRules schema fragments) ⟨.value (.object fields), s⟩ = false ↔
      ∃ t, s.position.input = some t ∧ schema.inputObject? t.core ≠ none := by
  rw [Place.skips, Place.call, collectRules, collectValue]
  cases hinput : s.position.input with
  | none => simp [Recorded.skipping]
  | some t =>
    cases hobject : schema.inputObject? t.core with
    | none => simp [Recorded.skipping, hobject]
    | some declared => simp [Recorded.none, Recorded.and, hobject]

theorem skips_object {s : Scope} {fields : List (Name × Value)} (ht : s.position.input = some t)
    (hobject : schema.inputObject? t.core ≠ none) :
    Place.skips (collectRules schema fragments) ⟨.value (.object fields), s⟩ = false :=
  skips_object_iff.2 ⟨t, ht, hobject⟩

/-- A field of an object literal records the input object that it belongs to. -/
theorem core_mem_objectField {s : Scope} (field : Name × Value) (ht : s.position.input = some t) :
    .ofName t.core ∈ ((Place.ofObjectField schema s field).call
      (collectRules schema fragments)).recorded.types := by
  simp [Place.call, collectRules, collectObjectField, Place.ofObjectField, Scope.ofObjectField,
    Scope.withInput, ht, Recorded.known, Recorded.and]

/-! ## Expanding and naming -/

theorem mem_expand {types : OrderedSet TypeRef} :
    t ∈ expand schema types ↔
      t ∈ types ∨ ∃ u ∈ types, ∃ n ∈ possibleTypes schema u.core, .ofName n = t := by
  simp only [expand, OrderedSet.mem_insertMany, List.mem_flatMap, List.mem_map,
    ← OrderedSet.mem_def]

theorem Policy.mem_apply {policy : Policy} {names : OrderedSet String} {n : String} :
    n ∈ policy.apply names ↔ n ∈ names ∧ n ∉ policy.denied ∨ n ∈ policy.forced := by
  simp only [Policy.apply, OrderedSet.mem_insertMany, OrderedSet.mem_filter, decide_eq_true_eq,
    ← OrderedSet.mem_def]

theorem mem_canonicalize {policy : Policy} {types : OrderedSet TypeRef} {n : String} :
    n ∈ canonicalize policy types ↔
      (∃ t ∈ types, t.canonicalName? = some n) ∧ n ∉ policy.denied ∨ n ∈ policy.forced := by
  simp only [canonicalize, Policy.mem_apply, OrderedSet.mem_ofList, List.mem_filterMap,
    ← OrderedSet.mem_def]

/-- A type with the types that expanding adds for it. -/
theorem mem_resolveTypeNames {policy : Policy} {n : String} :
    n ∈ resolveTypeNames schema document policy ↔
      (∃ u ∈ collect schema document,
        u.canonicalName? = some n ∨
          ∃ m ∈ possibleTypes schema u.core, (TypeRef.ofName m).canonicalName? = some n) ∧
        n ∉ policy.denied ∨ n ∈ policy.forced := by
  have h : (∃ t ∈ expand schema (collect schema document), t.canonicalName? = some n) ↔
      ∃ u ∈ collect schema document,
        u.canonicalName? = some n ∨
          ∃ m ∈ possibleTypes schema u.core, (TypeRef.ofName m).canonicalName? = some n := by
    constructor
    · rintro ⟨t, ht, hn⟩
      rcases mem_expand.1 ht with ht | ⟨u, hu, m, hm, rfl⟩
      · exact ⟨t, ht, .inl hn⟩
      · exact ⟨u, hu, .inr ⟨m, hm, hn⟩⟩
    · rintro ⟨u, hu, hn | ⟨m, hm, hn⟩⟩
      · exact ⟨u, mem_expand.2 (.inl hu), hn⟩
      · exact ⟨_, mem_expand.2 (.inr ⟨u, hu, m, hm, rfl⟩), hn⟩
  rw [resolveTypeNames, mem_canonicalize, h]

end TypeFootprint
