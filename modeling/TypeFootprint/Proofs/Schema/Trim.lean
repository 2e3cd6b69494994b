import Mathlib.Data.List.Nodup
import TypeFootprint.Footprint.Expand
import TypeFootprint.Inference.Typing

/-!
# Schemas trimmed to some types

`Schema.trim` keeps the types of some names and forgets all others; roots, directives and the
definitions of the kept types stay as they are, so a trimmed schema may well refer to types that it
does not define.

Looking up a kept name in the trimmed schema gives what the full schema gives, and looking up any
other name gives nothing.  For types at a place this is `Scope.keep_trim`: what the trimmed schema
keeps is what the full schema keeps, `within` the names.
-/

set_option autoImplicit false

namespace TypeFootprint

/-- The schema with the types of these names only, in the same order. -/
def Schema.trim (schema : Schema) (names : List Name) : Schema where
  types := schema.types.filter fun t ↦ decide (t.name ∈ names)
  directives := schema.directives
  roots := schema.roots
  types_nodup := schema.types_nodup.sublist (List.filter_sublist.map TypeDefinition.name)

/-- The type, where its core is one of these names. -/
def within (names : List Name) (t : Option TypeRef) : Option TypeRef :=
  t.filter fun t ↦ decide (t.core ∈ names)

variable {schema : Schema} {names : List Name} {n : Name}

/-! ## Looking up names -/

namespace Schema

/-- A schema has one type of each name. -/
theorem type?_of_mem {d : TypeDefinition} (hd : d ∈ schema.types) :
    schema.type? d.name = some d := by
  have hfound : (schema.type? d.name).isSome := by
    rw [type?, List.find?_isSome]
    exact ⟨d, hd, by simp⟩
  obtain ⟨d', hd'⟩ := Option.isSome_iff_exists.1 hfound
  have hmem : d' ∈ schema.types := List.mem_of_find?_eq_some hd'
  have hname : d'.name = d.name := by simpa using List.find?_some hd'
  rw [hd', List.inj_on_of_nodup_map schema.types_nodup hmem hd hname]

theorem type?_trim_of_mem (h : n ∈ names) : (schema.trim names).type? n = schema.type? n := by
  rw [type?, trim, List.find?_filter, type?]
  congr 1
  funext t
  by_cases ht : t.name = n
  · simp [ht, h]
  · simp [ht]

theorem type?_trim_of_not_mem (h : n ∉ names) : (schema.trim names).type? n = none := by
  rw [type?, trim, List.find?_eq_none]
  intro t ht
  rw [List.mem_filter, decide_eq_true_eq] at ht
  simp only [decide_eq_true_eq]
  rintro rfl
  exact h ht.2

theorem kind?_trim_of_mem (h : n ∈ names) : (schema.trim names).kind? n = schema.kind? n := by
  rw [kind?, type?_trim_of_mem h, kind?]

theorem kind?_trim_of_not_mem (h : n ∉ names) : (schema.trim names).kind? n = none := by
  rw [kind?, type?_trim_of_not_mem h, Option.map_none]

theorem inputObject?_trim_of_mem (h : n ∈ names) :
    (schema.trim names).inputObject? n = schema.inputObject? n := by
  rw [inputObject?, type?_trim_of_mem h, inputObject?]

theorem inputFieldTypes_trim_of_mem (h : n ∈ names) :
    (schema.trim names).inputFieldTypes n = schema.inputFieldTypes n := by
  rw [inputFieldTypes, inputObject?_trim_of_mem h, inputFieldTypes]

theorem field?_trim_of_mem (h : n ∈ names) (field : Name) :
    (schema.trim names).field? n field = schema.field? n field := by
  rw [field?, type?_trim_of_mem h, field?]
  rfl

end Schema

/-! ## Keeping types -/

theorem within_of_mem {t : TypeRef} (h : t.core ∈ names) : within names (some t) = some t := by
  rw [within, Option.filter_some, if_pos (decide_eq_true h)]

theorem within_of_not_mem {t : TypeRef} (h : t.core ∉ names) : within names (some t) = none := by
  rw [within, Option.filter_some, if_neg (by simpa using h)]

/-- A type that is known to be kept. -/
theorem within_eq_self {t : Option TypeRef} (h : ∀ u, t = some u → u.core ∈ names) :
    within names t = t := by
  cases t with
  | none => rfl
  | some u => exact within_of_mem (h u rfl)

/-- Changing nothing but the wrappers. -/
theorem within_map {f : TypeRef → TypeRef} (hf : ∀ t, (f t).core = t.core) (t : Option TypeRef) :
    (within names t).map f = within names (t.map f) := by
  cases t with
  | none => rfl
  | some t =>
    by_cases h : t.core ∈ names
    · rw [within_of_mem h, Option.map_some, within_of_mem ((hf t).symm ▸ h)]
    · rw [within_of_not_mem h, Option.map_some, within_of_not_mem ((hf t).symm ▸ h), Option.map_none]

theorem within_map_core (t : Option TypeRef) :
    (within names t).map (fun t ↦ TypeRef.ofName t.core)
      = within names (t.map fun t ↦ .ofName t.core) :=
  within_map (fun u ↦ TypeRef.core_ofName u.core) t

theorem Scope.keep_trim (p : TypeKind → Bool) (t : Option TypeRef) :
    Scope.keep (schema.trim names) p t = within names (Scope.keep schema p t) := by
  rw [Scope.keep, Scope.keep, within, Option.filter_filter]
  congr 1
  funext t
  by_cases h : t.core ∈ names
  · simp [Schema.hasKind, Schema.kind?_trim_of_mem h, h]
  · simp [Schema.hasKind, Schema.kind?_trim_of_not_mem h, h]

/-- It does not matter whether the type was within the names before. -/
theorem Scope.keep_trim_within (p : TypeKind → Bool) (t : Option TypeRef) :
    Scope.keep (schema.trim names) p (within names t) = within names (Scope.keep schema p t) := by
  cases t with
  | none => rfl
  | some t =>
    by_cases h : t.core ∈ names
    · rw [within_of_mem h, Scope.keep_trim]
    · rw [within_of_not_mem h, ← Scope.keep_trim, Scope.keep_none, Scope.keep_some,
        Schema.keepKind, Schema.hasKind, Schema.kind?_trim_of_not_mem h]
      rfl

theorem Schema.keepKind_trim (p : TypeKind → Bool) (t : TypeRef) :
    (schema.trim names).keepKind p t = within names (schema.keepKind p t) := by
  rw [← Scope.keep_some, Scope.keep_trim, Scope.keep_some]

theorem Schema.resolve?_trim (t : TypeRef) :
    (schema.trim names).resolve? t = within names (schema.resolve? t) := by
  rw [resolve?_eq_keepKind, keepKind_trim, resolve?_eq_keepKind]

/-! ## Possible types -/

/-- A trimmed schema that keeps the possible types of a kept type knows all of them. -/
theorem possibleTypes_trim (h : n ∈ names) (hpossible : ∀ m ∈ possibleTypes schema n, m ∈ names) :
    possibleTypes (schema.trim names) n = possibleTypes schema n := by
  rw [possibleTypes, Schema.type?_trim_of_mem h]
  rw [possibleTypes] at hpossible ⊢
  split
  · rfl
  · rename_i hbody
    simp only [hbody] at hpossible
    rw [Schema.trim, List.filter_filter]
    congr 1
    refine List.filter_congr fun t ht ↦ ?_
    by_cases hobject : t.isObjectWith n
    · have hname : t.name ∈ names :=
        hpossible _ (List.mem_map_of_mem (List.mem_filter.2 ⟨ht, hobject⟩))
      simp [hobject, hname]
    · simp [hobject]
  · rfl

end TypeFootprint
