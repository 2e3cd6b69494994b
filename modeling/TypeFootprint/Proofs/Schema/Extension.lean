import TypeFootprint.Proofs.Schema.Trim

/-!
# Schemas that extend others

A schema extends another one if it has all types of it with the same definitions, the same
directives, and the roots that are set there.  It may define further types and set further roots.

Whatever is found in a schema is found in every schema that extends it.  `Below` says this of a
single look-up: it finds the same in both, or nothing in the smaller one.

* `Schema.Extends.type?_below` and its companions — one look-up after the other;
* `Scope.keep_below` — for the types at a place of a document;
* `possibleTypes_subset` — an interface may gain object types, and nothing loses any;
* `Schema.extends_trim` — every schema extends what it is trimmed to.
-/

set_option autoImplicit false

namespace TypeFootprint

/-- What is known on the left is known on the right, and is the same there. -/
def Below {α : Type} (o o' : Option α) : Prop := ∀ a, o = some a → o' = some a

namespace Below

variable {α β : Type} {o o' : Option α}

theorem refl (o : Option α) : Below o o := fun _ h ↦ h

theorem none_left (o : Option α) : Below none o := fun _ h ↦ by cases h

theorem bind {f f' : α → Option β} (h : Below o o') (hf : ∀ a, Below (f a) (f' a)) :
    Below (o.bind f) (o'.bind f') := by
  intro b hb
  obtain ⟨a, ha, hb⟩ := Option.bind_eq_some_iff.1 hb
  rw [h a ha, Option.bind_some]
  exact hf a b hb

theorem map (h : Below o o') (f : α → β) : Below (o.map f) (o'.map f) := by
  intro b hb
  obtain ⟨a, ha, rfl⟩ := Option.map_eq_some_iff.1 hb
  rw [h a ha, Option.map_some]

theorem toList_subset (h : Below o o') : o.toList ⊆ o'.toList := fun a ha ↦
  Option.mem_toList.2 (h a (Option.mem_toList.1 ha))

end Below

/-- The right schema has the types and the directives of the left one, with the same definitions,
and the roots that are set in the left one. -/
structure Schema.Extends (schema schema' : Schema) : Prop where
  types : ∀ d ∈ schema.types, d ∈ schema'.types
  directives : ∀ n, schema.directive? n = schema'.directive? n
  roots : ∀ kind, Below (schema.roots.get? kind) (schema'.roots.get? kind)

theorem Schema.Extends.refl (schema : Schema) : schema.Extends schema :=
  ⟨fun _ h ↦ h, fun _ ↦ rfl, fun _ ↦ .refl _⟩

variable {schema schema' : Schema}

/-! ## Look-ups -/

namespace Schema.Extends

variable (h : schema.Extends schema')
include h

theorem type?_below (n : Name) : Below (schema.type? n) (schema'.type? n) := by
  intro d hd
  obtain rfl : d.name = n := by simpa using List.find?_some hd
  exact type?_of_mem (h.types d (List.mem_of_find?_eq_some hd))

theorem kind?_below (n : Name) : Below (schema.kind? n) (schema'.kind? n) := (h.type?_below n).map _

theorem hasKind_of_hasKind {p : TypeKind → Bool} {n : Name} (hkind : schema.hasKind p n = true) :
    schema'.hasKind p n = true := by
  obtain ⟨k, hk, hp⟩ := hasKind_iff.1 hkind
  exact hasKind_iff.2 ⟨k, h.kind?_below n k hk, hp⟩

theorem inputObject?_eq_of_type? {n : Name} {d : TypeDefinition} (hd : schema.type? n = some d) :
    schema'.inputObject? n = schema.inputObject? n := by
  rw [inputObject?, h.type?_below n d hd, inputObject?, hd]

theorem inputObject?_below (n : Name) : Below (schema.inputObject? n) (schema'.inputObject? n) := by
  intro fields hfields
  cases hd : schema.type? n with
  | none => simp [inputObject?, hd] at hfields
  | some d => rwa [h.inputObject?_eq_of_type? hd]

theorem inputFieldTypes_subset (n : Name) :
    schema.inputFieldTypes n ⊆ schema'.inputFieldTypes n := by
  intro t ht
  cases hfields : schema.inputObject? n with
  | none => simp [inputFieldTypes, hfields] at ht
  | some fields =>
    rw [inputFieldTypes, hfields] at ht
    rwa [inputFieldTypes, h.inputObject?_below n fields hfields]

/-- A type that becomes the root of queries gets two more meta fields, behind the others. -/
theorem metaFields_prefix (d : TypeDefinition) :
    schema.metaFields d <+: schema'.metaFields d := by
  rw [metaFields, metaFields, List.prefix_append_right_inj]
  by_cases hroot : schema.roots.query = some d.name
  · have hroot' : schema'.roots.query = some d.name := h.roots .query _ hroot
    simp only [if_pos hroot, if_pos hroot', List.prefix_rfl]
  · rw [if_neg hroot]
    exact List.nil_prefix

theorem field?_below (n field : Name) : Below (schema.field? n field) (schema'.field? n field) := by
  refine (h.type?_below n).bind fun d f hf ↦ ?_
  have hprefix : d.body.outputFields ++ schema.metaFields d
      <+: d.body.outputFields ++ schema'.metaFields d :=
    (List.prefix_append_right_inj _).2 (h.metaFields_prefix d)
  obtain ⟨further, hfurther⟩ := hprefix
  rw [← hfurther, List.find?_append, hf, Option.some_or]

theorem resolve?_below (t : TypeRef) : Below (schema.resolve? t) (schema'.resolve? t) :=
  (h.kind?_below t.core).map _

end Schema.Extends

/-! ## Types at a place -/

/-- A type that is kept in a schema is kept in every schema that extends it. -/
theorem Scope.keep_below (h : schema.Extends schema') (p : TypeKind → Bool) {t t' : Option TypeRef}
    (ht : Below t t') : Below (Scope.keep schema p t) (Scope.keep schema' p t') := by
  intro u hu
  obtain ⟨hu, hkind⟩ := Option.filter_eq_some_iff.1 hu
  exact Option.filter_eq_some_iff.2 ⟨ht u hu, h.hasKind_of_hasKind hkind⟩

/-! ## Possible types -/

theorem possibleTypes_subset (h : schema.Extends schema') (n : Name) :
    possibleTypes schema n ⊆ possibleTypes schema' n := by
  intro m hm
  cases hd : schema.type? n with
  | none => simp [possibleTypes, hd] at hm
  | some d =>
    rw [possibleTypes, hd, Option.map_some] at hm
    rw [possibleTypes, h.type?_below n d hd, Option.map_some]
    cases hbody : d.body with
    | union members => simpa only [hbody] using hm
    | interface interfaces fields =>
      simp only [hbody] at hm ⊢
      obtain ⟨t, ht, rfl⟩ := List.mem_map.1 hm
      obtain ⟨hmem, hobject⟩ := List.mem_filter.1 ht
      exact List.mem_map_of_mem (List.mem_filter.2 ⟨h.types t hmem, hobject⟩)
    | _ => simp [hbody] at hm

/-! ## Trimming -/

theorem Schema.extends_trim (schema : Schema) (names : List Name) :
    (schema.trim names).Extends schema where
  types _ hd := (List.mem_filter.1 hd).1
  directives _ := rfl
  roots _ := .refl _

end TypeFootprint
