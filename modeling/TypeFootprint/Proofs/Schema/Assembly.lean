import Mathlib.Data.List.Nodup
import TypeFootprint.Schema.Build

/-!
# Schemas of definitions without extensions

A text that defines types, directives and perhaps the schema, and extends nothing, becomes a schema
as soon as no name is defined twice: its types come behind those of every schema, its directives
before them.
-/

set_option autoImplicit false

namespace TypeFootprint

/-- Definitions in the order in which they are usually written: the schema, the directives, the
types. -/
def orderedDefinitions (roots : Option (List RootOperation)) (directives : List DirectiveDefinition)
    (types : List TypeDefinition) : List TypeSystemDefinition :=
  (roots.map (TypeSystemDefinition.schema none [])).toList ++
    (directives.map .directive ++ types.map .type)

namespace Schema

variable {roots : Option (List RootOperation)} {directives : List DirectiveDefinition}
  {types : List TypeDefinition}

theorem declaredDirectives_ordered :
    declaredDirectives (orderedDefinitions roots directives types) = directives := by
  cases roots <;> simp [declaredDirectives, orderedDefinitions, List.filterMap_map]

theorem schemaRoots_ordered :
    schemaRoots (orderedDefinitions roots directives types) = roots.toList := by
  cases roots <;> simp [schemaRoots, orderedDefinitions, List.filterMap_map]

theorem extensionRoots_ordered :
    extensionRoots (orderedDefinitions roots directives types) = [] := by
  cases roots <;> simp [extensionRoots, orderedDefinitions, List.filterMap_map]

/-! ## Types -/

/-- A type for which no extension waits is taken in as it is. -/
theorem define_of_isDistinct {ts : List TypeDefinition} {t : TypeDefinition}
    (h : t.body.isDistinct = true) :
    TypeDraft.define ⟨ts, []⟩ t = some ⟨ts ++ [t], []⟩ := by
  rw [TypeDraft.define, if_pos h]
  rfl

theorem foldlM_add_types (ts : List TypeDefinition)
    (h : ∀ t ∈ types, t.body.isDistinct = true) :
    (types.map TypeSystemDefinition.type).foldlM TypeDraft.add ⟨ts, []⟩ =
      some ⟨ts ++ types, []⟩ := by
  induction types generalizing ts with
  | nil => simp
  | cons t types ih =>
    rw [List.map_cons, List.foldlM_cons, TypeDraft.add, define_of_isDistinct (h t (.head _)),
      Option.bind_eq_bind, Option.bind_some, ih _ fun u hu ↦ h u (.tail _ hu), List.append_assoc,
      List.singleton_append]

theorem foldlM_add_directives (d : TypeDraft) :
    (directives.map TypeSystemDefinition.directive).foldlM TypeDraft.add d = some d := by
  induction directives with
  | nil => rfl
  | cons directive directives ih =>
    have hadd : d.add (.directive directive) = some d := rfl
    rw [List.map_cons, List.foldlM_cons, hadd, Option.bind_eq_bind, Option.bind_some, ih]

theorem foldlM_add_schema (d : TypeDraft) :
    (roots.map (TypeSystemDefinition.schema none [])).toList.foldlM TypeDraft.add d = some d := by
  cases roots <;> rfl

/-- The types come behind those of every schema. -/
theorem typesOf?_ordered (h : ∀ t ∈ types, t.body.isDistinct = true) :
    typesOf? (orderedDefinitions roots directives types) = some (BuiltIn.types ++ types) := by
  simp only [typesOf?, orderedDefinitions, List.foldlM_append, foldlM_add_schema,
    foldlM_add_directives, TypeDraft.initial, foldlM_add_types _ h, Option.bind_eq_bind,
    Option.bind_some, List.isEmpty_nil, if_true]

/-! ## Directives -/

/-- The directives come before those of every schema, if they define none of these anew. -/
theorem directivesOf?_ordered (hnodup : (directives.map DirectiveDefinition.name).Nodup)
    (hnew : ∀ d ∈ BuiltIn.directives, d.name ∉ directives.map DirectiveDefinition.name) :
    directivesOf? (orderedDefinitions roots directives types) =
      some (directives ++ BuiltIn.directives) := by
  have hfilter : BuiltIn.directives.filter (fun d ↦
      !(directives.map DirectiveDefinition.name).contains d.name) = BuiltIn.directives :=
    List.filter_eq_self.2 fun d hd ↦ by simpa using hnew d hd
  rw [directivesOf?, declaredDirectives_ordered, if_pos hnodup, hfilter]

/-! ## Roots -/

theorem rootsOf?_ordered_none (ts : List TypeDefinition) :
    rootsOf? (orderedDefinitions none directives types) ts = some (implicitRoots ts) := by
  rw [rootsOf?, extensionRoots_ordered, schemaRoots_ordered]
  rfl

theorem rootsOf?_ordered_some (ops : List RootOperation) (ts : List TypeDefinition) :
    rootsOf? (orderedDefinitions (some ops) directives types) ts = ops.foldlM addRoot .empty := by
  rw [rootsOf?, extensionRoots_ordered, schemaRoots_ordered]
  change (ops ++ []).foldlM addRoot .empty = _
  rw [List.append_nil]

theorem get?_set (roots : RootTypes) (kind kind' : OperationKind) (n : Name) :
    (roots.set kind n).get? kind' = if kind' = kind then some n else roots.get? kind' := by
  cases kind <;> cases kind' <;> rfl

/-- Roots of distinct kinds can all be set. -/
theorem exists_foldlM_addRoot {ops : List RootOperation} (h : (ops.map RootOperation.kind).Nodup)
    {roots : RootTypes} (hfree : ∀ op ∈ ops, roots.get? op.kind = none) :
    ∃ roots', ops.foldlM addRoot roots = some roots' := by
  induction ops generalizing roots with
  | nil => exact ⟨roots, rfl⟩
  | cons op ops ih =>
    rw [List.map_cons, List.nodup_cons] at h
    -- No root of this kind is set yet, and setting it leaves the other kinds as they are.
    have hadd : addRoot roots op = some (roots.set op.kind op.type) := by
      rw [addRoot, hfree op (.head _)]
    rw [List.foldlM_cons, hadd, Option.bind_eq_bind, Option.bind_some]
    refine ih h.2 fun op' hop' ↦ ?_
    have hne : op'.kind ≠ op.kind := fun heq ↦ h.1 (heq ▸ List.mem_map_of_mem hop')
    rw [get?_set, if_neg hne, hfree op' (.tail _ hop')]

theorem exists_rootsOf?_ordered
    (h : ∀ ops ∈ roots, (ops.map RootOperation.kind).Nodup) (ts : List TypeDefinition) :
    ∃ rs, rootsOf? (orderedDefinitions roots directives types) ts = some rs := by
  cases roots with
  | none => exact ⟨implicitRoots ts, rootsOf?_ordered_none ts⟩
  | some ops =>
    rw [rootsOf?_ordered_some]
    exact exists_foldlM_addRoot (h ops rfl) fun op _ ↦ by cases op.kind <;> rfl

/-- Definitions that define no name twice make a schema. -/
theorem exists_ofDefinitions?_ordered (hroots : ∀ ops ∈ roots, (ops.map RootOperation.kind).Nodup)
    (hdirectives : (directives.map DirectiveDefinition.name).Nodup)
    (hnewDirectives : ∀ d ∈ BuiltIn.directives, d.name ∉ directives.map DirectiveDefinition.name)
    (hdistinct : ∀ t ∈ types, t.body.isDistinct = true)
    (htypes : (types.map TypeDefinition.name).Nodup)
    (hnewTypes : ∀ t ∈ BuiltIn.types, t.name ∉ types.map TypeDefinition.name) :
    ∃ schema, ofDefinitions? (orderedDefinitions roots directives types) = some schema ∧
      schema.types = BuiltIn.types ++ types ∧
      schema.directives = directives ++ BuiltIn.directives := by
  obtain ⟨rs, hrs⟩ : ∃ rs, rootsOf? (orderedDefinitions roots directives types)
      (BuiltIn.types ++ types) = some rs := exists_rootsOf?_ordered hroots _
  have hnodup : ((BuiltIn.types ++ types).map TypeDefinition.name).Nodup := by
    rw [List.map_append]
    refine List.Nodup.append BuiltIn.types_nodup htypes fun n hbuiltIn hown ↦ ?_
    obtain ⟨t, ht, rfl⟩ := List.mem_map.1 hbuiltIn
    exact hnewTypes t ht hown
  refine ⟨⟨BuiltIn.types ++ types, directives ++ BuiltIn.directives, rs, hnodup⟩, ?_, rfl, rfl⟩
  simp only [ofDefinitions?, typesOf?_ordered hdistinct,
    directivesOf?_ordered hdirectives hnewDirectives, hrs, Option.bind_eq_bind, Option.bind_some,
    dif_pos hnodup]

/-! ## What a schema was made of -/

theorem eq_of_foldlM_add_types {ts : List TypeDefinition} {d : TypeDraft}
    (h : (types.map TypeSystemDefinition.type).foldlM TypeDraft.add ⟨ts, []⟩ = some d) :
    d = ⟨ts ++ types, []⟩ := by
  induction types generalizing ts with
  | nil => simpa using h.symm
  | cons t types ih =>
    rw [List.map_cons, List.foldlM_cons, TypeDraft.add] at h
    by_cases ht : t.body.isDistinct = true
    · rw [define_of_isDistinct ht, Option.bind_eq_bind, Option.bind_some] at h
      rw [ih h, List.append_assoc, List.singleton_append]
    · rw [TypeDraft.define, if_neg ht] at h
      cases h

theorem eq_of_typesOf?_ordered {ts : List TypeDefinition}
    (h : typesOf? (orderedDefinitions roots directives types) = some ts) :
    ts = BuiltIn.types ++ types := by
  simp only [typesOf?, orderedDefinitions, List.foldlM_append, foldlM_add_schema,
    foldlM_add_directives, TypeDraft.initial, Option.bind_eq_bind, Option.bind_some,
    Option.bind_eq_some_iff] at h
  obtain ⟨d, hd, h⟩ := h
  obtain rfl := eq_of_foldlM_add_types hd
  exact (Option.some.inj h).symm

/-- The roots that have been set are those that were there and those that were given. -/
theorem get?_of_foldlM_addRoot {ops : List RootOperation} {roots roots' : RootTypes}
    (h : ops.foldlM addRoot roots = some roots') (kind : OperationKind) (n : Name) :
    roots'.get? kind = some n ↔ roots.get? kind = some n ∨ ⟨kind, n⟩ ∈ ops := by
  induction ops generalizing roots with
  | nil =>
    obtain rfl : roots = roots' := by simpa using h
    simp
  | cons op ops ih =>
    obtain ⟨opKind, type⟩ := op
    rw [List.foldlM_cons, addRoot] at h
    cases hfree : roots.get? opKind with
    | some m =>
      rw [hfree] at h
      cases h
    | none =>
      rw [hfree, Option.bind_eq_bind, Option.bind_some] at h
      rw [ih h, get?_set, List.mem_cons, RootOperation.mk.injEq, ← or_assoc]
      refine or_congr_left ?_
      by_cases hkind : kind = opKind
      · subst hkind
        simp [hfree, eq_comm]
      · simp [hkind]

/-- A schema of definitions without extensions has their types and directives behind and before
those of every schema. -/
theorem of_ofDefinitions?_ordered {schema : Schema}
    (h : ofDefinitions? (orderedDefinitions roots directives types) = some schema)
    (hnew : ∀ d ∈ BuiltIn.directives, d.name ∉ directives.map DirectiveDefinition.name) :
    schema.types = BuiltIn.types ++ types ∧ schema.directives = directives ++ BuiltIn.directives ∧
      rootsOf? (orderedDefinitions roots directives types) schema.types = some schema.roots := by
  simp only [ofDefinitions?, Option.bind_eq_bind, Option.bind_eq_some_iff] at h
  obtain ⟨ts, hts, ds, hds, rs, hrs, h⟩ := h
  split at h
  · next hnodup =>
    obtain rfl := Option.some.inj h
    refine ⟨eq_of_typesOf?_ordered hts, ?_, hrs⟩
    rw [directivesOf?, declaredDirectives_ordered] at hds
    split at hds
    · obtain rfl := Option.some.inj hds
      rw [List.filter_eq_self.2 fun d hd ↦ by simpa using hnew d hd]
    · cases hds
  · cases h

end Schema
end TypeFootprint
