import TypeFootprint.Proofs.Footprint.Listing
import TypeFootprint.Schema.Build

/-!
# Expanding twice

`expand` looks at the types of the given set once, and not at those that it adds.  One pass is
enough where the possible types of a type are concrete.  Those of an interface always are, because
only object types implement it.  But a union stands for whatever names it lists, and a schema may be
read in which such a name is that of an interface or of another union: then the possible types of
this member are missing after the first pass.

* `IsExpanded` — every type of a set has its possible types in the set;
* `expand_eq_self_iff` — expanding such a set changes nothing, and expanding any other one does;
* `isExpanded_expand_iff` — after one pass, only members of unions may lack possible types;
* `expand_again_iff` — hence the exact condition under which one pass is enough.
-/

set_option autoImplicit false

namespace TypeFootprint

/-- Every type of the set has its possible types in the set. -/
def IsExpanded (schema : Schema) (types : OrderedSet TypeRef) : Prop :=
  ∀ t ∈ types, ∀ n ∈ possibleTypes schema t.core, .ofName n ∈ types

/-- The members of a union; nothing for any other type. -/
def Schema.members (schema : Schema) (n : Name) : List Name :=
  match (schema.type? n).map TypeDefinition.body with
  | some (.union members) => members
  | _ => []

/-- Every union lists the possible types of its members as well. -/
def Schema.UnionsClosed (schema : Schema) : Prop :=
  ∀ n, ∀ m ∈ schema.members n, ∀ k ∈ possibleTypes schema m, k ∈ schema.members n

variable {schema : Schema} {types : OrderedSet TypeRef} {m n : Name}

/-! ## Possible types of possible types -/

/-- An object type that implements an interface stands for itself only. -/
theorem possibleTypes_of_isObjectWith {d : TypeDefinition} (hd : d ∈ schema.types)
    (h : d.isObjectWith n = true) : possibleTypes schema d.name = [] := by
  rw [possibleTypes, Schema.type?_of_mem hd, Option.map_some]
  cases hbody : d.body with
  | object interfaces fields => rfl
  | _ => simp [TypeDefinition.isObjectWith, hbody] at h

/-- What a type stands for is a member of it, if it is a union, or else concrete. -/
theorem mem_members_or_concrete (hm : m ∈ possibleTypes schema n) :
    m ∈ schema.members n ∨ possibleTypes schema m = [] := by
  rw [possibleTypes] at hm
  cases hbody : (schema.type? n).map TypeDefinition.body with
  | none => simp [hbody] at hm
  | some body =>
    cases body with
    | union members =>
      left
      rw [Schema.members, hbody]
      simpa [hbody] using hm
    | interface interfaces fields =>
      right
      rw [hbody] at hm
      obtain ⟨d, hd, rfl⟩ := List.mem_map.1 hm
      obtain ⟨hd, hobject⟩ := List.mem_filter.1 hd
      exact possibleTypes_of_isObjectWith hd hobject
    | _ => simp [hbody] at hm

theorem possibleTypes_of_mem_members (hm : m ∈ schema.members n) :
    possibleTypes schema n = schema.members n := by
  rw [Schema.members] at hm ⊢
  rw [possibleTypes]
  cases hbody : (schema.type? n).map TypeDefinition.body with
  | none => simp [hbody] at hm
  | some body =>
    cases body with
    | union members => rfl
    | _ => simp [hbody] at hm

/-- Where no member of a union is abstract, nothing is missing. -/
theorem unionsClosed_of_concrete
    (h : ∀ n, ∀ m ∈ schema.members n, schema.hasKind TypeKind.isAbstract m = false) :
    schema.UnionsClosed := by
  intro n m hm k hk
  rw [possibleTypes_of_not_abstract (h n m hm)] at hk
  cases hk

/-! ## One pass and another -/

theorem expand_eq_self_iff : expand schema types = types ↔ IsExpanded schema types := by
  constructor
  · intro h t ht n hn
    rw [← h]
    exact mem_expand.2 (.inr ⟨t, ht, n, hn, rfl⟩)
  · intro h
    refine OrderedSet.insertMany_of_subset fun u hu ↦ ?_
    obtain ⟨t, ht, hu⟩ := List.mem_flatMap.1 hu
    obtain ⟨n, hn, rfl⟩ := List.mem_map.1 hu
    exact h t ht n hn

/-- After one pass, the possible types that may be missing are those of the members of unions. -/
theorem isExpanded_expand_iff :
    IsExpanded schema (expand schema types) ↔
      ∀ t ∈ types, ∀ m ∈ schema.members t.core, ∀ n ∈ possibleTypes schema m,
        .ofName n ∈ expand schema types := by
  constructor
  · intro h t ht m hm n hn
    have hpossible : m ∈ possibleTypes schema t.core := by rwa [possibleTypes_of_mem_members hm]
    exact h (.ofName m) (mem_expand.2 (.inr ⟨t, ht, m, hpossible, rfl⟩)) n hn
  · intro h u hu n hn
    rcases mem_expand.1 hu with hu | ⟨t, ht, m, hm, rfl⟩
    · exact mem_expand.2 (.inr ⟨u, hu, n, hn, rfl⟩)
    · rw [TypeRef.core_ofName] at hn
      rcases mem_members_or_concrete hm with hmember | hconcrete
      · exact h t ht m hmember n hn
      · rw [hconcrete] at hn
        cases hn

/-- For all sets to be expanded after one pass, the unions have to be closed: the set may name a
union with a `!` behind it, and then the pass adds the members of the union and nothing else. -/
theorem isExpanded_expand_all_iff :
    (∀ types, IsExpanded schema (expand schema types)) ↔ schema.UnionsClosed := by
  constructor
  · intro h n m hm k hk
    have hexpanded := isExpanded_expand_iff.1 (h (.ofList [.named n true])) (.named n true)
      (by simp) m hm k hk
    rcases mem_expand.1 hexpanded with hk | ⟨t, ht, m', hm', hk⟩
    · simp [TypeRef.ofName] at hk
    · obtain rfl : t = .named n true := by simpa using ht
      obtain rfl : m' = k := by simpa using congrArg TypeRef.core hk
      rwa [← possibleTypes_of_mem_members hm]
  · intro h types
    refine isExpanded_expand_iff.2 fun t ht m hm n hn ↦ ?_
    have hpossible : n ∈ possibleTypes schema t.core := by
      rw [possibleTypes_of_mem_members hm]
      exact h t.core m hm n hn
    exact mem_expand.2 (.inr ⟨t, ht, n, hpossible, rfl⟩)

/-- **When one pass is enough.**  A second pass over a set changes nothing exactly if after the
first one every type has its possible types in the set, and that is so exactly if those of the
members of its unions are there; the possible types of interfaces lack nothing.  One pass is enough
for all sets of types just if every union lists the possible types of its members as well. -/
theorem expand_again_iff (schema : Schema) :
    (∀ types, (expand schema (expand schema types) = expand schema types ↔
        IsExpanded schema (expand schema types)) ∧
      (IsExpanded schema (expand schema types) ↔
        ∀ t ∈ types, ∀ m ∈ schema.members t.core, ∀ n ∈ possibleTypes schema m,
          .ofName n ∈ expand schema types)) ∧
    ((∀ types, expand schema (expand schema types) = expand schema types) ↔
      schema.UnionsClosed) := by
  refine ⟨fun types ↦ ⟨expand_eq_self_iff, isExpanded_expand_iff⟩, ?_⟩
  rw [← isExpanded_expand_all_iff]
  exact forall_congr' fun types ↦ expand_eq_self_iff

/-- One pass is enough in a schema whose unions have object types for members only, or names that are
not defined. -/
theorem expand_expand_of_concrete
    (h : ∀ n, ∀ m ∈ schema.members n, schema.hasKind TypeKind.isAbstract m = false)
    (types : OrderedSet TypeRef) : expand schema (expand schema types) = expand schema types :=
  expand_eq_self_iff.2 (isExpanded_expand_all_iff.2 (unionsClosed_of_concrete h) types)

/-- The set that has the type `U` and no other. -/
def justU : OrderedSet TypeRef := .ofList [.ofName (BuiltIn.named "U")]

/-- A schema may be read in which a union has an interface for a member, and then one pass is not
enough: the second one finds `A`. -/
theorem exists_expand_again_ne :
    ∃ schema,
      Schema.parse? "interface I { a: Int } type A implements I { a: Int } union U = I"
        = some schema ∧
      (expand schema justU).toList.map TypeRef.render = ["U", "I"] ∧
      (expand schema (expand schema justU)).toList.map TypeRef.render = ["U", "I", "A"] ∧
      expand schema (expand schema justU) ≠ expand schema justU := by
  have h : ((Schema.parse? "interface I { a: Int } type A implements I { a: Int } union U = I").any
      fun schema ↦
        (expand schema justU).toList.map TypeRef.render = ["U", "I"] &&
        (expand schema (expand schema justU)).toList.map TypeRef.render = ["U", "I", "A"])
      = true := by
    decide +kernel
  obtain ⟨schema, hschema, h⟩ := (Option.any_eq_true _ _).1 h
  rw [Bool.and_eq_true, decide_eq_true_eq, decide_eq_true_eq] at h
  refine ⟨schema, hschema, h.1, h.2, fun hsame ↦ ?_⟩
  rw [hsame, h.1] at h
  exact absurd h.2 (by decide)

end TypeFootprint
