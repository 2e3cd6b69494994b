import TypeFootprint.Proofs.Footprint.Trimming
import TypeFootprint.Proofs.OrderedSet

/-!
# The list of names that a document needs

The names are found in three passes, each of which leaves out what it has met before: the types are
collected, the possible types of each are added behind them, and all of them are reduced to the
letters of their names.  The passes compare different things — whole references, references again,
reduced names — but repetitions left out early would have been left out at the end anyway.  So the
result can be written down without the passes.

* `canonicalName?_eq` — the canonical name of a reference is the reduced name of its core, and there
  always is one;
* `toList_canonicalize_expand` — what expanding, naming and a policy make of a set of types;
* `resolveTypeNames_listing` — the list for a document, and what it has and has not.
-/

set_option autoImplicit false

namespace TypeFootprint

variable {schema : Schema} {document : Document} {policy : Policy}

/-! ## Reduced names -/

/-- The ASCII letters and underscores of a name. -/
def Name.reduced (n : Name) : String := String.ofList (n.toList.filter isCanonicalChar)

/-- What a name starts with is kept. -/
theorem Name.filter_ne_nil (n : Name) : n.toList.filter isCanonicalChar ≠ [] := by
  have hvalid := n.valid
  rw [Name.toList]
  cases hchars : n.text.toList with
  | nil =>
    rw [hchars] at hvalid
    cases hvalid
  | cons c cs =>
    rw [hchars, isName, Bool.and_eq_true] at hvalid
    have hc : isCanonicalChar c = true := hvalid.1
    rw [List.filter_cons_of_pos hc]
    exact List.cons_ne_nil _ _

theorem Name.reduced_ne_empty (n : Name) : n.reduced ≠ "" := by
  intro h
  refine n.filter_ne_nil ?_
  rw [← String.toList_ofList (l := n.toList.filter isCanonicalChar)]
  exact (congrArg String.toList h).trans String.toList_empty

theorem TypeRef.filter_mark (required : Bool) : (mark required).filter isCanonicalChar = [] := by
  cases required <;> decide

/-- Brackets and exclamation marks go, and nothing else does. -/
theorem TypeRef.filter_chars (t : TypeRef) :
    t.chars.filter isCanonicalChar = t.core.toList.filter isCanonicalChar := by
  induction t with
  | named n required =>
    rw [chars, List.filter_append, filter_mark, List.append_nil, core]
  | list item required ih =>
    have hopen : isCanonicalChar '[' = false := by decide
    have hclose : isCanonicalChar ']' = false := by decide
    rw [chars, List.filter_cons_of_neg (by simp [hopen]), List.filter_append,
      List.filter_cons_of_neg (by simp [hclose]), filter_mark, List.append_nil, ih, core]

theorem canonicalName?_eq (t : TypeRef) : t.canonicalName? = some t.core.reduced := by
  rw [TypeRef.canonicalName?, canonicalText?, TypeRef.render, String.toList_ofList,
    TypeRef.filter_chars, Name.reduced]
  split
  · next h => exact absurd h t.core.filter_ne_nil
  · rfl

/-! ## Possible types -/

/-- A union stands for its members, in the order in which it declares them. -/
theorem possibleTypes_of_union {d : TypeDefinition} (hd : d ∈ schema.types) {members : List Name}
    (hbody : d.body = .union members) : possibleTypes schema d.name = members := by
  rw [possibleTypes, Schema.type?_of_mem hd, Option.map_some, hbody]

/-- An interface stands for the object types that declare it, in the order of the schema. -/
theorem possibleTypes_of_interface {d : TypeDefinition} (hd : d ∈ schema.types)
    (hkind : d.kind = .interface) :
    possibleTypes schema d.name
      = (schema.types.filter fun t ↦ t.isObjectWith d.name).map TypeDefinition.name := by
  rw [possibleTypes, Schema.type?_of_mem hd, Option.map_some]
  cases hbody : d.body with
  | interface interfaces fields => rfl
  | _ => simp [TypeDefinition.kind, TypeBody.kind, hbody] at hkind

/-- All other types stand for themselves only. -/
theorem possibleTypes_of_not_abstract {n : Name}
    (h : schema.hasKind TypeKind.isAbstract n = false) : possibleTypes schema n = [] := by
  rw [possibleTypes]
  cases htype : schema.type? n with
  | none => rfl
  | some d =>
    have hkind : d.body.kind.isAbstract = false := by
      rwa [Schema.hasKind, Schema.kind?, htype] at h
    cases hbody : d.body with
    | interface interfaces fields => simp [hbody, TypeBody.kind, TypeKind.isAbstract] at hkind
    | union members => simp [hbody, TypeBody.kind, TypeKind.isAbstract] at hkind
    | _ => simp [hbody]

/-! ## The passes as one -/

/-- The names that these types need before any is forced: their own, and behind them those of their
possible types, reduced, without repetitions, without those that are denied. -/
def listedNames (schema : Schema) (policy : Policy) (cores : List Name) : List String :=
  ((cores ++ cores.flatMap (possibleTypes schema)).map Name.reduced).eraseDups.filter
    fun n ↦ decide (n ∉ policy.denied)

/-- What a policy keeps comes first, and behind it what it forces in addition. -/
theorem Policy.toList_apply (names : OrderedSet String) :
    (policy.apply names).toList
      = names.toList.filter (fun n ↦ decide (n ∉ policy.denied)) ++ policy.forced.toList.filter
          fun n ↦ decide (n ∉ names.toList.filter fun n ↦ decide (n ∉ policy.denied)) := by
  rw [apply, OrderedSet.toList_insertMany, eraseDups_eq_self policy.forced.nodup,
    OrderedSet.toList_filter]
  rfl

/-- Naming the types of an expanded set is naming the types and all that they stand for. -/
theorem ofList_canonicalNames_expand (types : OrderedSet TypeRef) :
    OrderedSet.ofList ((expand schema types).toList.filterMap TypeRef.canonicalName?)
      = .ofList ((types.toList.map TypeRef.core ++
          (types.toList.map TypeRef.core).flatMap (possibleTypes schema)).map Name.reduced) := by
  have hname : ∀ l : List TypeRef,
      l.filterMap TypeRef.canonicalName? = l.map fun t ↦ t.core.reduced := by
    intro l
    rw [List.filterMap_congr fun t _ ↦ canonicalName?_eq t, List.filterMap_eq_map']
  have hexpand : expand schema types = .ofList (types.toList ++
      types.toList.flatMap fun t ↦ (possibleTypes schema t.core).map .ofName) := by
    rw [OrderedSet.ofList_append, OrderedSet.ofList_toList, expand]
  rw [hexpand, hname, OrderedSet.ofList_map_toList]
  simp [List.map_flatMap, List.flatMap_map, Function.comp_def]

theorem toList_canonicalize_expand (types : OrderedSet TypeRef) :
    (canonicalize policy (expand schema types)).toList
      = listedNames schema policy (types.toList.map TypeRef.core) ++
          policy.forced.toList.filter fun n ↦
            decide (n ∉ listedNames schema policy (types.toList.map TypeRef.core)) := by
  have hlisted : (OrderedSet.ofList ((expand schema types).toList.filterMap
      TypeRef.canonicalName?)).toList.filter (fun n ↦ decide (n ∉ policy.denied))
        = listedNames schema policy (types.toList.map TypeRef.core) := by
    rw [ofList_canonicalNames_expand, OrderedSet.toList_ofList, listedNames]
  rw [canonicalize, Policy.toList_apply, hlisted]

/-- Names that are found again are not listed again, so it does not matter how often a type was
recorded. -/
theorem listedNames_ofList (types : List TypeRef) :
    listedNames schema policy ((OrderedSet.ofList types).toList.map TypeRef.core)
      = listedNames schema policy (types.map TypeRef.core) := by
  have hcores : ∀ cores : List Name,
      ((cores ++ cores.flatMap (possibleTypes schema)).map Name.reduced).eraseDups
        = ((OrderedSet.ofList (cores.map Name.reduced)).insertMany
            (cores.flatMap fun n ↦ (possibleTypes schema n).map Name.reduced)).toList := by
    intro cores
    rw [← OrderedSet.ofList_append, OrderedSet.toList_ofList, List.map_append, List.map_flatMap]
  rw [listedNames, listedNames, hcores, hcores, List.map_map, List.flatMap_map, List.map_map,
    List.flatMap_map, OrderedSet.ofList_map_toList, OrderedSet.insertMany_flatMap_toList]

/-! ## The list -/

/-- **The names that a document needs, in order.**  First come the names of what it touches, as they
are first recorded; then, type by type, those of the object types behind a union or an interface;
each of them reduced, once, and only if it is not denied.  The forced names that are not among them
come last, in the order of the policy.  So no name stands there twice; every type that is touched
has a name there, with those of its possible types, unless the policy denies it; what is denied is
not there unless it is forced, and what is forced always is. -/
theorem resolveTypeNames_listing (schema : Schema) (document : Document) (policy : Policy) :
    ((resolveTypeNames schema document policy).toList
      = listedNames schema policy ((collect schema document).toList.map TypeRef.core) ++
          policy.forced.toList.filter fun n ↦
            decide (n ∉ listedNames schema policy
              ((collect schema document).toList.map TypeRef.core))) ∧
    (∀ d ∈ schema.types, ∀ members, d.body = .union members →
      possibleTypes schema d.name = members) ∧
    (∀ d ∈ schema.types, d.kind = .interface →
      possibleTypes schema d.name
        = (schema.types.filter fun t ↦ t.isObjectWith d.name).map TypeDefinition.name) ∧
    (∀ n, schema.hasKind TypeKind.isAbstract n = false → possibleTypes schema n = []) ∧
    (resolveTypeNames schema document policy).toList.Nodup ∧
    (∀ t ∈ collect schema document, t.core.reduced ≠ "" ∧
      ∀ n ∈ t.core :: possibleTypes schema t.core, n.reduced ∉ policy.denied →
        n.reduced ∈ resolveTypeNames schema document policy) ∧
    (∀ n ∈ policy.denied, n ∉ policy.forced → n ∉ resolveTypeNames schema document policy) ∧
    (∀ n ∈ policy.forced, n ∈ resolveTypeNames schema document policy) := by
  refine ⟨toList_canonicalize_expand _, fun d hd members ↦ possibleTypes_of_union hd,
    fun d hd ↦ possibleTypes_of_interface hd, fun n ↦ possibleTypes_of_not_abstract,
    (resolveTypeNames schema document policy).nodup,
    fun t ht ↦ ⟨t.core.reduced_ne_empty, ?_⟩, ?_, ?_⟩
  · intro n hn hdenied
    refine mem_resolveTypeNames.2 (.inl ⟨⟨t, ht, ?_⟩, hdenied⟩)
    rcases List.mem_cons.1 hn with rfl | hn
    · exact .inl (canonicalName?_eq t)
    · exact .inr ⟨n, hn, canonicalName?_eq (.ofName n)⟩
  · intro n hdenied hforced h
    rcases mem_resolveTypeNames.1 h with ⟨-, hnot⟩ | hmem
    · exact hnot hdenied
    · exact hforced hmem
  · intro n hforced
    exact mem_resolveTypeNames.2 (.inr hforced)

/-- A policy that denies the text scalar and forces two names, one of them that of a user. -/
def forcedUser : Policy := ⟨.ofList ["String"], .ofList ["User", "Extra"]⟩

/-- A user is a node, so it is listed behind the collected types already when it is forced. -/
theorem resolveTypeNames_listing_findById :
    (resolveTypeNames filterSchema findById forcedUser).toList
      = ["Node", "Search", "IdFilter", "Filter", "User"] ++ ["Extra"] ∧
    "User" ∈ resolveTypeNames filterSchema findById forcedUser := by
  obtain ⟨hlist, -, -, -, -, htouched, -, -⟩ :=
    resolveTypeNames_listing filterSchema findById forcedUser
  have hnode : TypeRef.ofName (BuiltIn.named "Node") ∈ collect filterSchema findById := by decide
  have huser : BuiltIn.named "User" ∈ possibleTypes filterSchema (BuiltIn.named "Node") := by decide
  exact ⟨hlist.trans (by decide +kernel),
    (htouched _ hnode).2 _ (List.mem_cons_of_mem _ huser) (by decide +kernel)⟩

end TypeFootprint
