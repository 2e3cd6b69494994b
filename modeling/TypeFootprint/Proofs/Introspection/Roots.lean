import TypeFootprint.Proofs.Introspection.Acceptance

/-!
# What becomes of root types

The writer leaves the schema definition out where every root type that is given has its usual name,
and without one the reader makes roots of the object types with the usual names.  Root types that
are given are kept on both ways.  One that is not given is absent if there is a schema definition;
if there is none, an object type that happens to have the usual name takes its place
(`get?_roots_of_parse?_sdl`).

All of this is about answers whose copied texts are what they stand for.  A text that is not can
write a root type of its own (`exists_root_not_given`).
-/

set_option autoImplicit false

namespace TypeFootprint

/-- The name that the root type of a kind of operation has without a schema definition. -/
def OperationKind.usualName : OperationKind → String
  | query => "Query"
  | mutation => "Mutation"
  | subscription => "Subscription"

namespace Introspection

/-- The root type of a kind of operation, if one is given. -/
def Result.root? (r : Result) : OperationKind → Option String
  | .query => r.queryType
  | .mutation => r.mutationType
  | .subscription => r.subscriptionType

/-- Whether an object type with this name has to be defined. -/
def Result.hasObject (r : Result) (name : String) : Bool :=
  r.ownTypes.any fun t ↦ t.name = name && t.body.kind = .object

section

variable {r : Result}

theorem mem_givenRoots {kind : OperationKind} {name : String} :
    (kind, name) ∈ r.givenRoots ↔ r.root? kind = some name := by
  rw [Result.givenRoots]
  cases kind <;> cases hq : r.queryType <;> cases hm : r.mutationType <;>
    cases hs : r.subscriptionType <;> simp [Result.root?, hq, hm, hs, eq_comm]

theorem hasRenamedRoot_eq (r : Result) :
    r.hasRenamedRoot = r.givenRoots.any fun root ↦ root.2 != root.1.usualName := by
  rw [Result.hasRenamedRoot, Result.roots, Result.givenRoots]
  cases r.queryType <;> cases r.mutationType <;> cases r.subscriptionType <;>
    simp [OperationKind.usualName]

/-- Without a schema definition, root types that are given have their usual names. -/
theorem eq_usualName {kind : OperationKind} {name : String} (h : r.hasRenamedRoot = false)
    (hroot : r.root? kind = some name) : name = kind.usualName := by
  rw [hasRenamedRoot_eq, List.any_eq_false] at h
  simpa using h (kind, name) (mem_givenRoots.2 hroot)

/-- The name of an object type that may be a root type without a schema definition. -/
def usualRoot (kind : OperationKind) : Name := ⟨kind.usualName, by cases kind <;> decide⟩

theorem get?_implicitRoots (types : List TypeDefinition) (kind : OperationKind) :
    (Schema.implicitRoots types).get? kind = Schema.objectNamed? types (usualRoot kind) := by
  cases kind <;> rfl

/-- The types that every schema has are none that may be a root type. -/
theorem name_ne_usualRoot (kind : OperationKind) :
    ∀ w ∈ BuiltIn.types, w.name ≠ usualRoot kind := by
  cases kind <;> decide

/-- Whether this is the outline of an object type with this name. -/
def isObjectOutline (name : String) (o : TypeOutline) : Bool :=
  o.label.name = name && o.kind = .object

/-- An object type is read with the name that it was written with. -/
theorem any_isObject_of_map_outline {ws : List TypeDefinition}
    (h : ws.map TypeDefinition.outline = r.outline.written.types) (n : Name) :
    (ws.any fun w ↦ w.name = n && w.kind = .object) = r.hasObject n.text := by
  have hws : (ws.any fun w ↦ w.name = n && w.kind = .object) =
      (ws.map TypeDefinition.outline).any (isObjectOutline n.text) := by
    rw [List.any_map]
    congr 1
    funext w
    have hname : w.name = n ↔ w.name.text = n.text := ⟨congrArg Name.text, Name.ext_text⟩
    change (w.name = n && w.kind = .object : Bool) =
      (w.name.text = n.text && w.kind = .object : Bool)
    rw [decide_eq_decide.2 hname]
  rw [hws, h, types_written_outline, List.any_map]
  rfl

theorem objectNamed?_of_map_outline {ws : List TypeDefinition}
    (h : ws.map TypeDefinition.outline = r.outline.written.types) (kind : OperationKind) :
    Schema.objectNamed? (BuiltIn.types ++ ws) (usualRoot kind) =
      if r.hasObject kind.usualName then some (usualRoot kind) else none := by
  have hbuiltIn : (BuiltIn.types.any fun w ↦ w.name = usualRoot kind && w.kind = .object) =
      false := by
    rw [List.any_eq_false]
    intro w hw
    simp [name_ne_usualRoot kind w hw]
  rw [Schema.objectNamed?, List.any_append, hbuiltIn, any_isObject_of_map_outline h,
    Bool.false_or]
  rfl

end

/-- **Root types after writing and reading.** -/
theorem get?_roots_of_parse?_sdl {r : Result} (h : r.Lexical)
    (hroots : ∀ kind, ∀ name ∈ r.root? kind, r.hasObject name = true) {schema : Schema}
    (hs : Schema.parse? r.sdl = some schema) (kind : OperationKind) :
    (∀ name ∈ r.root? kind, (schema.roots.get? kind).map Name.text = some name) ∧
    (r.root? kind = none → (schema.roots.get? kind).map Name.text =
      if !r.hasRenamedRoot && r.hasObject kind.usualName then some kind.usualName else none) := by
  have haccepted := acceptedAs_of_parse?_sdl h hs
  cases hrenamed : r.hasRenamedRoot with
  | true =>
    -- The schema definition lists the roots that are given.
    have hget (n : Name) : schema.roots.get? kind = some n ↔ r.root? kind = some n.text :=
      (haccepted.givenRoots hrenamed kind n).trans mem_givenRoots
    refine ⟨fun name hname ↦ ?_, fun hnone ↦ ?_⟩
    · have hn : isName name.toList = true := h.roots _ (mem_givenRoots.2 hname)
      rw [(hget ⟨name, hn⟩).2 hname, Option.map_some]
    · have hget : schema.roots.get? kind = none := by
        refine Option.eq_none_iff_forall_ne_some.2 fun n hn ↦ ?_
        rw [hnone] at hget
        cases (hget n).1 hn
      rw [hget]
      rfl
  | false =>
    obtain ⟨ws, htypes, hws⟩ := haccepted.types
    have hget : schema.roots.get? kind =
        if r.hasObject kind.usualName then some (usualRoot kind) else none := by
      rw [haccepted.usualRoots hrenamed, get?_implicitRoots, htypes,
        objectNamed?_of_map_outline hws]
    rw [hget]
    refine ⟨fun name hname ↦ ?_, fun _ ↦ ?_⟩
    · obtain rfl := eq_usualName hrenamed hname
      rw [if_pos (hroots kind _ hname)]
      rfl
    · rw [Bool.not_false, Bool.true_and]
      cases r.hasObject kind.usualName <;> rfl

/-- A shop whose query type has a name of its own, with a type that is called as mutation types
usually are. -/
def shop : Result :=
  ⟨some "Shop", none, none,
    [⟨"Shop", none, .object [⟨"open", none, [], .plain .scalar (some "Boolean"), false, none⟩] []⟩,
      ⟨"Mutation", none,
        .object [⟨"genes", none, [], .plain .scalar (some "Int"), false, none⟩] []⟩], []⟩

theorem get?_roots_of_parse?_sdl_shop :
    shop.Lexical ∧ (∀ kind, ∀ name ∈ shop.root? kind, shop.hasObject name = true) ∧
      ∃ schema, Schema.parse? shop.sdl = some schema ∧ ∀ kind,
        (∀ name ∈ shop.root? kind, (schema.roots.get? kind).map Name.text = some name) ∧
        (shop.root? kind = none → (schema.roots.get? kind).map Name.text =
          if !shop.hasRenamedRoot && shop.hasObject kind.usualName then some kind.usualName
          else none) := by
  have hwell : shop.WellFormed maxDepth := by decide +kernel
  have hroots : ∀ kind, ∀ name ∈ shop.root? kind, shop.hasObject name = true := by
    intro kind
    cases kind <;> decide +kernel
  have hsome : (Schema.parse? shop.sdl).isSome = true := by
    rw [Result.sdl, parse?_ofList]
    decide +kernel
  obtain ⟨schema, hs⟩ := Option.isSome_iff_exists.1 hsome
  exact ⟨hwell.lexical, hroots, schema, hs, get?_roots_of_parse?_sdl hwell.lexical hroots hs⟩

/-- An answer with a query type that has one field, of this name and with these arguments. -/
def oneField (name : String) (arguments : List InputEntry) (others : List TypeEntry) : Result :=
  ⟨some "Query", none, none,
    ⟨"Query", none, .object
      [⟨name, none, arguments, .plain .scalar (some "Int"), false, none⟩] []⟩ :: others, []⟩

/-- Answers without a mutation type that are written so that there is one: an object type has the
usual name; a name writes it; a default value that is no constant writes it; a constant leaves a
comment open, and a part of another one does. -/
def unwantedMutations : List Result :=
  [oneField "a" [] [⟨"Mutation", none, .object
      [⟨"a", none, [], .plain .scalar (some "Int"), false, none⟩] []⟩],
    oneField "a: Int \x7d type Mutation \x7b b" [] [],
    oneField "a" [⟨"b", none, .plain .scalar (some "Int"),
      some "1): Int \x7d type Mutation \x7b c(d: Int = 1"⟩] [],
    oneField "a" [⟨"b", none, .plain .scalar (some "Int"), some "1 #"⟩,
      ⟨"c", none, .plain .scalar (some "String"),
        some "\"\"\"\n): Int \x7d type Mutation \x7b d: Int #\"\"\""⟩] []]

/-- Whether the root types that are given may be what they are, no mutation type is given, and yet
the schema is accepted and has one. -/
def Result.GainsMutation (r : Result) : Prop :=
  (∀ kind, ∀ name ∈ r.root? kind, r.hasObject name = true) ∧ r.root? .mutation = none ∧
    ∃ schema, Schema.parse? r.sdl = some schema ∧ schema.roots.get? .mutation ≠ none

/-- Root types that are not given need not stay absent. -/
theorem exists_root_not_given : unwantedMutations.Forall Result.GainsMutation := by
  have hroots : ∀ r ∈ unwantedMutations, ∀ kind ∈ [OperationKind.query, .mutation, .subscription],
      ∀ name ∈ r.root? kind, r.hasObject name = true := by decide +kernel
  have hnone : ∀ r ∈ unwantedMutations, r.root? .mutation = none := by decide +kernel
  have hsome : ∀ r ∈ unwantedMutations, ((Schema.parse? r.sdl).any fun schema ↦
      (schema.roots.get? .mutation).isSome) = true := by
    simp only [Result.sdl, parse?_ofList]
    decide +kernel
  refine List.forall_iff_forall_mem.2 fun r hr ↦ ?_
  obtain ⟨schema, hs, hmutation⟩ := (Option.any_eq_true _ _).1 (hsome r hr)
  refine ⟨fun kind ↦ hroots r hr kind (by cases kind <;> simp), hnone r hr, schema, hs, ?_⟩
  exact Option.isSome_iff_ne_none.1 hmutation

end Introspection
end TypeFootprint
