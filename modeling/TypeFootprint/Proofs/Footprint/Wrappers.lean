import TypeFootprint.Proofs.Footprint.Listing
import TypeFootprint.Proofs.Inference.SameCores

/-!
# Wrappers do not matter

Lists and exclamation marks change what a walk records: references are kept with their wrappers,
`null` keeps those of its type and other literals drop them.  They do not change the names that come
out in the end.  This file compares the footprints of two documents in two schemas that are the same
unwrapped.

What is recorded at corresponding places are references with the same cores, in the same order.  So
the cores of all that is recorded agree as lists, although repetitions are left out at different
points.

* `Place.call_sameCores` — corresponding places record the same cores;
* `callsOf_sameCores` — hence so do the consultations, one by one;
* `resolveTypeNames_eq_of_unwrapped_eq` — and the names are the same, in the same order.
-/

set_option autoImplicit false

namespace TypeFootprint

variable {schema schema' : Schema} {fragments : Fragments} {p p' : Place}

/-! ## Corresponding answers -/

/-- The same number of types is recorded, with the same cores in the same order, and the parts are
passed over in both cases or in none. -/
structure Recorded.SameCores (r r' : Recorded) : Prop where
  types : r.types.map TypeRef.core = r'.types.map TypeRef.core
  skipChildren : r.skipChildren = r'.skipChildren

namespace Recorded

variable {r r' : Recorded} {types types' : List (Option TypeRef)}

theorem map_core_known (types : List (Option TypeRef)) :
    (known types).types.map TypeRef.core = (types.map (Option.map TypeRef.core)).filterMap id := by
  rw [known, List.map_filterMap, List.filterMap_map]
  rfl

theorem sameCores_known
    (h : types.map (Option.map TypeRef.core) = types'.map (Option.map TypeRef.core)) :
    (known types).SameCores (known types') :=
  ⟨by rw [map_core_known, h, map_core_known], rfl⟩

theorem SameCores.and (h : r.SameCores r') {types types' : List TypeRef}
    (htypes : types.map TypeRef.core = types'.map TypeRef.core) :
    (r.and types).SameCores (r'.and types') := by
  refine ⟨?_, h.skipChildren⟩
  rw [Recorded.and, Recorded.and, List.map_append, List.map_append, h.types, htypes]

theorem SameCores.skipping (h : r.SameCores r') : r.skipping.SameCores r'.skipping :=
  ⟨h.types, rfl⟩

end Recorded

section

variable (hschema : schema.unwrapped = schema'.unwrapped)
include hschema

theorem Fragments.type?_congr (n : Name) :
    fragments.type? schema n = fragments.type? schema' n := by
  rw [type?, type?]
  cases fragments.find? n with
  | none => rfl
  | some f => exact Schema.keepKind_ofName_congr hschema _ _

theorem Schema.resolve?_congr {t t' : TypeRef} (h : t.core = t'.core) :
    (schema.resolve? t).map TypeRef.core = (schema'.resolve? t').map TypeRef.core := by
  rw [resolve?_eq_keepKind, resolve?_eq_keepKind, ← Scope.keep_some, ← Scope.keep_some]
  exact Scope.map_core_keep_congr hschema _ (congrArg some h)

theorem Schema.inputFieldTypes_congr (n : Name) :
    (schema.inputFieldTypes n).map TypeRef.core = (schema'.inputFieldTypes n).map TypeRef.core := by
  have hcores (schema : Schema) : (schema.inputFieldTypes n).map TypeRef.core
      = (((schema.inputObject? n).map (List.map InputValue.unwrapped)).getD []).map
          fun v ↦ v.type.core := by
    rw [inputFieldTypes]
    cases schema.inputObject? n with
    | none => rfl
    | some fields =>
      simp only [Option.map_some, Option.getD_some, List.map_map]
      rfl
  rw [hcores, inputObject?_congr hschema, hcores]

/-- An input object is one in both schemas or in none. -/
theorem Schema.inputObject?_eq_none_congr (n : Name) :
    schema.inputObject? n = none ↔ schema'.inputObject? n = none := by
  have h := inputObject?_congr hschema n
  rw [← Option.map_eq_none_iff, h, Option.map_eq_none_iff]

theorem collectSelection_sameCores {p p' : Position} (h : p.SameCores p') (x : Selection) :
    (collectSelection schema fragments p x).SameCores
      (collectSelection schema' fragments p' x) := by
  cases x with
  | field responseName n arguments directives selections =>
    refine Recorded.sameCores_known ?_
    simp only [List.map_cons, h.output, h.parentOutput]
  | spread n directives =>
    refine Recorded.sameCores_known ?_
    simp only [List.map_cons, Fragments.type?_congr hschema, h.parentOutput]
  | inline condition directives selections =>
    have hcondition : (condition.bind schema.resolveName?).map TypeRef.core
        = (condition.bind schema'.resolveName?).map TypeRef.core := by
      cases condition with
      | none => rfl
      | some n => exact Schema.resolve?_congr hschema rfl
    refine Recorded.sameCores_known ?_
    simp only [List.map_cons, hcondition, h.parentOutput, h.output]

/-- `null` keeps the wrappers of its type and other literals drop some of them, but no literal
changes the core. -/
theorem collectValue_sameCores {p p' : Position} (h : p.SameCores p') (v : Value) :
    (collectValue schema p v).SameCores (collectValue schema' p' v) := by
  have hscalar : (Recorded.known [inputCore p]).SameCores (.known [inputCore p']) := by
    have hcore (p : Position) : (inputCore p).map TypeRef.core = p.input.map TypeRef.core := by
      rw [inputCore, Option.map_map]
      rfl
    refine Recorded.sameCores_known ?_
    simp only [List.map_cons, hcore, h.input]
  cases v with
  | var n => exact ⟨rfl, rfl⟩
  | null =>
    refine Recorded.sameCores_known ?_
    rw [List.map_singleton, h.input, List.map_singleton]
  | list items =>
    have hnullable : TypeRef.core ∘ TypeRef.nullable = TypeRef.core :=
      funext TypeRef.core_nullable
    refine Recorded.sameCores_known ?_
    rw [List.map_singleton, Option.map_map, hnullable, h.parentInput, List.map_singleton,
      Option.map_map, hnullable]
  | object fields =>
    have hinput := h.input
    rw [collectValue, collectValue]
    cases hp : p.input with
    | none =>
      rw [hp, Option.map_none, eq_comm, Option.map_eq_none_iff] at hinput
      simp only [hinput]
      exact ⟨rfl, rfl⟩
    | some t =>
      rw [hp, Option.map_some, eq_comm, Option.map_eq_some_iff] at hinput
      obtain ⟨t', hp', hcore⟩ := hinput
      simp only [hp', hcore]
      have hnone := Schema.inputObject?_eq_none_congr hschema t.core
      cases hobject : schema.inputObject? t.core with
      | none =>
        rw [hnone.1 hobject]
        exact ⟨rfl, rfl⟩
      | some declared =>
        cases hobject' : schema'.inputObject? t.core with
        | none => rw [hnone.2 hobject'] at hobject; cases hobject
        | some declared' =>
          exact Recorded.SameCores.and ⟨rfl, rfl⟩ (Schema.inputFieldTypes_congr hschema t.core)
  | _ => exact hscalar

theorem collectObjectField_sameCores {p p' : Position} (h : p.SameCores p') :
    (collectObjectField schema p).SameCores (collectObjectField schema' p') := by
  have hinput : p.input.toList.map TypeRef.core = p'.input.toList.map TypeRef.core := by
    have hlist (t : Option TypeRef) : t.toList.map TypeRef.core = (t.map TypeRef.core).toList := by
      cases t <;> rfl
    rw [hlist, h.input, hlist]
  have hparent := h.parentInput
  rw [collectObjectField, collectObjectField]
  cases hp : p.parentInput with
  | none =>
    rw [hp, Option.map_none, eq_comm, Option.map_eq_none_iff] at hparent
    simp only [hparent]
    exact Recorded.SameCores.and ⟨rfl, rfl⟩ hinput
  | some t =>
    rw [hp, Option.map_some, eq_comm, Option.map_eq_some_iff] at hparent
    obtain ⟨t', hp', hcore⟩ := hparent
    simp only [hp', hcore]
    refine Recorded.SameCores.and (Recorded.SameCores.and ⟨rfl, rfl⟩ ?_) hinput
    exact Schema.inputFieldTypes_congr hschema t.core

/-- **Corresponding places record the same cores.** -/
theorem Place.call_sameCores (h : p.SameCores p') :
    (p.call (collectRules schema fragments)).recorded.SameCores
      (p'.call (collectRules schema' fragments)).recorded := by
  obtain ⟨node, s⟩ := p
  obtain ⟨node', s'⟩ := p'
  obtain ⟨hnode, hscope⟩ := h
  have hposition : s.position.SameCores s'.position := hscope.position
  have hvariable {v v' : VariableDefinition} (hv : v.type.core = v'.type.core) :
      (Recorded.known [schema.resolve? v.type, s.position.input]).SameCores
        (.known [schema'.resolve? v'.type, s'.position.input]) := by
    refine Recorded.sameCores_known ?_
    simp only [List.map_cons, Schema.resolve?_congr hschema hv, hposition.input]
  have howner : (outputAndOwner s.position).SameCores (outputAndOwner s'.position) := by
    refine Recorded.sameCores_known ?_
    simp only [List.map_cons, hposition.output, hposition.parentOutput]
  cases hnode with
  | operation hop => exact ⟨rfl, rfl⟩
  | variableDefinition hv => exact hvariable (congrArg (fun v ↦ v.type.core) hv)
  | refl =>
    cases node with
    | operation op => exact ⟨rfl, rfl⟩
    | variableDefinition v => exact hvariable rfl
    | fragmentDefinition f =>
      refine Recorded.sameCores_known ?_
      rw [List.map_singleton, List.map_singleton]
      exact congrArg (· :: []) (Schema.resolve?_congr hschema rfl)
    | selection x => exact collectSelection_sameCores hschema hposition x
    | argument a => exact howner
    | directive d => exact ⟨rfl, rfl⟩
    | value v => exact collectValue_sameCores hschema hposition v
    | objectField n v => exact collectObjectField_sameCores hschema hposition

/-! ## Corresponding runs -/

/-- **The consultations correspond one by one.** -/
theorem callsOf_sameCores (h : p.SameCores p') :
    List.Forall₂ (fun c c' ↦ c.recorded.SameCores c'.recorded)
      (callsOf schema (collectRules schema fragments) p)
      (callsOf schema' (collectRules schema' fragments) p') := by
  induction p using Place.parts_induction schema generalizing p' with
  | step p ih =>
    have hcall : (p.call (collectRules schema fragments)).recorded.SameCores
        (p'.call (collectRules schema' fragments)).recorded := Place.call_sameCores hschema h
    have hskips : p'.skips (collectRules schema' fragments)
        = p.skips (collectRules schema fragments) := hcall.skipChildren.symm
    rw [callsOf_eq, callsOf_eq schema', hskips]
    refine .cons hcall ?_
    split
    · exact .nil
    · have hparts : List.Forall₂ (fun q q' ↦ q ∈ p.parts schema ∧ q.SameCores q')
          (p.parts schema) (p'.parts schema') :=
        (List.forall₂_and_left _ _).2 ⟨fun _ hq ↦ hq, Place.parts_sameCores hschema h⟩
      exact List.rel_flatMap hparts fun q q' hq ↦ ih q hq.1 hq.2

theorem callsOfDocument_sameCores (fragments : Fragments) {document document' : Document}
    (hdocument : document.unwrapped = document'.unwrapped) :
    List.Forall₂ (fun c c' ↦ c.recorded.SameCores c'.recorded)
      (callsOfDocument schema (collectRules schema fragments) document)
      (callsOfDocument schema' (collectRules schema' fragments) document') := by
  have hplace {d d' : Definition} (hd : d.unwrapped = d'.unwrapped) :
      List.Forall₂ Place.SameCores (Place.ofDefinition? schema d).toList
        (Place.ofDefinition? schema' d').toList := by
    cases d with
    | operation op =>
      cases d' with
      | operation op' =>
        have hop : op.unwrapped = op'.unwrapped := Definition.operation.inj hd
        have hkind : op.kind = op'.kind := by
          have hkind := congrArg Operation.kind hop
          exact hkind
        have hscope : (Scope.outside.ofOperation schema op.kind).SameCores
            (Scope.outside.ofOperation schema' op'.kind) := by
          rw [hkind]
          exact (Scope.SameCores.refl _).ofOperation hschema _
        exact .cons ⟨.operation hop, hscope⟩ .nil
      | fragment f' => cases hd
      | typeSystem d' => cases hd
    | fragment f =>
      cases d' with
      | operation op' => cases hd
      | fragment f' =>
        cases hd
        exact .cons ⟨.refl _, (Scope.SameCores.refl _).ofFragment hschema _⟩ .nil
      | typeSystem d' => cases hd
    | typeSystem d =>
      cases d' with
      | operation op' => cases hd
      | fragment f' => cases hd
      | typeSystem d' => exact .nil
  rw [callsOfDocument, callsOfDocument, List.filterMap_eq_flatMap_toList,
    List.filterMap_eq_flatMap_toList, List.flatMap_assoc, List.flatMap_assoc]
  refine List.rel_flatMap (forall₂_of_map_eq_map hdocument) fun d d' hd ↦ ?_
  exact List.rel_flatMap (hplace hd) fun q q' hq ↦ callsOf_sameCores hschema hq

end

/-- What calls record, in order, has the same cores in order. -/
theorem map_core_flatMap_types {calls calls' : List Call}
    (h : List.Forall₂ (fun c c' ↦ c.recorded.SameCores c'.recorded) calls calls') :
    (calls.flatMap fun c ↦ c.recorded.types).map TypeRef.core
      = (calls'.flatMap fun c ↦ c.recorded.types).map TypeRef.core := by
  induction h with
  | nil => rfl
  | cons hc _ ih =>
    rw [List.flatMap_cons, List.map_append, hc.types, ih, List.flatMap_cons, List.map_append]

/-- **Wrappers do not matter.**  Let two schemas differ in nothing but the lists and the exclamation
marks of the types they declare, for fields, arguments, input fields and the arguments of
directives, and let two documents differ in nothing but those of the types of their variables.  Then
they need the same names, in the same order, under every policy. -/
theorem resolveTypeNames_eq_of_unwrapped_eq {schema schema' : Schema}
    {document document' : Document} (hschema : schema.unwrapped = schema'.unwrapped)
    (hdocument : document.unwrapped = document'.unwrapped) (policy : Policy) :
    resolveTypeNames schema document policy = resolveTypeNames schema' document' policy := by
  have hfragments : Fragments.ofDocument document = .ofDocument document' := by
    rw [Fragments.ofDocument, ← document.fragments_unwrapped, hdocument,
      document'.fragments_unwrapped, Fragments.ofDocument]
  have hcalls := callsOfDocument_sameCores hschema (.ofDocument document') hdocument
  have hlisted (cores : List Name) : listedNames schema policy cores
      = listedNames schema' policy cores := by
    rw [listedNames, possibleTypes_congr hschema, listedNames]
  refine OrderedSet.ext_toList ?_
  rw [resolveTypeNames, resolveTypeNames, toList_canonicalize_expand, toList_canonicalize_expand,
    collect_eq, collect_eq, recordedTypes, recordedTypes, listedNames_ofList, listedNames_ofList,
    hfragments, map_core_flatMap_types hcalls, hlisted]

/-- A schema for a search by tags.  What is declared for tags, filters and posts is up to `wrap`. -/
def tagSchema (wrap : Name → TypeRef) : Schema where
  types := BuiltIn.types ++
    [BuiltIn.objectType (BuiltIn.named "Journal")
      [⟨none, BuiltIn.named "posts",
        [BuiltIn.argument (BuiltIn.named "matching") (wrap (BuiltIn.named "TagFilter"))],
        wrap (BuiltIn.named "Post"), []⟩],
     ⟨none, BuiltIn.named "TagFilter", [], .inputObject
      [BuiltIn.argument (BuiltIn.named "all") (wrap .string),
       BuiltIn.argument (BuiltIn.named "none") (wrap .string)]⟩,
     BuiltIn.objectType (BuiltIn.named "Post")
      [BuiltIn.plainField (BuiltIn.named "tags") (wrap .string)]]
  directives := BuiltIn.directives
  roots := ⟨some (BuiltIn.named "Journal"), none, none⟩
  types_nodup := by
    show (BuiltIn.types.map TypeDefinition.name ++
      [BuiltIn.named "Journal", BuiltIn.named "TagFilter", BuiltIn.named "Post"]).Nodup
    decide

/-- A search with list literals and `null`, by a variable whose type is up to `wrap` as well. -/
def postsByTag (wrap : Name → TypeRef) : Document :=
  [.operation ⟨.query, none, [⟨BuiltIn.named "tag", wrap .string, some .null, []⟩], [],
    [.field none (BuiltIn.named "posts")
      [⟨BuiltIn.named "matching", .list [.object
        [(BuiltIn.named "all", .list [.string "lean", .var (BuiltIn.named "tag")]),
         (BuiltIn.named "none", .null)]]⟩]
      [] [.field none (BuiltIn.named "tags") [] [] []]]⟩]

/-- Lists of required items, and no wrappers at all. -/
theorem resolveTypeNames_eq_of_unwrapped_eq_postsByTag :
    (tagSchema fun n ↦ .list (.named n true) true).unwrapped
      = (tagSchema TypeRef.ofName).unwrapped ∧
    (postsByTag fun n ↦ .list (.named n true) true).unwrapped
      = (postsByTag TypeRef.ofName).unwrapped ∧
    resolveTypeNames (tagSchema fun n ↦ .list (.named n true) true)
        (postsByTag fun n ↦ .list (.named n true) true) .standard
      = resolveTypeNames (tagSchema TypeRef.ofName) (postsByTag TypeRef.ofName) .standard := by
  have hschema : (tagSchema fun n ↦ .list (.named n true) true).unwrapped
      = (tagSchema TypeRef.ofName).unwrapped := rfl
  have hdocument : (postsByTag fun n ↦ .list (.named n true) true).unwrapped
      = (postsByTag TypeRef.ofName).unwrapped := rfl
  exact ⟨hschema, hdocument, resolveTypeNames_eq_of_unwrapped_eq hschema hdocument .standard⟩

/-- What is collected is not the same: the wrappers tell references apart. -/
example : (collect (tagSchema fun n ↦ .list (.named n true) true)
      (postsByTag fun n ↦ .list (.named n true) true)).size ≠
    (collect (tagSchema TypeRef.ofName) (postsByTag TypeRef.ofName)).size := by
  decide

end TypeFootprint
