import TypeFootprint.CommandLine.Program
import TypeFootprint.Proofs.Footprint.Members
import TypeFootprint.Schema.Build

/-!
# Which names are canonical

A canonical name is a text of ASCII letters and underscores that is not empty.  The names of types
are reduced to this form, so whatever a document contributes to the output is canonical.  The names
that a policy forces are taken as they are: they come from the command line and from the
configuration, and of the two only the configuration is checked, for blank names.

* `canonical_of_canonicalText?` — reduced texts are canonical;
* `mem_forced_buildPolicy` — where forced names come from;
* `canonical_resolveTypeNames_iff` — the output is canonical exactly if the forced names are.
-/

set_option autoImplicit false

namespace TypeFootprint

/-- A text of ASCII letters and underscores, and at least one of them. -/
def IsCanonicalName (n : String) : Prop := n ≠ "" ∧ ∀ c ∈ n.toList, isCanonicalChar c = true

instance (n : String) : Decidable (IsCanonicalName n) :=
  decidable_of_iff (n ≠ "" ∧ n.toList.all isCanonicalChar = true) (by simp [IsCanonicalName])

variable {schema : Schema} {document : Document} {policy : Policy} {a : Arguments} {c : Config}
  {n : String}

/-! ## Names of types -/

theorem canonical_of_canonicalText? {text : String} (h : canonicalText? text = some n) :
    IsCanonicalName n := by
  rw [canonicalText?] at h
  split at h
  · cases h
  · next hne =>
    obtain rfl := Option.some.inj h
    refine ⟨fun hempty ↦ hne ?_, fun c hc ↦ ?_⟩
    · rw [← String.toList_ofList (l := text.toList.filter isCanonicalChar), hempty,
        String.toList_empty]
    · rw [String.toList_ofList] at hc
      exact (List.mem_filter.1 hc).2

/-- What a document contributes is canonical, so all other names are forced. -/
theorem canonical_of_not_forced (hn : n ∈ resolveTypeNames schema document policy)
    (hforced : n ∉ policy.forced) : IsCanonicalName n := by
  obtain ⟨⟨u, -, hu | ⟨m, -, hm⟩⟩, -⟩ := (mem_resolveTypeNames.1 hn).resolve_right hforced
  · exact canonical_of_canonicalText? hu
  · exact canonical_of_canonicalText? hm

/-! ## Forced names -/

theorem mem_forced_foldl_force (names : List String) (p : Policy) :
    n ∈ (names.foldl Policy.force p).forced ↔ n ∈ p.forced ∨ n ∈ names := by
  induction names generalizing p with
  | nil => simp
  | cons m names ih => rw [List.foldl_cons, ih, Policy.force, OrderedSet.mem_insert, or_assoc,
      List.mem_cons]

theorem forced_foldl_deny (names : List String) (p : Policy) :
    (names.foldl Policy.deny p).forced = p.forced := by
  induction names generalizing p with
  | nil => rfl
  | cons m names ih => rw [List.foldl_cons, ih, Policy.deny]

/-- The names that are forced before the command line adds any. -/
def baseForced (a : Arguments) (c : Config) : List String :=
  match c.policy with
  | some p => p.forcedInclude
  | none => if a.noDefaultPolicy then [] else Policy.standard.forced.toList

/-- **A name is forced by the command line, or by the configuration or the standard policy.** -/
theorem mem_forced_buildPolicy :
    n ∈ (buildPolicy a c).forced ↔ n ∈ baseForced a c ∨ n ∈ a.includes := by
  rw [buildPolicy, mem_forced_foldl_force, forced_foldl_deny, baseForced]
  refine or_congr_left ?_
  cases c.policy with
  | some p => exact OrderedSet.mem_ofList
  | none => cases a.noDefaultPolicy <;> rfl

/-- The standard policy forces canonical names only. -/
theorem canonical_or_of_mem_baseForced (h : n ∈ baseForced a c) :
    IsCanonicalName n ∨ ∃ p, c.policy = some p ∧ n ∈ p.forcedInclude := by
  rw [baseForced] at h
  cases hpolicy : c.policy with
  | some p => exact .inr ⟨p, rfl, by simpa only [hpolicy] using h⟩
  | none =>
    have hstandard : ∀ n ∈ Policy.standard.forced.toList, IsCanonicalName n := by decide
    simp only [hpolicy] at h
    split at h
    · cases h
    · exact .inl (hstandard n h)

theorem mem_baseForced {p : PolicyConfig} (hpolicy : c.policy = some p)
    (h : n ∈ p.forcedInclude) : n ∈ baseForced a c := by
  rwa [baseForced, hpolicy]

/-- A configuration that is accepted forces no blank name, the empty one among them. -/
theorem empty_not_mem_baseForced (h : c.validate = .ok c) : "" ∉ baseForced a c := by
  rw [baseForced]
  cases hpolicy : c.policy with
  | none => cases a.noDefaultPolicy <;> decide
  | some p =>
    intro hempty
    have hblank : c.policyNames.any (fun n ↦ Text.isBlank n.toList) = true := by
      rw [Config.policyNames, hpolicy]
      exact List.any_eq_true.2 ⟨"", List.mem_append_right _ hempty, rfl⟩
    rw [Config.validate, Config.fault?, if_pos hblank] at h
    cases h

/-! ## The output -/

/-- **The output is canonical exactly if the forced names are.**  Whatever the schema, the document,
the command line and the configuration are, all names of the output are canonical if and only if the
names that the command line includes and those that the configuration forces are canonical, and any
other name is one of these.  If the configuration has been accepted, the empty name is in the output
just if the command line includes it. -/
theorem canonical_resolveTypeNames_iff (schema : Schema) (document : Document) (a : Arguments)
    (c : Config) :
    ((∀ n ∈ resolveTypeNames schema document (buildPolicy a c), IsCanonicalName n) ↔
      (∀ n ∈ a.includes, IsCanonicalName n) ∧
        ∀ p, c.policy = some p → ∀ n ∈ p.forcedInclude, IsCanonicalName n) ∧
    (∀ n ∈ resolveTypeNames schema document (buildPolicy a c), ¬ IsCanonicalName n →
      n ∈ a.includes ∨ ∃ p, c.policy = some p ∧ n ∈ p.forcedInclude) ∧
    (c.validate = .ok c →
      ("" ∈ resolveTypeNames schema document (buildPolicy a c) ↔ "" ∈ a.includes)) := by
  have hforced (n : String) (hn : n ∈ baseForced a c ∨ n ∈ a.includes) :
      n ∈ resolveTypeNames schema document (buildPolicy a c) :=
    mem_resolveTypeNames.2 (.inr (mem_forced_buildPolicy.2 hn))
  have hsource : ∀ n ∈ resolveTypeNames schema document (buildPolicy a c), ¬ IsCanonicalName n →
      n ∈ baseForced a c ∨ n ∈ a.includes := by
    intro n hn hnot
    by_contra hother
    exact hnot (canonical_of_not_forced hn (mt mem_forced_buildPolicy.1 hother))
  have hsources : ∀ n ∈ resolveTypeNames schema document (buildPolicy a c), ¬ IsCanonicalName n →
      n ∈ a.includes ∨ ∃ p, c.policy = some p ∧ n ∈ p.forcedInclude := by
    intro n hn hnot
    rcases hsource n hn hnot with hbase | hincluded
    · exact .inr ((canonical_or_of_mem_baseForced hbase).resolve_left hnot)
    · exact .inl hincluded
  refine ⟨⟨fun hall ↦ ⟨fun n hn ↦ ?_, fun p hp n hn ↦ ?_⟩, fun ⟨hincluded, hconfig⟩ n hn ↦ ?_⟩,
    hsources, fun hvalid ↦ ⟨fun hempty ↦ ?_, fun hempty ↦ hforced "" (.inr hempty)⟩⟩
  · exact hall n (hforced n (.inr hn))
  · exact hall n (hforced n (.inl (mem_baseForced hp hn)))
  · by_contra hnot
    rcases hsources n hn hnot with hmem | ⟨p, hp, hmem⟩
    · exact hnot (hincluded n hmem)
    · exact hnot (hconfig p hp n hmem)
  · have hnot : ¬ IsCanonicalName "" := fun h ↦ h.1 rfl
    exact (hsource "" hempty hnot).resolve_left (empty_not_mem_baseForced hvalid)

/-- A configuration with a policy of its own. -/
def extraConfig : Config := ⟨some ⟨["Query"], ["Extra"]⟩, none⟩

/-- The configuration is accepted, and the command line includes a name with a digit: not all names
are canonical, but none is empty. -/
theorem canonical_resolveTypeNames_iff_extra :
    extraConfig.validate = .ok extraConfig ∧
      "" ∉ resolveTypeNames ⟨BuiltIn.types, BuiltIn.directives, .empty, BuiltIn.types_nodup⟩ []
        (buildPolicy { Arguments.empty with includes := ["Address2"] } extraConfig) := by
  have hvalid : extraConfig.validate = .ok extraConfig := by decide
  have hiff := canonical_resolveTypeNames_iff
    ⟨BuiltIn.types, BuiltIn.directives, .empty, BuiltIn.types_nodup⟩ []
    { Arguments.empty with includes := ["Address2"] } extraConfig
  refine ⟨hvalid, fun hempty ↦ ?_⟩
  have hincluded : "" ∈ ["Address2"] := (hiff.2.2 hvalid).1 hempty
  exact absurd hincluded (by decide)

/-- The command line may include the empty name, and then it is in the output. -/
theorem exists_name_not_canonical :
    ∃ a c schema document,
      Arguments.parse ["--include", "", "s.graphql", "d.graphql"] = .ok a ∧
      Config.parse "" ".graphql-types.yml" = .ok c ∧
      Schema.parse? "type Query { a: Int }" = some schema ∧
      Document.parse? "{ a }" = some document ∧
      ∃ n ∈ resolveTypeNames schema document (buildPolicy a c), ¬ IsCanonicalName n := by
  have h : ((Schema.parse? "type Query { a: Int }").any fun schema ↦
      (Document.parse? "{ a }").any fun document ↦
        decide ("" ∈ resolveTypeNames schema document (buildPolicy
          { Arguments.empty with
            includes := [""], schema := some "s.graphql", documents := some "d.graphql" }
          .empty))) = true := by
    decide +kernel
  obtain ⟨schema, hschema, h⟩ := (Option.any_eq_true _ _).1 h
  obtain ⟨document, hdocument, h⟩ := (Option.any_eq_true _ _).1 h
  refine ⟨_, .empty, schema, document, by decide +kernel, by decide +kernel, hschema, hdocument, "",
    of_decide_eq_true h, fun hcanonical ↦ hcanonical.1 rfl⟩

end TypeFootprint
