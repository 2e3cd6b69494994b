import TypeFootprint.Config.File
import TypeFootprint.Loading
import TypeFootprint.Proofs.Files.Paths
import TypeFootprint.Proofs.Footprint.Idempotence

/-!
# What the entries of a configuration can match

A configuration is refused if one of its entries is blank, because such an entry can never match
anything.  Entries that are not blank may be as useless: a denied name is compared with canonical
names, and an extension with what stands behind the last dot of a path.  So the entries of a
configuration that can match are those of the right characters (`entries_match_iff`), and not all
entries that are accepted are among them.
-/

set_option autoImplicit false

namespace TypeFootprint

/-! ## Denied names -/

/-- The canonical names of type references are all canonical names. -/
theorem exists_canonicalName?_iff {n : String} :
    (∃ t : TypeRef, t.canonicalName? = some n) ↔ IsCanonicalName n := by
  refine ⟨fun ⟨_, ht⟩ ↦ canonical_of_canonicalText? ht, fun h ↦ ?_⟩
  have hname : isName n.toList = true := by
    cases hcs : n.toList with
    | nil => exact absurd (String.toList_eq_nil_iff.1 hcs) h.1
    | cons c cs =>
      obtain ⟨hc, hrest⟩ := List.forall_mem_cons.1 (hcs ▸ h.2)
      refine Bool.and_eq_true_iff.2 ⟨hc, List.all_eq_true.2 fun d hd ↦ ?_⟩
      have hd := hrest d hd
      rw [isCanonicalChar, Bool.or_eq_true] at hd
      rw [isNameContinue, Bool.or_eq_true, Char.isAlphanum, Bool.or_eq_true]
      exact hd.imp .inl id
  refine ⟨.ofName ⟨n, hname⟩, ?_⟩
  rw [TypeRef.canonicalName?, TypeRef.render_ofName, canonicalText?_of_canonical h]

/-- Denying a name makes a difference to the names of some types exactly if it is the canonical name
of a type reference. -/
theorem exists_removed_iff {n : String} :
    (∃ types : OrderedSet TypeRef,
      n ∈ canonicalize .empty types ∧ n ∉ canonicalize (Policy.empty.deny n) types) ↔
      ∃ t : TypeRef, t.canonicalName? = some n := by
  have hdeny (types : OrderedSet TypeRef) : n ∉ canonicalize (Policy.empty.deny n) types := by
    simp [mem_canonicalize, Policy.deny, Policy.empty]
  have hempty (types : OrderedSet TypeRef) :
      n ∈ canonicalize .empty types ↔ ∃ t ∈ types, t.canonicalName? = some n := by
    simp [mem_canonicalize, Policy.empty]
  constructor
  · rintro ⟨types, hn, -⟩
    obtain ⟨t, -, ht⟩ := (hempty types).1 hn
    exact ⟨t, ht⟩
  · rintro ⟨t, ht⟩
    exact ⟨.ofList [t], (hempty _).2 ⟨t, OrderedSet.mem_ofList.2 (.head _), ht⟩, hdeny _⟩

namespace Config

variable {c : Config} {text path n : String}

/-- The names that the policy of a configuration denies. -/
def deniedNames (c : Config) : List String := c.policy.elim [] PolicyConfig.denylist

theorem validate_eq_ok_iff {c' : Config} : c.validate = .ok c' ↔ c.fault? = none ∧ c = c' := by
  rw [validate]
  cases c.fault? <;> simp

/-- A configuration that has been read is valid. -/
theorem validate_of_parse (h : parse text path = .ok c) : c.validate = .ok c := by
  rw [parse] at h
  cases hformat : Format.ofPath? path with
  | none => simp [hformat] at h
  | some format =>
    cases hread : format.read text with
    | error fault => simp [hformat, hread, bind, Except.bind, Except.mapError] at h
    | ok c' =>
      cases hvalid : c'.validate with
      | error fault => simp [hformat, hread, hvalid, bind, Except.bind, Except.mapError] at h
      | ok c'' =>
        obtain ⟨-, rfl⟩ := validate_eq_ok_iff.1 hvalid
        simp only [hformat, hread, hvalid, bind, Except.bind, Except.mapError, Except.ok.injEq] at h
        exact h ▸ hvalid

/-- A valid configuration denies no blank name, and so not the empty one. -/
theorem ne_empty_of_mem_deniedNames (h : c.validate = .ok c) (hn : n ∈ c.deniedNames) :
    n ≠ "" := by
  rintro rfl
  have hblank : c.policyNames.any (fun n ↦ Text.isBlank n.toList) = true := by
    refine List.any_eq_true.2 ⟨"", ?_, rfl⟩
    rw [policyNames]
    rw [deniedNames] at hn
    cases hpolicy : c.policy with
    | none => simp [hpolicy] at hn
    | some p => exact List.mem_append_left _ (by simpa [hpolicy] using hn)
  have hfault := (validate_eq_ok_iff.1 h).1
  rw [fault?, if_pos hblank] at hfault
  cases hfault

theorem exists_hasExtension_iff {extensions : List String} {e : String} (he : e ∈ extensions) :
    (∃ p, FilePath.extension? p = some e ∧ hasExtension extensions p = true) ↔
      '.' ∉ e.toList ∧ '/' ∉ e.toList := by
  rw [← FilePath.exists_extension?_iff]
  refine exists_congr fun p ↦ and_iff_left_of_imp fun hp ↦ ?_
  rw [hasExtension, hp, Option.any_some]
  exact List.contains_iff_mem.2 he

/-- **Which entries of a configuration can match.**  Of a configuration that has been read, a denied
name is the canonical name of some type reference, and denying it makes a difference, exactly if it
has ASCII letters and underscores only.  An extension of its documents is that of some path, and so
accepts some file, exactly if it has no dot and no slash. -/
theorem entries_match_iff (h : parse text path = .ok c) :
    (∀ n ∈ c.deniedNames,
      ((∃ t : TypeRef, t.canonicalName? = some n) ↔
        ∀ d ∈ n.toList, isCanonicalChar d = true) ∧
      ((∃ types : OrderedSet TypeRef,
        n ∈ canonicalize .empty types ∧ n ∉ canonicalize (Policy.empty.deny n) types) ↔
        ∀ d ∈ n.toList, isCanonicalChar d = true)) ∧
    ∀ e ∈ c.documentExtensions,
      ((∃ p, FilePath.extension? p = some e ∧ hasExtension c.documentExtensions p = true) ↔
        '.' ∉ e.toList ∧ '/' ∉ e.toList) := by
  refine ⟨fun n hn ↦ ?_, fun e he ↦ exists_hasExtension_iff he⟩
  have hne : n ≠ "" := ne_empty_of_mem_deniedNames (validate_of_parse h) hn
  have hcanonical : IsCanonicalName n ↔ ∀ d ∈ n.toList, isCanonicalChar d = true :=
    and_iff_right hne
  rw [exists_removed_iff, exists_canonicalName?_iff, hcanonical]
  exact ⟨.rfl, .rfl⟩

/-- A configuration with a denied name and an extension, both of which can match. -/
theorem entries_match_iff_user :
    ∃ c, parse "policy:\n  denylist: [User]\ndocuments:\n  extensions: [.gql]" "c.yml" = .ok c ∧
      (∃ t : TypeRef, t.canonicalName? = some "User") ∧
      ∃ p, FilePath.extension? p = some "gql" ∧ hasExtension c.documentExtensions p = true := by
  have hread : parse "policy:\n  denylist: [User]\ndocuments:\n  extensions: [.gql]" "c.yml" =
      .ok ⟨some ⟨["User"], []⟩, some ⟨some [".gql"]⟩⟩ := by
    decide +kernel
  have hletters : ∀ d ∈ "User".toList, isCanonicalChar d = true :=
    List.all_eq_true.1 (by decide)
  have hiff := entries_match_iff hread
  exact ⟨_, hread, (hiff.1 "User" (by decide)).1.2 hletters,
    (hiff.2 "gql" (by decide)).2 (by decide)⟩

/-- A name with a digit and an extension with a dot inside are accepted, and match nothing. -/
theorem exists_entries_matching_nothing :
    ∃ c, parse "policy:\n  denylist: [Address2]\ndocuments:\n  extensions: [tar.gz]" "c.yml" =
        .ok c ∧
      "Address2" ∈ c.deniedNames ∧ (∀ t : TypeRef, t.canonicalName? ≠ some "Address2") ∧
      "tar.gz" ∈ c.documentExtensions ∧ ∀ p, FilePath.extension? p ≠ some "tar.gz" := by
  refine ⟨⟨some ⟨["Address2"], []⟩, some ⟨some ["tar.gz"]⟩⟩, by decide +kernel, by decide,
    fun t ht ↦ ?_, by decide, fun p hp ↦ ?_⟩
  · exact absurd (exists_canonicalName?_iff.1 ⟨t, ht⟩) (by decide)
  · exact absurd (FilePath.exists_extension?_iff.1 ⟨p, hp⟩) (by decide)

end Config
end TypeFootprint
