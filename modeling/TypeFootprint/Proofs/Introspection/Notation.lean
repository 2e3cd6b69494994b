import TypeFootprint.Proofs.Introspection.Correspondence
import TypeFootprint.Proofs.TypeRef.Notation

/-!
# References keep their structure when they are written

`ref.Complete name` says that the reference `ref` is complete and that `name` is at its centre: named
kinds have a name and hold nothing, lists and required types hold something, and nothing is required
twice.  The name may be any text, but only around a GraphQL name is something written that can be
read.

The wrappers of a reference, from the outside to the inside, are those of the type reference that is
read from what is written (`render_of_complete`).  As a type reference is its wrappers and its name
(`TypeRef.ext_wrappers`), two complete references around names look alike just if they are alike.
-/

set_option autoImplicit false

namespace TypeFootprint

open Introspection (ReferenceKind)

namespace TypeRef

/-! ## Wrappers -/

/-- The wrapper of something required. -/
def requirement (required : Bool) : List ReferenceKind := if required then [.nonNull] else []

/-- The wrappers of a type reference, from the outside to the inside. -/
def wrappers : TypeRef → List ReferenceKind
  | named _ required => requirement required
  | list item required => requirement required ++ .list :: item.wrappers

/-- A type reference is its wrappers and the name inside them. -/
theorem ext_wrappers {t u : TypeRef} (hcore : t.core = u.core) (h : t.wrappers = u.wrappers) :
    t = u := by
  induction t generalizing u with
  | named n required =>
    cases u with
    | named m required' =>
      obtain rfl : n = m := hcore
      cases required <;> cases required' <;> first | rfl | cases h
    | list item' required' => cases required <;> cases required' <;> cases h
  | list item required ih =>
    cases u with
    | named m required' => cases required <;> cases required' <;> cases h
    | list item' required' =>
      have hitem : required = required' ∧ item.wrappers = item'.wrappers := by
        cases required <;> cases required' <;> first | cases h | simpa [wrappers, requirement] using h
      obtain ⟨rfl, hwrappers⟩ := hitem
      exact congrArg (list · required) (ih hcore hwrappers)

theorem wrappers_of_require? {t u : TypeRef} (h : t.require? = some u) :
    u.wrappers = .nonNull :: t.wrappers ∧ u.core = t.core := by
  cases t with
  | named n required =>
    cases required
    · obtain rfl := Option.some.inj h
      exact ⟨rfl, rfl⟩
    · cases h
  | list item required =>
    cases required
    · obtain rfl := Option.some.inj h
      exact ⟨rfl, rfl⟩
    · cases h

end TypeRef

namespace Introspection

open TypeFootprint.Token TypeFootprint.Parser

/-! ## Complete references -/

/-- The reference is complete, and this is the name at its centre. -/
inductive Reference.Complete : Reference → String → Prop
  | plain {kind : ReferenceKind} (hlist : kind ≠ .list) (hnonNull : kind ≠ .nonNull)
      (name : String) : Complete (.plain kind (some name)) name
  | list {inner : Reference} {name : String} (h : Complete inner name) (text? : Option String) :
      Complete (.wrapping .list text? inner) name
  | nonNull {inner : Reference} {name : String} (h : Complete inner name)
      (hinner : inner.kind ≠ .nonNull) (text? : Option String) :
      Complete (.wrapping .nonNull text? inner) name

/-- The wrappers of a reference, from the outside to the inside. -/
def Reference.wrappers : Reference → List ReferenceKind
  | .plain _ _ => []
  | .wrapping kind _ inner => kind :: inner.wrappers

namespace Reference.Complete

variable {ref ref' : Reference} {name name' : String}

theorem namedType?_eq (h : ref.Complete name) : ref.namedType? = some name := by
  induction h with
  | plain _ _ name => rfl
  | list _ _ ih => exact ih
  | nonNull _ _ _ ih => exact ih

theorem isComplete (h : ref.Complete name) (hname : isName name.toList = true) :
    ref.isComplete = true := by
  induction h with
  | @plain kind hlist hnonNull name =>
    cases kind with
    | list => exact absurd rfl hlist
    | nonNull => exact absurd rfl hnonNull
    | _ => exact hname
  | list _ _ ih => exact ih hname
  | nonNull _ hinner _ ih =>
    rw [Reference.isComplete, Bool.and_eq_true]
    exact ⟨by simpa using hinner, ih hname⟩

/-- The type reference that a complete reference stands for has its wrappers and its name. -/
theorem wrappers_eq (h : ref.Complete name) {t : TypeRef} (ht : ref.typeRef? = some t) :
    t.wrappers = ref.wrappers ∧ t.core.text = name := by
  induction h generalizing t with
  | @plain kind hlist hnonNull name =>
    have named (hn : (Name.ofText? name).map TypeRef.ofName = some t) :
        t.wrappers = [] ∧ t.core.text = name := by
      obtain ⟨n, hread, rfl⟩ := Option.map_eq_some_iff.1 hn
      exact ⟨rfl, Name.text_of_ofText? hread⟩
    cases kind with
    | list => exact absurd rfl hlist
    | nonNull => exact absurd rfl hnonNull
    | _ => exact named ht
  | list _ text? ih =>
    obtain ⟨u, hu, rfl⟩ := Option.map_eq_some_iff.1 ht
    obtain ⟨hwrappers, hcore⟩ := ih hu
    exact ⟨congrArg (ReferenceKind.list :: ·) hwrappers, hcore⟩
  | nonNull _ _ text? ih =>
    obtain ⟨u, hu, hrequire⟩ := Option.bind_eq_some_iff.1 ht
    obtain ⟨hwrappers, hcore⟩ := ih hu
    obtain ⟨hwrappers', hcore'⟩ := TypeRef.wrappers_of_require? hrequire
    exact ⟨hwrappers'.trans (congrArg (ReferenceKind.nonNull :: ·) hwrappers), by rw [hcore', hcore]⟩

/-- A complete reference around a name is written as a type reference is, with its wrappers and its
name. -/
theorem exists_chars_eq (h : ref.Complete name) (hname : isName name.toList = true) :
    ∃ t : TypeRef, ref.render.toList = t.chars ∧ t.depth = ref.listDepth ∧
      t.wrappers = ref.wrappers ∧ t.core.text = name := by
  obtain ⟨t, ht, -⟩ := Reference.exists_typeRef (h.isComplete hname)
  obtain ⟨hchars, hdepth⟩ := Reference.toList_render ht
  exact ⟨t, hchars, hdepth, h.wrappers_eq ht⟩

/-- Complete references around names look alike just if they have the same wrappers and the same
name. -/
theorem render_eq_iff (h : ref.Complete name) (hname : isName name.toList = true)
    (h' : ref'.Complete name') (hname' : isName name'.toList = true) :
    ref'.render = ref.render ↔ ref'.wrappers = ref.wrappers ∧ name' = name := by
  obtain ⟨t, hchars, -, hwrappers, hcore⟩ := h.exists_chars_eq hname
  obtain ⟨t', hchars', -, hwrappers', hcore'⟩ := h'.exists_chars_eq hname'
  constructor
  · intro hrender
    have hsame : t'.chars = t.chars := by rw [← hchars', hrender, hchars]
    obtain rfl := TypeRef.chars_injective hsame
    exact ⟨hwrappers'.symm.trans hwrappers, hcore'.symm.trans hcore⟩
  · rintro ⟨hsame, rfl⟩
    have hcores : t'.core = t.core := Name.ext_text (hcore'.trans hcore.symm)
    have heq : t' = t := TypeRef.ext_wrappers hcores (by rw [hwrappers', hwrappers, hsame])
    rw [← String.toList_inj, hchars', hchars, heq]

end Reference.Complete

/-- **References keep their structure.**  Of a complete reference the name at its centre is the named
type.  If that is a GraphQL name, then what is written is a notation that is read as a type with the
same wrappers in the same order around the same name, by itself and in front of whatever but another
mark; and no complete reference around a name is written in the same way unless it has the same
wrappers and the same name. -/
theorem render_of_complete {ref : Reference} {name : String} (h : ref.Complete name) :
    ref.namedType? = some name ∧
    (isName name.toList = true →
      (∃ t : TypeRef, t.wrappers = ref.wrappers ∧ t.core.text = name ∧
        TypeRef.parse? ref.render = some t ∧ scan ref.render.toList = some t.tokens ∧
        ∀ depth rest, ref.listDepth ≤ depth → (pastCommas rest).head? ≠ some (.punctuator .bang) →
          ∃ us, typeRefUpTo depth (t.tokens ++ rest) = some (t, us) ∧
            pastCommas us = pastCommas rest) ∧
      ∀ (ref' : Reference) (name' : String), ref'.Complete name' → isName name'.toList = true →
        (ref'.render = ref.render ↔ ref'.wrappers = ref.wrappers ∧ name' = name)) := by
  refine ⟨h.namedType?_eq, fun hname ↦ ⟨?_, fun ref' name' h' hname' ↦
    h.render_eq_iff hname h' hname'⟩⟩
  obtain ⟨t, hchars, hdepth, hwrappers, hcore⟩ := h.exists_chars_eq hname
  refine ⟨t, hwrappers, hcore, TypeRef.parse?_of_toList_eq_chars hchars, ?_,
    fun depth rest hle hrest ↦ ?_⟩
  · rw [hchars]
    exact scan_of_scanClosed t.scanClosed_chars
  · have hfollows : Follows (· != .punctuator .bang) (pastCommas rest) := by
      intro u hu
      rw [bne_iff_ne]
      rintro rfl
      exact hrest hu
    exact typeRefUpTo_tokens (hdepth.trans_le hle) hfollows rfl

/-- A list that must be there, of users who must be there. -/
def requiredUsers : Reference :=
  .wrapping .nonNull none (.wrapping .list none
    (.wrapping .nonNull none (.plain .object (some "User"))))

theorem complete_requiredUsers : requiredUsers.Complete "User" :=
  .nonNull (.list (.nonNull (.plain (by decide) (by decide) "User") (by decide) none) none)
    (by decide) none

theorem render_of_complete_requiredUsers :
    requiredUsers.Complete "User" ∧ isName "User".toList = true ∧
      requiredUsers.namedType? = some "User" ∧
      (∃ t : TypeRef, t.wrappers = requiredUsers.wrappers ∧ t.core.text = "User" ∧
        TypeRef.parse? requiredUsers.render = some t ∧
        scan requiredUsers.render.toList = some t.tokens ∧
        ∀ depth rest, requiredUsers.listDepth ≤ depth →
          (pastCommas rest).head? ≠ some (.punctuator .bang) →
          ∃ us, typeRefUpTo depth (t.tokens ++ rest) = some (t, us) ∧
            pastCommas us = pastCommas rest) ∧
      requiredUsers.render = "[User!]!" := by
  have hname : isName "User".toList = true := by decide +kernel
  obtain ⟨hnamed, hread⟩ := render_of_complete complete_requiredUsers
  exact ⟨complete_requiredUsers, hname, hnamed, (hread hname).1, by decide +kernel⟩

/-- A name that is no GraphQL name: the mark at its end is taken for a wrapper, or nothing is
read. -/
theorem exists_complete_not_kept :
    (∃ ref ref' : Reference, ref.Complete "A!" ∧ ref'.Complete "A" ∧
      ref.render = ref'.render ∧ ref.wrappers ≠ ref'.wrappers) ∧
    ∃ ref : Reference, ref.Complete "a b" ∧ TypeRef.parse? ref.render = none := by
  have hscalar (name : String) : (Reference.plain .scalar (some name)).Complete name :=
    .plain (by decide) (by decide) name
  refine ⟨⟨.plain .scalar (some "A!"), .wrapping .nonNull none (.plain .scalar (some "A")),
    hscalar "A!", .nonNull (hscalar "A") (by decide) none, by decide +kernel, by decide⟩,
    .plain .scalar (some "a b"), hscalar "a b", by decide +kernel⟩

end Introspection
end TypeFootprint
