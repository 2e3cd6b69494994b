import Mathlib.Data.List.Nodup
import TypeFootprint.Proofs.Introspection.Definitions
import TypeFootprint.Schema.Build

/-!
# Default values that are nested too deep

The parser goes `maxDepth` levels deep.  A default value may be nested deeper and still be a
constant (`wellFormed_deepDefault`), but the type that has it is not read, nor is the schema around
it (`parse?_sdl_deepDefault`).
-/

set_option autoImplicit false

namespace TypeFootprint.Introspection

open TypeFootprint.Token TypeFootprint.Parser

/-! ## What fails with a default value -/

/-- An input value is not read if its default value is not. -/
theorem inputValue_eq_none (n : Name) {t : TypeRef} (ht : t.depth ≤ maxDepth) {ts : List Token}
    (hv : value true maxDepth ts = none) :
    inputValue (.name n :: .punctuator .colon :: (t.tokens ++ .punctuator .equals :: ts)) =
      none := by
  have hequals : Follows (· == .punctuator .equals) (pastCommas (.punctuator .equals :: ts)) :=
    follows_cons (by simp) ts
  obtain ⟨us, htype, hus⟩ := typeRef_tokens ht hequals rfl
  change inputValue (descriptionTokens none ++ .name n :: _) = none
  rw [inputValue, bind_of_eq (takeString_descriptionTokens none n _), bind_of_eq (name_cons n _),
    bind_of_eq (mark_cons .colon _), bind_of_eq htype]
  exact bind_of_none (defaultValue_eq_none hus hv)

/-- An input type is not read if its first field is not. -/
theorem definition_input_eq_none (n : Name) {ts : List Token} (h : inputValue ts = none) :
    definition (.name (kindName .inputObject) :: .name n :: .punctuator .braceOpen :: ts) =
      none := by
  have hdirectives : outerDirectives true (.punctuator .braceOpen :: ts) =
      some ([], .punctuator .braceOpen :: ts) :=
    outerDirectives_nil (F := (· == .punctuator .braceOpen)) (follows_cons (by simp) ts) rfl rfl
  have hfields : optionalGroup .braceOpen .braceClose inputValue (.punctuator .braceOpen :: ts) =
      none := by
    rw [optionalGroup_cons, someTill, bind_of_none h]
  have hbody : typeBody .inputObject (.punctuator .braceOpen :: ts) = none := by
    rw [typeBody, bind_of_eq hdirectives]
    exact bind_of_none hfields
  change definition (descriptionTokens none ++ .name (kindName .inputObject) :: _) = none
  rw [definition_kindName, typeDefinition, bind_of_eq (name_cons n _), bind_of_none hbody,
    Option.map_none]

/-! ## Lists in lists as a default value -/

/-- An input type with one field, whose default value is nested so many lists deep. -/
def deepDefault (n : Nat) : Result :=
  ⟨none, none, none, [⟨"Filter", none, .inputObject
    [⟨"tags", none, .plain .scalar (some "String"), some (String.ofList (nestedLists n))⟩]⟩], []⟩

theorem ownTypes_deepDefault (n : Nat) : (deepDefault n).ownTypes = (deepDefault n).types := by
  simp [Result.ownTypes, deepDefault, TypeEntry.isBuiltIn, builtInScalars]

/-- The value is a constant, however deep it is nested. -/
theorem wellFormed_deepDefault {depth n : Nat} (h : n ≤ depth) :
    (deepDefault (n + 1)).WellFormed depth where
  roots := by simp [deepDefault]
  types t ht := by
    rw [ownTypes_deepDefault] at ht
    obtain rfl := List.mem_singleton.1 ht
    have hname : isName "Filter".toList = true := by decide
    have hfieldName : isName "tags".toList = true := by decide
    refine ⟨hname, rfl, fun v hv ↦ ?_, List.nodup_singleton _⟩
    obtain rfl := List.mem_singleton.1 hv
    exact ⟨hfieldName, rfl, rfl, Nat.zero_le depth, isSome_constant?_nestedLists h⟩
  directives := by simp [deepDefault, Result.ownDirectives]
  distinctTypes := by
    rw [ownTypes_deepDefault]
    exact List.nodup_singleton _
  distinctDirectives := List.nodup_nil

theorem toList_sdl_deepDefault (n : Nat) :
    (deepDefault n).sdl.toList =
      "input Filter \x7b\n  tags: String = ".toList ++ (nestedLists n ++ ['\n', '}']) := by
  have hvalue : (String.ofList (nestedLists n)).toList = nestedLists n := String.toList_ofList
  rw [Result.sdl, String.toList_ofList]
  simp [deepDefault, Result.definitions, Result.hasRenamedRoot, Result.roots, joinWith,
    TypeEntry.isBuiltIn, builtInScalars, TypeEntry.chars, descriptionChars, EntryBody.keyword,
    EntryBody.chars, bodyChars, inputFieldChars, inputChars, Reference.render, itemIndent, hvalue]

/-- The tokens in front of the default value. -/
def filterTokens : List Token :=
  [.name (kindName .inputObject), .name (BuiltIn.named "Filter" (Eq.refl true)),
    .punctuator .braceOpen, .name (BuiltIn.named "tags" (Eq.refl true)), .punctuator .colon,
    .name .string, .punctuator .equals]

theorem scan_sdl_deepDefault (n : Nat) :
    scan (deepDefault n).sdl.toList =
      some (filterTokens ++ (nestedTokens n ++ [.punctuator .braceClose])) := by
  have hfront : scanClosed "input Filter \x7b\n  tags: String = ".toList = some filterTokens := rfl
  have hend : scanClosed ['\n', '}'] = some [.punctuator .braceClose] := rfl
  rw [toList_sdl_deepDefault]
  exact scan_of_scanClosed (scanClosed_append hfront
    (scanClosed_append (scanClosed_nestedLists n) hend (startsApart_cons rfl))
    ((startsApart_nestedLists n).append (startsApart_cons rfl)))

/-- Beyond the depth of the parser there is no schema. -/
theorem parse?_sdl_deepDefault {n : Nat} (h : maxDepth + 1 < n) :
    Schema.parse? (deepDefault n).sdl = none := by
  have hvalue : value true maxDepth (nestedTokens n ++ [.punctuator .braceClose]) = none := by
    rw [nestedTokens, List.append_assoc]
    exact valueUpTo_eq_none_of_lt true h _
  have hfield := inputValue_eq_none (BuiltIn.named "tags" (Eq.refl true))
    (t := .named .string false) (Nat.zero_le _) hvalue
  have hparse : someToEnd definition
      (filterTokens ++ (nestedTokens n ++ [.punctuator .braceClose])) = none :=
    someToEnd_eq_none rfl (definition_input_eq_none _ hfield)
  have hdocument : Document.parse? (deepDefault n).sdl = none := by
    rw [Document.parse?, scan_sdl_deepDefault, Option.bind_eq_bind, Option.bind_some, hparse]
  rw [Schema.parse?, hdocument, Option.bind_eq_bind, Option.bind_none]

end TypeFootprint.Introspection
