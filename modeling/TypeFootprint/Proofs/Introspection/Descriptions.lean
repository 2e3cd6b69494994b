import TypeFootprint.Proofs.Introspection.Acceptance

/-!
# What becomes of descriptions

An `Element` is something that may be described, found by the names on the way to it.  Descriptions
of one line are kept for every element but arguments, which are written without theirs
(`keepsDescriptions_iff`): an answer keeps all its descriptions just if it has none there.
-/

set_option autoImplicit false

namespace TypeFootprint

/-- Something that may be described.  The items of a type are its fields, enum values or input
fields. -/
inductive Element where
  | type (name : String)
  | item (type name : String)
  | argument (type item name : String)
  | directive (name : String)
  | directiveArgument (directive name : String)
deriving DecidableEq

namespace Element

/-- Whether an element is an argument, of a field or of a directive. -/
def isArgument : Element → Bool
  | argument .. | directiveArgument .. => true
  | type _ | item .. | directive _ => false

end Element

/-- Whether an outline has an element with this description. -/
def Outline.Describes (o : Outline) : Element → String → Prop
  | .type t, text => ∃ e ∈ o.types, e.label = ⟨t, some text⟩
  | .item t i, text => ∃ e ∈ o.types, e.label.name = t ∧ ∃ x ∈ e.items, x.label = ⟨i, some text⟩
  | .argument t i a, text => ∃ e ∈ o.types, e.label.name = t ∧
      ∃ x ∈ e.items, x.label.name = i ∧ ⟨a, some text⟩ ∈ x.arguments
  | .directive d, text => ∃ x ∈ o.directives, x.label = ⟨d, some text⟩
  | .directiveArgument d a, text =>
      ∃ x ∈ o.directives, x.label.name = d ∧ ⟨a, some text⟩ ∈ x.arguments

instance (o : Outline) (e : Element) (text : String) : Decidable (o.Describes e text) :=
  match e with
  | .type _ => inferInstanceAs (Decidable (∃ e ∈ o.types, _))
  | .item _ _ => inferInstanceAs (Decidable (∃ e ∈ o.types, _ ∧ ∃ x ∈ e.items, _))
  | .argument _ _ _ => inferInstanceAs (Decidable (∃ e ∈ o.types, _ ∧ ∃ x ∈ e.items, _ ∧ _))
  | .directive _ => inferInstanceAs (Decidable (∃ x ∈ o.directives, _))
  | .directiveArgument _ _ => inferInstanceAs (Decidable (∃ x ∈ o.directives, _ ∧ _))

namespace Introspection

/-- Whether a character is no control character. -/
def isPrintable (c : Char) : Bool := isTextChar c && c != '\t' && c != '\n'

/-- A text of one line that is not empty. -/
def IsPrintableLine (text : String) : Prop := text ≠ "" ∧ ∀ c ∈ text.toList, isPrintable c = true

instance (text : String) : Decidable (IsPrintableLine text) :=
  decidable_of_iff (text ≠ "" ∧ text.toList.all isPrintable = true)
    (and_congr_right fun _ ↦ List.all_eq_true)

theorem IsPrintableLine.newline_not_mem {text : String} (h : IsPrintableLine text) :
    '\n' ∉ text.toList := fun hmem ↦ absurd (h.2 _ hmem) (by decide)

/-- Every element that a printable line describes has this description in the schema, too. -/
def KeepsDescriptions (r : Result) (schema : Schema) : Prop :=
  ∀ e text, IsPrintableLine text → r.outline.Describes e text → schema.outline.Describes e text

/-! ## What is written of descriptions -/

theorem label_written_eq {indent : List Char} {text : String} (h : '\n' ∉ text.toList)
    (n : String) : Label.written indent ⟨n, some text⟩ = ⟨n, some text⟩ := by
  simp [Label.written, shownDescription, h]

/-- A description of one line is written as it is, for all elements but arguments. -/
theorem describes_written {o : Outline} {e : Element} {text : String} (he : e.isArgument = false)
    (htext : '\n' ∉ text.toList) (h : o.Describes e text) : o.written.Describes e text := by
  cases e with
  | type t =>
    obtain ⟨e, he, hlabel⟩ := h
    refine ⟨e.written, List.mem_map_of_mem he, ?_⟩
    rw [TypeOutline.written, hlabel, label_written_eq htext]
  | item t i =>
    obtain ⟨e, he, hname, x, hx, hlabel⟩ := h
    refine ⟨e.written, List.mem_map_of_mem he, hname, x.written itemIndent,
      List.mem_map_of_mem hx, ?_⟩
    rw [ItemOutline.written, hlabel, label_written_eq htext]
  | directive d =>
    obtain ⟨x, hx, hlabel⟩ := h
    refine ⟨x.written [], List.mem_map_of_mem hx, ?_⟩
    rw [ItemOutline.written, hlabel, label_written_eq htext]
  | argument t i a => cases he
  | directiveArgument d a => cases he

/-- No description of an argument is written. -/
theorem not_describes_written {o : Outline} {e : Element} (he : e.isArgument = true)
    (text : String) : ¬o.written.Describes e text := by
  have bare {indent : List Char} {x : ItemOutline} {a : String} :
      ⟨a, some text⟩ ∉ (x.written indent).arguments := by
    intro hmem
    obtain ⟨l, -, hl⟩ := List.mem_map.1 hmem
    cases congrArg Label.description hl
  cases e with
  | argument t i a =>
    rintro ⟨e', he', -, x', hx', -, hmem⟩
    obtain ⟨e, -, rfl⟩ := List.mem_map.1 he'
    obtain ⟨x, -, rfl⟩ := List.mem_map.1 hx'
    exact bare hmem
  | directiveArgument d a =>
    rintro ⟨x', hx', -, hmem⟩
    obtain ⟨x, -, rfl⟩ := List.mem_map.1 hx'
    exact bare hmem
  | type t => cases he
  | item t i => cases he
  | directive d => cases he

/-! ## What is read of descriptions -/

section Accepted

variable {r : Result} {schema : Schema}

theorem outline_of_acceptedAs (h : r.AcceptedAs schema) :
    schema.outline = ⟨BuiltIn.types.map TypeDefinition.outline ++ r.outline.written.types,
      r.outline.written.directives ++ BuiltIn.directives.map DirectiveDefinition.outline⟩ := by
  obtain ⟨ts, htypes, hts⟩ := h.types
  obtain ⟨ds, hdirectives, hds⟩ := h.directives
  rw [Schema.outline, htypes, hdirectives, List.map_append, List.map_append, hts, hds]

theorem describes_of_written (h : r.AcceptedAs schema) {e : Element} {text : String}
    (he : r.outline.written.Describes e text) : schema.outline.Describes e text := by
  rw [outline_of_acceptedAs h]
  cases e with
  | type t => exact he.imp fun _ ↦ And.imp_left (List.mem_append_right _)
  | item t i => exact he.imp fun _ ↦ And.imp_left (List.mem_append_right _)
  | argument t i a => exact he.imp fun _ ↦ And.imp_left (List.mem_append_right _)
  | directive d => exact he.imp fun _ ↦ And.imp_left (List.mem_append_left _)
  | directiveArgument d a => exact he.imp fun _ ↦ And.imp_left (List.mem_append_left _)

/-- A type that has to be defined has another name than the types of every schema. -/
theorem name_ne_of_mem_types {o o' : TypeOutline} (ho : o ∈ r.outline.types)
    (ho' : o' ∈ BuiltIn.types.map TypeDefinition.outline) : o'.label.name ≠ o.label.name := by
  obtain ⟨t, ht, rfl⟩ := List.mem_map.1 ho
  obtain ⟨w, hw, rfl⟩ := List.mem_map.1 ho'
  intro hname
  have hbuiltIn := isBuiltIn_of_mem_types hw hname.symm
  simp [Result.ownTypes, hbuiltIn] at ht

/-- A directive that has to be defined has another name than the directives of every schema. -/
theorem name_ne_of_mem_directives {o o' : ItemOutline} (ho : o ∈ r.outline.directives)
    (ho' : o' ∈ BuiltIn.directives.map DirectiveDefinition.outline) :
    o'.label.name ≠ o.label.name := by
  obtain ⟨d, hd, rfl⟩ := List.mem_map.1 ho
  obtain ⟨w, hw, rfl⟩ := List.mem_map.1 ho'
  intro hname
  have hbuiltIn := isBuiltIn_of_mem_directives hw hname.symm
  simp [Result.ownDirectives, hbuiltIn] at hd

/-- An argument that has a description has none in the schema. -/
theorem not_describes_of_isArgument (h : r.AcceptedAs schema) {e : Element}
    (he : e.isArgument = true) {text : String} (hr : r.outline.Describes e text)
    (text' : String) : ¬schema.outline.Describes e text' := by
  have hwritten := not_describes_written (o := r.outline) he text'
  rw [outline_of_acceptedAs h]
  cases e with
  | argument t i a =>
    obtain ⟨o, ho, rfl, -⟩ := hr
    rintro ⟨o', ho', hname, hitem⟩
    obtain hbuiltIn | hown := List.mem_append.1 ho'
    · exact name_ne_of_mem_types ho hbuiltIn hname
    · exact hwritten ⟨o', hown, hname, hitem⟩
  | directiveArgument d a =>
    obtain ⟨o, ho, rfl, -⟩ := hr
    rintro ⟨o', ho', hname, hmem⟩
    obtain hown | hbuiltIn := List.mem_append.1 ho'
    · exact hwritten ⟨o', hown, hname, hmem⟩
    · exact name_ne_of_mem_directives ho hbuiltIn hname
  | type t => cases he
  | item t i => cases he
  | directive d => cases he

end Accepted

/-- **Descriptions are kept, but for those of arguments.** -/
theorem keepsDescriptions_iff {r : Result} (h : r.Lexical) {schema : Schema}
    (hs : Schema.parse? r.sdl = some schema) :
    (KeepsDescriptions r schema ↔
      ∀ e text, e.isArgument = true → IsPrintableLine text → ¬r.outline.Describes e text) ∧
    (∀ e text, e.isArgument = false → '\n' ∉ text.toList → r.outline.Describes e text →
      schema.outline.Describes e text) ∧
    (∀ e text text', e.isArgument = true → r.outline.Describes e text →
      ¬schema.outline.Describes e text') := by
  have haccepted := acceptedAs_of_parse?_sdl h hs
  have hkept (e : Element) (text : String) (he : e.isArgument = false) (htext : '\n' ∉ text.toList)
      (hr : r.outline.Describes e text) : schema.outline.Describes e text :=
    describes_of_written haccepted (describes_written he htext hr)
  refine ⟨⟨fun hall e text he htext hr ↦ ?_, fun hnone e text htext hr ↦ ?_⟩, hkept,
    fun e text text' he hr ↦ not_describes_of_isArgument haccepted he hr text'⟩
  · exact not_describes_of_isArgument haccepted he hr text (hall e text htext hr)
  · cases he : e.isArgument with
    | true => exact absurd hr (hnone e text he htext)
    | false => exact hkept e text he htext.newline_not_mem hr

/-- A museum in which everything is described, arguments included. -/
def museum : Result where
  queryType := some "Query"
  mutationType := none
  subscriptionType := none
  types := [
    ⟨"Query", some "Ask here.", .object
      [⟨"paintings", some "All that hang.",
        [⟨"style", some "Of this style.", .plain .enum (some "Style"), none⟩],
        .wrapping .list none (.plain .scalar (some "String")), false, none⟩] []⟩,
    ⟨"Style", some "A style.", .enum [⟨"BAROQUE", some "After the \"Renaissance\".", false, none⟩]⟩,
    ⟨"Order", some "An order.", .inputObject
      [⟨"tickets", some "How many.", .plain .scalar (some "Int"), some "1"⟩]⟩]
  directives := [
    ⟨"cached", some "Kept for a while.", ["FIELD"],
      [⟨"seconds", some "For how long.", .plain .scalar (some "Int"), none⟩], false⟩]

theorem keepsDescriptions_iff_museum :
    museum.Lexical ∧ ∃ schema, Schema.parse? museum.sdl = some schema ∧
      (KeepsDescriptions museum schema ↔ ∀ e text, e.isArgument = true → IsPrintableLine text →
        ¬museum.outline.Describes e text) ∧
      (∀ e text, e.isArgument = false → '\n' ∉ text.toList → museum.outline.Describes e text →
        schema.outline.Describes e text) ∧
      (∀ e text text', e.isArgument = true → museum.outline.Describes e text →
        ¬schema.outline.Describes e text') := by
  have hwell : museum.WellFormed maxDepth := by decide +kernel
  have hsome : (Schema.parse? museum.sdl).isSome = true := by
    rw [Result.sdl, parse?_ofList]
    decide +kernel
  obtain ⟨schema, hs⟩ := Option.isSome_iff_exists.1 hsome
  exact ⟨hwell.lexical, schema, hs, keepsDescriptions_iff hwell.lexical hs⟩

/-- The descriptions of the arguments of the museum are lost, those of a field as well as those of a
directive. -/
theorem exists_description_not_kept :
    ∃ schema, Schema.parse? museum.sdl = some schema ∧
      ∀ p ∈ [(Element.argument "Query" "paintings" "style", "Of this style."),
          (Element.directiveArgument "cached" "seconds", "For how long.")],
        IsPrintableLine p.2 ∧ museum.outline.Describes p.1 p.2 ∧
          ¬schema.outline.Describes p.1 p.2 := by
  let lost := [(Element.argument "Query" "paintings" "style", "Of this style."),
    (Element.directiveArgument "cached" "seconds", "For how long.")]
  have hdescribed : ∀ p ∈ lost, IsPrintableLine p.2 ∧ museum.outline.Describes p.1 p.2 := by
    decide +kernel
  have hlost : ((Schema.parse? museum.sdl).any fun schema ↦
      lost.all fun p ↦ !decide (schema.outline.Describes p.1 p.2)) = true := by
    rw [Result.sdl, parse?_ofList]
    decide +kernel
  obtain ⟨schema, hs, hlost⟩ := (Option.any_eq_true _ _).1 hlost
  refine ⟨schema, hs, fun p hp ↦ ⟨(hdescribed p hp).1, (hdescribed p hp).2, ?_⟩⟩
  simpa using List.all_eq_true.1 hlost p hp

end Introspection
end TypeFootprint
