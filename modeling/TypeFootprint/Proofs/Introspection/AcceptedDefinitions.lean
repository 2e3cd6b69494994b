import TypeFootprint.Proofs.Introspection.AcceptedItems

/-!
# Definitions that are accepted

`WritesOnly cs P` says of a definition that is written as `cs`: whatever is read there, if anything
is, has the property `P`.  A type and a directive are read with the outline that they were written
with, and the schema definition is read as it was written.

A directive without locations is refused because no definition starts with the name of a location.
-/

set_option autoImplicit false

namespace TypeFootprint.Introspection

open TypeFootprint.Token TypeFootprint.Parser

/-- Whether one of the definitions that are written may start with a token. -/
def startsWritten : Token → Bool
  | .string _ => true
  | .name n => n.text != "implements" && (DirectiveLocation.ofKeyword? n.text).isNone
  | _ => false

theorem startsDefinition_of_startsWritten {t : Token} (h : startsWritten t = true) :
    startsDefinition t = true := by
  cases t with
  | name n =>
    rw [startsWritten, Bool.and_eq_true] at h
    exact h.1
  | string text => rfl
  | _ => cases h

/-- The tokens of a definition, and a property of whatever is read from them. -/
structure AcceptsDefinition (ts : List Token) (P : TypeSystemDefinition → Prop) : Prop where
  starts : ∃ t us, ts = t :: us ∧ startsWritten t = true
  reads : ∀ ⦃rest us : List Token⦄ ⦃d : Definition⦄, Follows startsWritten rest →
    definition (ts ++ rest) = some (d, us) → (∃ e, d = .typeSystem e ∧ P e) ∧ us = rest

/-- The characters of a definition, and a property of whatever is read there. -/
def WritesOnly (cs : List Char) (P : TypeSystemDefinition → Prop) : Prop :=
  ∃ ts, ScansOnly cs ts ∧ AcceptsDefinition ts P

theorem startsWritten_descriptionTokens (description : Option String) {n : Name}
    (hn : startsWritten (.name n) = true) (ts : List Token) :
    ∃ t us, descriptionTokens description ++ .name n :: ts = t :: us ∧ startsWritten t = true := by
  cases description with
  | none => exact ⟨_, _, rfl, hn⟩
  | some text => exact ⟨_, _, rfl, rfl⟩

/-! ## Types -/

/-- No field starts with a mark. -/
theorem fieldDefinition_eq_none_of_stuck {us : List Token} (h : Stuck us) :
    fieldDefinition us = none := describedName_eq_none h

/-- No enum value starts with a mark. -/
theorem enumValue_eq_none_of_stuck {us : List Token} (h : Stuck us) : enumValue us = none :=
  describedName_eq_none h

section Bodies

variable {rest us : List Token} {r : List Directive × TypeBody}

/-- Interfaces and fields, as object types and interfaces have them. -/
theorem fieldsBody_of_entries (make : List Name → List FieldDefinition → TypeBody) (is : List Name)
    {tss : List (List Token)} {xs : List ItemOutline}
    (h : List.Forall₂ (ReadsEntry EndsEntry fieldDefinition FieldDefinition.outline) tss xs)
    (hrest : Follows startsDefinition rest)
    (hread : (do
      let is ← interfaces
      let ds ← outerDirectives true
      let fs ← fieldDefinitions
      return (ds, make is fs) : Parser (List Directive × TypeBody))
        (interfaceTokens is ++ (groupTokens .braceOpen .braceClose tss ++ rest)) = some (r, us)) :
    (∃ ws, r = ([], make is ws) ∧ ws.map FieldDefinition.outline = xs) ∧ us = rest := by
  have hfollows := follows_groupTokens tss hrest
  rw [bind_of_eq (interfaces_interfaceTokens is _ hfollows),
    bind_of_eq (outerDirectives_nil hfollows rfl rfl)] at hread
  obtain ⟨ws, vs, hws, hpure⟩ := exists_of_bind_eq hread
  have hnext (ts : List Token) : EndsEntry (.punctuator .braceClose :: ts) := rfl
  obtain ⟨hmap, rfl⟩ := optionalGroup_of_entries h hnext
    (fun _ ↦ fieldDefinition_eq_none_of_stuck) rfl rfl rfl hrest hws
  obtain ⟨rfl, rfl⟩ := Prod.mk.inj (Option.some.inj hpure)
  exact ⟨⟨ws, rfl, hmap⟩, rfl⟩

/-- Items and nothing else, as enum types and input types have them. -/
theorem itemsBody_of_entries {α : Type} {Next : List Token → Prop} {item : Parser α}
    {shown : α → ItemOutline} (make : List α → TypeBody) {tss : List (List Token)}
    {xs : List ItemOutline} (h : List.Forall₂ (ReadsEntry Next item shown) tss xs)
    (hnext : ∀ rest, Next (.punctuator .braceClose :: rest))
    (hitem : ∀ us, Stuck us → item us = none) (hrest : Follows startsDefinition rest)
    (hread : (do
      let ds ← outerDirectives true
      let items ← optionalGroup .braceOpen .braceClose item
      return (ds, make items) : Parser (List Directive × TypeBody))
        (groupTokens .braceOpen .braceClose tss ++ rest) = some (r, us)) :
    (∃ ws, r = ([], make ws) ∧ ws.map shown = xs) ∧ us = rest := by
  rw [bind_of_eq (outerDirectives_nil (follows_groupTokens tss hrest) rfl rfl)] at hread
  obtain ⟨ws, vs, hws, hpure⟩ := exists_of_bind_eq hread
  obtain ⟨hmap, rfl⟩ := optionalGroup_of_entries h hnext hitem rfl rfl rfl hrest hws
  obtain ⟨rfl, rfl⟩ := Prod.mk.inj (Option.some.inj hpure)
  exact ⟨⟨ws, rfl, hmap⟩, rfl⟩

end Bodies

/-- A body that is read has the kind and the items that it was written with. -/
def WritesBodyOnly (b : EntryBody) : Prop :=
  ∃ ts, ScansOnly b.chars ts ∧ ∀ ⦃rest us r⦄, Follows startsDefinition rest →
    typeBody b.kind (ts ++ rest) = some (r, us) →
    (∃ w, r = ([], w) ∧ w.kind = b.kind ∧
      w.items = b.items.map (ItemOutline.written itemIndent)) ∧ us = rest

theorem WritesBody.writesBodyOnly {b : EntryBody} {w : TypeBody} (h : WritesBody b w)
    (hkind : w.kind = b.kind)
    (hitems : w.items = b.items.map (ItemOutline.written itemIndent)) : WritesBodyOnly b := by
  obtain ⟨ts, hscan, hread⟩ := h
  refine ⟨ts, scansOnly_of_scanClosed hscan, fun rest us r hrest hr ↦ ?_⟩
  rw [hread rest hrest] at hr
  obtain ⟨rfl, rfl⟩ := Prod.mk.inj (Option.some.inj hr)
  exact ⟨⟨w, rfl, hkind, hitems⟩, rfl⟩

/-- Interfaces and fields, as they are written. -/
theorem exists_fieldEntries {fields : List FieldEntry} (h : ∀ f ∈ fields, f.Lexical)
    (is : List Name) :
    ∃ tss, List.Forall₂ (ReadsEntry EndsEntry fieldDefinition FieldDefinition.outline) tss
        ((fields.map FieldEntry.outline).map (ItemOutline.written itemIndent)) ∧
      ScansOnly (nameListChars " implements " " & " (is.map Name.text) ++
          bodyChars (fields.map fieldChars))
        (interfaceTokens is ++ groupTokens .braceOpen .braceClose tss) := by
  obtain ⟨tss, htss, hscan⟩ := exists_bodyEntries
    (forall₂_map_map fun f hf ↦ writesEntry_field (h f hf))
  refine ⟨tss, by rwa [List.map_map], ?_⟩
  have hinterfaces := scanClosed_interfaces is scanClosed_nil startsApart_nil
  rw [List.append_nil, List.append_nil] at hinterfaces
  exact (scansOnly_of_scanClosed hinterfaces).append hscan (startsApart_bodyChars _)

theorem writesBodyOnly_of_lexical {b : EntryBody} (h : b.Lexical) : WritesBodyOnly b := by
  cases b with
  | scalar => exact writesBody_scalar.writesBodyOnly rfl rfl
  | object fields interfaces =>
    obtain ⟨is, rfl⟩ := exists_names h.2
    obtain ⟨tss, htss, hscan⟩ := exists_fieldEntries h.1 is
    refine ⟨_, hscan, fun rest us r hrest hread ↦ ?_⟩
    rw [List.append_assoc] at hread
    obtain ⟨⟨ws, rfl, hws⟩, rfl⟩ := fieldsBody_of_entries .object is htss hrest hread
    exact ⟨⟨.object is ws, rfl, rfl, hws⟩, rfl⟩
  | interface fields interfaces =>
    obtain ⟨is, rfl⟩ := exists_names h.2
    obtain ⟨tss, htss, hscan⟩ := exists_fieldEntries h.1 is
    refine ⟨_, hscan, fun rest us r hrest hread ↦ ?_⟩
    rw [List.append_assoc] at hread
    obtain ⟨⟨ws, rfl, hws⟩, rfl⟩ := fieldsBody_of_entries .interface is htss hrest hread
    exact ⟨⟨.interface is ws, rfl, rfl, hws⟩, rfl⟩
  | union possibleTypes =>
    obtain ⟨ms, rfl⟩ := exists_names h
    exact (writesBody_union ms).writesBodyOnly rfl rfl
  | enum values =>
    obtain ⟨tss, htss, hscan⟩ := exists_bodyEntries
      (forall₂_map_map fun v hv ↦ writesEntry_enumValue (h v hv))
    refine ⟨_, hscan, fun rest us r hrest hread ↦ ?_⟩
    obtain ⟨⟨ws, rfl, hws⟩, rfl⟩ := itemsBody_of_entries .enum htss (fun _ ↦ follows_cons rfl _)
      (fun _ ↦ enumValue_eq_none_of_stuck) hrest hread
    refine ⟨⟨.enum ws, rfl, rfl, ?_⟩, rfl⟩
    rw [EntryBody.items, List.map_map]
    exact hws
  | inputObject fields =>
    obtain ⟨tss, htss, hscan⟩ := exists_bodyEntries
      (forall₂_map_map fun v hv ↦ writesEntry_inputField (h v hv))
    refine ⟨_, hscan, fun rest us r hrest hread ↦ ?_⟩
    obtain ⟨⟨ws, rfl, hws⟩, rfl⟩ := itemsBody_of_entries .inputObject htss (fun _ ↦ rfl)
      (fun _ ↦ inputValue_eq_none_of_stuck) hrest hread
    refine ⟨⟨.inputObject ws, rfl, rfl, ?_⟩, rfl⟩
    rw [EntryBody.items, List.map_map]
    exact hws

/-- A definition of a type with the outline that is written for this one. -/
def TypeEntry.Shows (t : TypeEntry) (e : TypeSystemDefinition) : Prop :=
  ∃ w, e = .type w ∧ w.outline = t.outline.written

/-- A type that is read has the outline that it was written with. -/
theorem writesOnly_type {t : TypeEntry} (h : t.Lexical) : WritesOnly t.chars t.Shows := by
  obtain ⟨ts, hscan, hread⟩ := writesBodyOnly_of_lexical h.body
  let shown := shownDescription [] t.description
  refine ⟨descriptionTokens shown ++ .name (kindName t.body.kind) :: .name ⟨t.name, h.name⟩ :: ts,
    ?_, startsWritten_descriptionTokens _ (by cases t.body.kind <;> decide) _,
    fun rest us d hrest hd ↦ ?_⟩
  · have hbody := hscan.name_append ⟨t.name, h.name⟩ (startsApart_chars t.body)
    rw [TypeEntry.chars, toList_keyword, List.append_assoc, List.append_assoc, List.append_assoc]
    exact scansOnly_description (by simp) t.description
      (hbody.space_cons.name_append _ (startsApart_cons rfl))
  · rw [List.append_assoc, List.cons_append, List.cons_append, definition_kindName,
      typeDefinition, bind_of_eq (name_cons _ _)] at hd
    obtain ⟨⟨w, vs⟩, hw, hr⟩ := Option.map_eq_some_iff.1 hd
    obtain ⟨rfl, rfl⟩ := Prod.mk.inj hr
    obtain ⟨r, vs, hbody, hpure⟩ := exists_of_bind_eq hw
    obtain ⟨⟨b, rfl, hkind, hitems⟩, rfl⟩ :=
      hread (hrest.mono fun _ ↦ startsDefinition_of_startsWritten) hbody
    obtain ⟨rfl, rfl⟩ := Prod.mk.inj (Option.some.inj hpure)
    refine ⟨⟨_, rfl, _, rfl, ?_⟩, rfl⟩
    rw [TypeDefinition.outline, TypeDefinition.kind, hkind, hitems]
    rfl

/-! ## Directives -/

theorem eq_of_directiveLocation {n : Name} {ts us : List Token} {l : DirectiveLocation}
    (h : directiveLocation (.name n :: ts) = some (l, us)) : us = ts := by
  rw [directiveLocation, bind_of_eq (name_cons n ts)] at h
  cases hl : DirectiveLocation.ofKeyword? n.text with
  | none =>
    rw [hl] at h
    cases h
  | some l' =>
    rw [hl] at h
    exact (Prod.mk.inj (Option.some.inj h)).2.symm

/-- No definition starts with the name of a location. -/
theorem directiveLocation_eq_none {ts : List Token} (h : Follows startsWritten ts) :
    directiveLocation ts = none := by
  have hpast : pastCommas ts = ts := h.pastCommas_eq rfl
  cases ts with
  | nil => rfl
  | cons t ts =>
    have ht := h t rfl
    cases t with
    | name n =>
      rw [startsWritten, Bool.and_eq_true, Option.isNone_iff_eq_none] at ht
      rw [directiveLocation, bind_of_eq (name_cons n ts), ht.2]
      rfl
    | string text => rfl
    | _ => cases ht

/-- Locations are over behind the last one; if there are none, nothing is read. -/
theorem eq_of_locations {ns : List Name} {rest us : List Token} {ls : List DirectiveLocation}
    (hrest : Follows startsWritten rest)
    (h : separated .pipe directiveLocation (separatedTokens .pipe ns ++ rest) = some (ls, us)) :
    us = rest := by
  cases ns with
  | nil =>
    have hpast : pastCommas rest = rest := hrest.pastCommas_eq rfl
    have hmark : takeMark .pipe rest = some (false, rest) := by
      have := takeMark_of_follows (F := startsWritten) (by rwa [hpast]) (p := .pipe) rfl
      rwa [hpast] at this
    change separated .pipe directiveLocation rest = _ at h
    rw [separated, bind_of_eq hmark, bind_of_none (directiveLocation_eq_none hrest)] at h
    cases h
  | cons n ns =>
    exact eq_of_separated (List.cons_ne_nil _ _) (fun _ _ _ _ ↦ eq_of_directiveLocation) rfl rfl
      hrest h

/-- The tokens of a directive behind its description. -/
def writtenDirectiveTokens (n : Name) (tss : List (List Token)) (isRepeatable : Bool)
    (locations : List Name) : List Token :=
  .name directiveName :: .punctuator .atSign :: .name n ::
    (groupTokens .parenOpen .parenClose tss ++
      (repeatableTokens isRepeatable ++ .name onName :: separatedTokens .pipe locations))

theorem scansOnly_directive {d : DirectiveEntry} (hname : isName d.name.toList = true)
    {tss : List (List Token)}
    (harguments : scanClosed (argumentChars d.arguments) =
      some (groupTokens .parenOpen .parenClose tss))
    {ns : List Name} (hns : ns.map Name.text = d.locations) :
    ScansOnly d.chars (descriptionTokens (shownDescription [] d.description) ++
      writtenDirectiveTokens ⟨d.name, hname⟩ tss d.isRepeatable ns) := by
  have hlocations := scanClosed_joinedNames (c := '|') rfl ns scanClosed_nil startsApart_nil
  rw [List.append_nil, List.append_nil, ← map_toList_text, hns] at hlocations
  have htail := scanClosed_directiveTail d.isRepeatable harguments hlocations
  have hapart : StartsApart (argumentChars d.arguments ++
      ((if d.isRepeatable then " repeatable".toList else []) ++ ' ' :: (onName.toList ++ ' ' ::
        joinWith [' ', '|', ' '] (d.locations.map String.toList)))) := by
    refine (startsApart_argumentChars _).append ?_
    cases d.isRepeatable <;> exact startsApart_cons rfl
  have hdirective := (scansOnly_of_scanClosed htail).name_append ⟨d.name, hname⟩ hapart
  rw [DirectiveEntry.chars_eq]
  exact scansOnly_description (by simp) d.description
    ((hdirective.token_cons (c := '@') rfl).space_cons.name_append directiveName
      (startsApart_cons rfl))

/-- A definition of a directive with the outline that is written for this one. -/
def DirectiveEntry.Shows (d : DirectiveEntry) (e : TypeSystemDefinition) : Prop :=
  ∃ w, e = .directive w ∧ w.outline = d.outline.written []

/-- A directive that is read has the outline that it was written with. -/
theorem writesOnly_directive {d : DirectiveEntry} (h : d.Lexical) : WritesOnly d.chars d.Shows := by
  obtain ⟨tss, htss, harguments⟩ := exists_argumentEntries h.arguments
  obtain ⟨ns, hns⟩ := exists_names h.locations
  refine ⟨_, scansOnly_directive h.name harguments hns, startsWritten_descriptionTokens _ rfl _,
    fun rest us e hrest he ↦ ?_⟩
  simp only [writtenDirectiveTokens, List.append_assoc, List.cons_append] at he
  rw [definition_directiveName, directiveDefinition] at he
  obtain ⟨⟨w, vs⟩, hw, hr⟩ := Option.map_eq_some_iff.1 he
  obtain ⟨rfl, rfl⟩ := Prod.mk.inj hr
  rw [bind_of_eq (mark_cons .atSign _), bind_of_eq (name_cons _ _)] at hw
  obtain ⟨ws, us, hws, hw⟩ := exists_of_bind_eq hw
  obtain ⟨hlabels, rfl⟩ := argumentDefinitions_of_entries htss (F := startsItem) rfl rfl
    (by cases d.isRepeatable <;> exact follows_cons rfl _) hws
  have hon (ts : List Token) : keyword "on" (.name onName :: ts) = some ((), ts) :=
    keyword_cons rfl ts
  rw [bind_of_eq (takeKeyword_repeatableTokens _ _), bind_of_eq (hon _)] at hw
  obtain ⟨ls, us, hls, hpure⟩ := exists_of_bind_eq hw
  obtain rfl := eq_of_locations hrest hls
  obtain ⟨rfl, rfl⟩ := Prod.mk.inj (Option.some.inj hpure)
  refine ⟨⟨_, rfl, _, rfl, ?_⟩, rfl⟩
  rw [DirectiveDefinition.outline, hlabels]
  rfl

/-! ## The schema -/

/-- The parser knows no definition that starts with the name of a location. -/
theorem definition_locationName_eq_none (l : DirectiveLocation) (ts : List Token) :
    definition (.name (locationName l) :: ts) = none := by
  have hoperation : operationKind? (locationName l).text = none := by cases l <;> rfl
  have hkind : typeKind? (locationName l).text = none := by cases l <;> rfl
  have hname : (locationName l).text ≠ "fragment" ∧ (locationName l).text ≠ "extend" ∧
      (locationName l).text ≠ "schema" ∧ (locationName l).text ≠ "directive" := by
    cases l <;> decide
  have hnone : typeSystemDefinition none (locationName l) ts = none := by
    rw [typeSystemDefinition, if_neg hname.2.2.1, if_neg hname.2.2.2, hkind]
    rfl
  change definition (descriptionTokens none ++ .name (locationName l) :: ts) = none
  rw [definition_descriptionTokens hoperation hname.1 hname.2.1, hnone, Option.map_none]

theorem startsWritten_of_definition {t : Token} {ts us : List Token} {d : Definition}
    (ht : startsDefinition t = true) (h : definition (t :: ts) = some (d, us)) :
    startsWritten t = true := by
  cases t with
  | name n =>
    rw [startsWritten, Bool.and_eq_true]
    refine ⟨ht, ?_⟩
    rw [Option.isNone_iff_eq_none]
    by_contra hne
    obtain ⟨l, hl⟩ := Option.ne_none_iff_exists'.1 hne
    have hkeyword : l.keyword = n.text := by simpa using List.find?_some hl
    obtain rfl : locationName l = n := Name.ext_text hkeyword
    rw [definition_locationName_eq_none] at h
    cases h
  | string text => rfl
  | _ => cases ht

/-- What is read as it was written is read as that and nothing else. -/
theorem WritesDefinition.writesOnly {cs : List Char} {e : TypeSystemDefinition}
    (h : WritesDefinition cs e) : WritesOnly cs (· = e) := by
  obtain ⟨ts, hscan, ⟨t, us, rfl, ht⟩, hread⟩ := h
  have hnil := hread [] nofun
  rw [List.append_nil] at hnil
  refine ⟨t :: us, scansOnly_of_scanClosed hscan, ⟨t, us, rfl, startsWritten_of_definition ht hnil⟩,
    fun rest vs d hrest hd ↦ ?_⟩
  rw [hread rest (hrest.mono fun _ ↦ startsDefinition_of_startsWritten)] at hd
  obtain ⟨rfl, rfl⟩ := Prod.mk.inj (Option.some.inj hd)
  exact ⟨⟨e, rfl, rfl⟩, rfl⟩

end TypeFootprint.Introspection
