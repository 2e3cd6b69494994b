import TypeFootprint.Proofs.Introspection.Outline
import TypeFootprint.Proofs.Token.Acceptance

/-!
# Items that are accepted

`WritesEntry Next p shown cs x` says of an item that is written as `cs`: whatever the parser `p`
reads there, if it reads anything, is shown as `x`.  Every argument, field and enum value whose
copied texts are what they stand for is written like that, although it may be refused — a default
value may be nested too deep, a quoted string may hold a carriage return — or leave the parser
stuck.
-/

set_option autoImplicit false

namespace TypeFootprint.Introspection

open TypeFootprint.Token TypeFootprint.Parser

/-- The characters of an item, and what is shown of whatever is read there. -/
def WritesEntry {α γ : Type} (Next : List Token → Prop) (p : Parser α) (shown : α → γ)
    (cs : List Char) (x : γ) : Prop :=
  ∃ ts, ScansOnly cs ts ∧ ReadsEntry Next p shown ts x

/-- What may follow an item that has a type. -/
def EndsEntry (ts : List Token) : Prop := endsEntry ts = true

theorem EndsEntry.follows {ts : List Token} (h : EndsEntry ts) : Follows endsItem ts := by
  cases ts with
  | nil => cases h
  | cons t ts =>
    refine follows_cons ?_ ts
    cases t with
    | name n => rfl
    | string text => rfl
    | punctuator p => cases p <;> first | rfl | cases h
    | _ => cases h

theorem EndsEntry.pastCommas_eq {ts : List Token} (h : EndsEntry ts) : pastCommas ts = ts :=
  h.follows.pastCommas_eq rfl

theorem EndsEntry.endsType {ts : List Token} (h : EndsEntry ts) : endsType ts = true := by
  cases ts with
  | nil => cases h
  | cons t ts =>
    cases t with
    | punctuator p => cases p <;> first | exact h | rfl
    | _ => exact h

/-- An item whose name stands before a colon or a parenthesis. -/
theorem endsEntry_descriptionTokens (description : Option String) (n : Name) {p : Punctuator}
    (hp : p = .colon ∨ p = .parenOpen) (ts : List Token) :
    EndsEntry (descriptionTokens description ++ .name n :: .punctuator p :: ts) := by
  cases description with
  | none => obtain rfl | rfl := hp <;> rfl
  | some text => rfl

/-! ## Descriptions and deprecations -/

theorem scansOnly_quotedText (text : String) : ScansOnly (quoted text) [.string text] := by
  have hquoted := scansOnly_quoted text.toList
  rwa [String.ofList_toList] at hquoted

theorem ScansOnly.indent_append {indent cs : List Char} {ts : List Token} (h : ScansOnly cs ts)
    (hindent : ∀ c ∈ indent, c = ' ') : ScansOnly (indent ++ cs) ts :=
  h.append_of_run (run_spaces hindent)

/-- A description is a string on lines of its own. -/
theorem scansOnly_description {indent : List Char} (hindent : ∀ c ∈ indent, c = ' ')
    (description : Option String) {cs : List Char} {us : List Token} (hs : ScansOnly cs us) :
    ScansOnly (descriptionChars indent description ++ cs)
      (descriptionTokens (shownDescription indent description) ++ us) := by
  have happ {ds : List Char} {t : Token} (hds : ScansOnly ds [t]) :
      ScansOnly (indent ++ (ds ++ ['\n']) ++ cs) (t :: us) := by
    rw [List.append_assoc, List.append_assoc, List.singleton_append]
    exact ScansOnly.indent_append (hds.append hs.newline_cons (startsApart_cons rfl)) hindent
  cases description with
  | none => exact hs
  | some text =>
    by_cases hlines : '\n' ∈ text.toList
    · obtain ⟨hchars, hshown⟩ := descriptionChars_lines hlines indent
      rw [hchars, hshown]
      exact happ (scansOnly_of_scanClosed (scanClosed_block hindent text.toList))
    · obtain ⟨hchars, hshown⟩ := descriptionChars_line hlines indent
      rw [hchars, hshown]
      exact happ (scansOnly_quotedText text)

/-- The description of an item stands on the lines before it. -/
theorem scansOnly_item (description : Option String) {cs : List Char} {us : List Token}
    (hs : ScansOnly cs us) :
    ScansOnly (descriptionChars itemIndent description ++ (itemIndent ++ cs))
      (descriptionTokens (shownDescription itemIndent description) ++ us) :=
  scansOnly_description eq_space_of_mem_itemIndent description
    (ScansOnly.indent_append hs eq_space_of_mem_itemIndent)

theorem scansOnly_deprecation (isDeprecated : Bool) (reason : Option String) :
    ScansOnly (deprecationChars isDeprecated reason) (deprecationTokens isDeprecated reason) := by
  cases isDeprecated with
  | false => exact scansOnly_of_scanClosed rfl
  | true =>
    cases reason with
    | none => exact scansOnly_of_scanClosed scanClosed_deprecated
    | some text =>
      have hclose : ScansOnly [')'] [.punctuator .parenClose] := scansOnly_of_scanClosed rfl
      have htext : ScansOnly (quoted text ++ [')']) [.string text, .punctuator .parenClose] :=
        (scansOnly_quotedText text).append hclose (startsApart_cons rfl)
      rw [deprecationChars_reason]
      exact htext.append_of_run run_beforeReason

/-! ## Arguments and input fields -/

/-- A default value is over where it ends, if it is read at all. -/
theorem exists_defaultTokens {default? : Option String}
    (h : ∀ text ∈ default?, ∃ depth, (constant? depth text).isSome = true) :
    ∃ ds, scanClosed (defaultChars default?) = some ds ∧
      ∀ rest, EndsEntry (pastCommas rest) →
        endsType (pastCommas (ds ++ rest)) = true ∧
        ∀ us vs v?, pastCommas us = pastCommas (ds ++ rest) → defaultValue us = some (v?, vs) →
          pastCommas vs = pastCommas rest := by
  cases default? with
  | none =>
    refine ⟨[], rfl, fun rest hrest ↦ ⟨hrest.endsType, fun us vs v? hus hread ↦ ?_⟩⟩
    have hus : pastCommas us = pastCommas rest := hus
    rw [defaultValue_of_follows (F := endsItem) (hus ▸ hrest.follows) rfl] at hread
    obtain ⟨-, rfl⟩ : none = v? ∧ pastCommas us = vs := by simpa using hread
    rw [pastCommas_pastCommas, hus]
  | some text =>
    obtain ⟨depth, hdepth⟩ := h text rfl
    obtain ⟨v, hv⟩ := Option.isSome_iff_exists.1 hdepth
    obtain ⟨ts, hscan, hvalue⟩ := exists_of_constant? hv
    refine ⟨.punctuator .equals :: ts, ?_, fun rest _ ↦ ⟨rfl, fun us vs v? hus hread ↦ ?_⟩⟩
    · rw [defaultChars, scanClosed_space_cons]
      refine scanClosed_token_cons rfl ?_
      rwa [scanClosed_space_cons]
    · have hus : pastCommas us = .punctuator .equals :: (ts ++ rest) := hus
      rw [defaultValue, bind_of_eq (takeMark_of_pastCommas hus)] at hread
      obtain ⟨w, ws, hw, hread⟩ := exists_of_bind_eq hread
      obtain ⟨-, rfl⟩ : some w = v? ∧ ws = vs := by simpa [pure_eq] using hread
      have hvalue := hvalue []
      rw [List.append_nil] at hvalue
      rw [(eq_of_value_append hvalue hw).2]

/-- What is read from the tokens of an argument or of an input field, and from the commas behind
them, has this name and the description before it. -/
def ReadsInput (n : Name) (ts : List Token) : Prop :=
  ∀ (shown : Option String) ⦃rest us : List Token⦄ ⦃w : InputValue⦄, EndsEntry (pastCommas rest) →
    inputValue (descriptionTokens shown ++ .name n :: .punctuator .colon :: (ts ++ rest)) =
      some (w, us) →
    w.label = ⟨n.text, shown⟩ ∧ us = pastCommas rest ∨ Stuck us

theorem exists_readsInput {v : InputEntry} (h : v.Lexical) :
    ∃ ts, scanClosed (inputChars v) = some (.name ⟨v.name, h.name⟩ :: .punctuator .colon :: ts) ∧
      ReadsInput ⟨v.name, h.name⟩ ts := by
  obtain ⟨ds, hscan, hdefault⟩ := exists_defaultTokens h.defaultValue
  have hname : (⟨v.name, h.name⟩ : Name).toList = v.name.toList := rfl
  refine ⟨v.type.tokens ++ ds, ?_, fun shown rest us w hrest hread ↦ ?_⟩
  · rw [inputChars_eq, ← hname]
    exact scanClosed_name_append _ (scanClosed_colon_cons (scanClosed_append
      (Reference.scanClosed_render h.type) hscan (startsApart_defaultChars _)))
      (startsApart_cons rfl)
  · obtain ⟨hends, hdefault⟩ := hdefault rest hrest
    rw [List.append_assoc, inputValue, bind_of_eq (takeString_descriptionTokens shown _ _),
      bind_of_eq (name_cons _ _), bind_of_eq (mark_cons .colon _)] at hread
    obtain ⟨t, vs, htype, hread⟩ := exists_of_bind_eq hread
    obtain hvs | hstuck := typeRef_of_reference htype hends
    · obtain ⟨v?, ws, hvalue, hread⟩ := exists_of_bind_eq hread
      have hws := hdefault vs ws v? hvs hvalue
      have hdirectives : outerDirectives true ws = some ([], pastCommas ws) :=
        outerDirectives_of_follows (F := endsItem) (hws ▸ hrest.follows) rfl
      rw [bind_of_eq hdirectives, pure_eq, hws] at hread
      obtain ⟨rfl, rfl⟩ := Prod.mk.inj (Option.some.inj hread)
      exact .inl ⟨rfl, rfl⟩
    · rw [bind_of_eq (defaultValue_of_follows hstuck.follows rfl),
        bind_of_eq (outerDirectives_of_follows hstuck.pastCommas.follows rfl), pure_eq] at hread
      obtain ⟨rfl, rfl⟩ := Prod.mk.inj (Option.some.inj hread)
      exact .inr hstuck.pastCommas.pastCommas

/-- An input field with its description. -/
theorem writesEntry_inputField {v : InputEntry} (h : v.Lexical) :
    WritesEntry EndsEntry inputValue InputValue.outline (inputFieldChars v)
      (v.outline.written itemIndent) := by
  obtain ⟨ts, hscan, hread⟩ := exists_readsInput h
  refine ⟨descriptionTokens (shownDescription itemIndent v.description) ++ .name ⟨v.name, h.name⟩ ::
    .punctuator .colon :: ts, ?_, startsItem_descriptionTokens _ _ _, fun rest ↦ ?_,
    fun rest us w hrest hw ↦ ?_⟩
  · rw [inputFieldChars, List.append_assoc]
    exact scansOnly_item v.description (scansOnly_of_scanClosed hscan)
  · rw [List.append_assoc]
    exact endsEntry_descriptionTokens _ _ (.inl rfl) _
  · rw [List.append_assoc] at hw
    obtain ⟨hlabel, rfl⟩ | hstuck := hread _ (by rwa [hrest.pastCommas_eq]) hw
    · exact .inl ⟨by rw [InputValue.outline, hlabel]; rfl, hrest.pastCommas_eq⟩
    · exact .inr hstuck

theorem ReadsInput.readsEntry {n : Name} {ts : List Token} (h : ReadsInput n ts) :
    ReadsEntry EndsEntry inputValue InputValue.label (.name n :: .punctuator .colon :: ts)
      ⟨n.text, none⟩ where
  starts := ⟨_, _, rfl, rfl⟩
  next _ := rfl
  reads rest us w hrest hw := by
    have hread := h none (by rwa [hrest.pastCommas_eq]) hw
    rwa [hrest.pastCommas_eq] at hread

/-- The comma behind an argument is read with it. -/
theorem ReadsInput.readsEntry_comma {n : Name} {ts : List Token} (h : ReadsInput n ts) :
    ReadsEntry EndsEntry inputValue InputValue.label
      (.name n :: .punctuator .colon :: (ts ++ [.comma])) ⟨n.text, none⟩ where
  starts := ⟨_, _, rfl, rfl⟩
  next _ := rfl
  reads rest us w hrest hw := by
    simp only [List.cons_append, List.append_assoc, List.nil_append] at hw
    have hread := h none (by rwa [pastCommas_comma_cons, hrest.pastCommas_eq]) hw
    rwa [pastCommas_comma_cons, hrest.pastCommas_eq] at hread

/-- Arguments with commas between them. -/
theorem exists_joinedEntries {vs : List InputEntry} (h : ∀ v ∈ vs, v.Lexical) :
    ∃ tss, List.Forall₂ (ReadsEntry EndsEntry inputValue InputValue.label) tss
        ((vs.map InputEntry.label).map Label.bare) ∧
      ∀ cs us, scanClosed cs = some us → StartsApart cs →
        scanClosed (joinWith [',', ' '] (vs.map inputChars) ++ cs) = some (tss.flatten ++ us) := by
  induction vs with
  | nil => exact ⟨[], .nil, fun cs us hcs _ ↦ hcs⟩
  | cons v vs ih =>
    obtain ⟨ts, hscan, hread⟩ := exists_readsInput (h v (.head _))
    obtain ⟨tss, htss, hjoin⟩ := ih fun u hu ↦ h u (.tail _ hu)
    cases vs with
    | nil =>
      cases htss
      refine ⟨_, .cons hread.readsEntry .nil, fun cs us hcs hapart ↦ ?_⟩
      rw [List.flatten_cons, List.flatten_nil, List.append_nil]
      exact scanClosed_append hscan hcs hapart
    | cons v' vs =>
      refine ⟨_, .cons hread.readsEntry_comma htss, fun cs us hcs hapart ↦ ?_⟩
      have hcomma : scanClosed (',' :: ' ' :: (joinWith [',', ' '] ((v' :: vs).map inputChars) ++
          cs)) = some (.comma :: (tss.flatten ++ us)) := by
        refine scanClosed_token_cons rfl ?_
        rw [scanClosed_space_cons]
        exact hjoin cs us hcs hapart
      have hall := scanClosed_append hscan hcomma (startsApart_cons rfl)
      simpa [joinWith] using hall

/-- Arguments in parentheses. -/
theorem exists_argumentEntries {vs : List InputEntry} (h : ∀ v ∈ vs, v.Lexical) :
    ∃ tss, List.Forall₂ (ReadsEntry EndsEntry inputValue InputValue.label) tss
        ((vs.map InputEntry.label).map Label.bare) ∧
      scanClosed (argumentChars vs) = some (groupTokens .parenOpen .parenClose tss) := by
  obtain ⟨tss, htss, hjoin⟩ := exists_joinedEntries h
  refine ⟨tss, htss, ?_⟩
  cases vs with
  | nil =>
    cases htss
    rfl
  | cons v vs =>
    cases htss
    exact scanClosed_token_cons rfl (hjoin [')'] _ rfl (startsApart_cons rfl))

/-- No argument starts with a mark. -/
theorem inputValue_eq_none_of_stuck {us : List Token} (h : Stuck us) : inputValue us = none :=
  describedName_eq_none h

/-- Whatever arguments are read are those that were written. -/
theorem argumentDefinitions_of_entries {tss : List (List Token)} {labels : List Label}
    (h : List.Forall₂ (ReadsEntry EndsEntry inputValue InputValue.label) tss labels)
    {F : Token → Bool} (hcomma : F .comma = false) (hopen : F (.punctuator .parenOpen) = false)
    {rest us : List Token} (hrest : Follows F rest) {ws : List InputValue}
    (hread : argumentDefinitions (groupTokens .parenOpen .parenClose tss ++ rest) =
      some (ws, us)) :
    ws.map InputValue.label = labels ∧ us = rest := by
  have hnext (ts : List Token) : EndsEntry (.punctuator .parenClose :: ts) := rfl
  exact optionalGroup_of_entries h hnext (fun _ ↦ inputValue_eq_none_of_stuck) rfl hcomma hopen
    hrest hread

/-! ## Fields and enum values -/

theorem endsEntry_field (shown : Option String) (n : Name) (tss : List (List Token))
    (ts : List Token) :
    EndsEntry (descriptionTokens shown ++ .name n :: (groupTokens .parenOpen .parenClose tss ++
      .punctuator .colon :: ts)) := by
  rw [groupTokens]
  split
  · exact endsEntry_descriptionTokens shown n (.inl rfl) _
  · exact endsEntry_descriptionTokens shown n (.inr rfl) _

theorem endsType_deprecationTokens (isDeprecated : Bool) (reason : Option String)
    {rest : List Token} (h : EndsEntry rest) :
    endsType (pastCommas (deprecationTokens isDeprecated reason ++ rest)) = true := by
  cases isDeprecated with
  | false =>
    rw [deprecationTokens, if_neg Bool.false_ne_true, List.nil_append, h.pastCommas_eq]
    exact h.endsType
  | true => rfl

/-- A field of an object type or of an interface. -/
theorem writesEntry_field {f : FieldEntry} (h : f.Lexical) :
    WritesEntry EndsEntry fieldDefinition FieldDefinition.outline (fieldChars f)
      (f.outline.written itemIndent) := by
  obtain ⟨tss, htss, harguments⟩ := exists_argumentEntries h.arguments
  let shown := shownDescription itemIndent f.description
  let ds := deprecationTokens f.isDeprecated f.deprecationReason
  refine ⟨descriptionTokens shown ++ .name ⟨f.name, h.name⟩ ::
      (groupTokens .parenOpen .parenClose tss ++ .punctuator .colon :: (f.type.tokens ++ ds)),
    ?_, startsItem_descriptionTokens _ _ _, fun rest ↦ ?_, fun rest us w hrest hread ↦ ?_⟩
  · have htype : ScansOnly (f.type.render.toList ++
        deprecationChars f.isDeprecated f.deprecationReason) (f.type.tokens ++ ds) :=
      (scansOnly_of_scanClosed (Reference.scanClosed_render h.type)).append
        (scansOnly_deprecation _ _) (startsApart_deprecationChars _ _)
    have htail := (scansOnly_of_scanClosed harguments).append
      (htype.space_cons.token_cons (c := ':') rfl) (startsApart_cons rfl)
    have hname := htail.name_append ⟨f.name, h.name⟩
      ((startsApart_argumentChars _).append (startsApart_cons rfl))
    rw [fieldChars_eq]
    exact scansOnly_item f.description hname
  · simp only [List.append_assoc, List.cons_append]
    exact endsEntry_field _ _ _ _
  · simp only [List.append_assoc, List.cons_append] at hread
    rw [fieldDefinition, bind_of_eq (takeString_descriptionTokens shown _ _),
      bind_of_eq (name_cons _ _)] at hread
    obtain ⟨ws, vs, hws, hread⟩ := exists_of_bind_eq hread
    obtain ⟨hlabels, rfl⟩ := argumentDefinitions_of_entries htss (F := (· == .punctuator .colon))
      rfl rfl (follows_cons rfl _) hws
    rw [bind_of_eq (mark_cons .colon _)] at hread
    obtain ⟨t, vs, htype, hread⟩ := exists_of_bind_eq hread
    obtain hvs | hstuck := typeRef_of_reference htype
      (endsType_deprecationTokens f.isDeprecated f.deprecationReason hrest)
    · rw [bind_of_eq (outerDirectives_deprecation _ _ hvs hrest.follows), pure_eq] at hread
      obtain ⟨rfl, rfl⟩ := Prod.mk.inj (Option.some.inj hread)
      exact .inl ⟨by rw [FieldDefinition.outline, hlabels]; rfl, rfl⟩
    · rw [bind_of_eq (outerDirectives_of_follows hstuck.follows rfl), pure_eq] at hread
      obtain ⟨rfl, rfl⟩ := Prod.mk.inj (Option.some.inj hread)
      exact .inr hstuck.pastCommas

/-- A value of an enum type; it is refused if its name is reserved. -/
theorem writesEntry_enumValue {v : EnumEntry} (h : isName v.name.toList = true) :
    WritesEntry (Follows endsItem) enumValue EnumValue.outline (enumValueChars v)
      (v.outline.written itemIndent) := by
  let shown := shownDescription itemIndent v.description
  let ds := deprecationTokens v.isDeprecated v.deprecationReason
  refine ⟨descriptionTokens shown ++ .name ⟨v.name, h⟩ :: ds, ?_,
    startsItem_descriptionTokens _ _ _, fun rest ↦ ?_, fun rest us w hrest hread ↦ ?_⟩
  · have hname := (scansOnly_deprecation v.isDeprecated v.deprecationReason).name_append ⟨v.name, h⟩
      (startsApart_deprecationChars _ _)
    rw [enumValueChars, List.append_assoc, List.append_assoc]
    exact scansOnly_item v.description hname
  · obtain ⟨t, us, hts, ht⟩ := startsItem_descriptionTokens shown ⟨v.name, h⟩ ds
    rw [hts]
    exact follows_cons (endsItem_of_startsItem ht) _
  · rw [List.append_assoc, List.cons_append, enumValue,
      bind_of_eq (takeString_descriptionTokens shown _ _), bind_of_eq (name_cons _ _)] at hread
    split at hread
    · rw [bind_of_eq (outerDirectives_deprecation _ _ rfl hrest), pure_eq] at hread
      obtain ⟨rfl, rfl⟩ := Prod.mk.inj (Option.some.inj hread)
      exact .inl ⟨rfl, rfl⟩
    · cases hread

/-! ## Lists in braces -/

/-- Items in braces, each on a line. -/
theorem exists_bodyEntries {α γ : Type} {Next : List Token → Prop} {p : Parser α} {shown : α → γ}
    {css : List (List Char)} {xs : List γ} (h : List.Forall₂ (WritesEntry Next p shown) css xs) :
    ∃ tss, List.Forall₂ (ReadsEntry Next p shown) tss xs ∧
      ScansOnly (bodyChars css) (groupTokens .braceOpen .braceClose tss) := by
  have hlines : ∃ tss, List.Forall₂ (ReadsEntry Next p shown) tss xs ∧
      ScansOnly (css.flatMap (fun item ↦ item ++ ['\n']) ++ ['}'])
        (tss.flatten ++ [.punctuator .braceClose]) := by
    induction h with
    | nil => exact ⟨[], .nil, scansOnly_of_scanClosed rfl⟩
    | @cons cs x css xs hcs _ ih =>
      obtain ⟨ts, hscan, hread⟩ := hcs
      obtain ⟨tss, htss, hrest⟩ := ih
      refine ⟨ts :: tss, .cons hread htss, ?_⟩
      rw [List.flatMap_cons, List.append_assoc, List.append_assoc, List.singleton_append,
        List.flatten_cons, List.append_assoc]
      exact hscan.append hrest.newline_cons (startsApart_cons rfl)
  obtain ⟨tss, htss, hscan⟩ := hlines
  refine ⟨tss, htss, ?_⟩
  cases h with
  | nil =>
    cases htss
    exact scansOnly_of_scanClosed rfl
  | cons hcs hcss =>
    cases htss
    rw [bodyChars, List.isEmpty_cons, if_neg Bool.false_ne_true, List.append_assoc]
    exact (hscan.newline_cons.token_cons rfl).space_cons

end TypeFootprint.Introspection
