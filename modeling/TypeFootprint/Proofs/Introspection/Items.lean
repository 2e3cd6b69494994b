import TypeFootprint.Grammar.TypeSystem
import TypeFootprint.Proofs.Introspection.Correspondence
import TypeFootprint.Proofs.Lists

/-!
# Arguments, fields and enum values are read as they were written

`Writes p cs a` says that the characters `cs` are scanned to the tokens of an item that the parser
`p` reads as `a`.  Every well-formed argument, field and enum value is written so that it is read as
something that corresponds to it, and so are lists of them: arguments in parentheses, with commas
between them, and the items of a type in braces, each on a line.
-/

set_option autoImplicit false

namespace TypeFootprint.Introspection

open TypeFootprint.Token TypeFootprint.Parser

/-- The characters of an item, and what it is read as. -/
def Writes {α : Type} (p : Parser α) (cs : List Char) (a : α) : Prop :=
  ∃ ts, scanClosed cs = some ts ∧ ReadsItem p ts a

/-! ## Descriptions -/

theorem isQuotable_of_isText {text : String} (h : isText text = true) :
    IsQuotable text.toList := by
  intro c hc
  have hchar := List.all_eq_true.1 h c hc
  rintro rfl
  exact absurd hchar (by decide)

theorem scanClosed_quotedText {text : String} (h : isText text = true) :
    scanClosed (quoted text) = some [.string text] := by
  have hquoted := scanClosed_quoted (isQuotable_of_isText h)
  rwa [String.ofList_toList] at hquoted

/-- What stands behind a name, a colon and a space. -/
theorem scanClosed_colon_cons {cs : List Char} {us : List Token} (h : scanClosed cs = some us) :
    scanClosed (':' :: ' ' :: cs) = some (.punctuator .colon :: us) := by
  refine scanClosed_token_cons rfl ?_
  rwa [scanClosed_space_cons]

theorem scanClosed_indent_append {indent : List Char} (h : ∀ c ∈ indent, c = ' ')
    (cs : List Char) : scanClosed (indent ++ cs) = scanClosed cs := by
  induction indent with
  | nil => rfl
  | cons c indent ih =>
    obtain rfl := h c (.head _)
    rw [List.cons_append, scanClosed_space_cons, ih fun d hd ↦ h d (.tail _ hd)]

theorem eq_space_of_mem_itemIndent : ∀ c ∈ itemIndent, c = ' ' := by simp [itemIndent]

/-- A text of one line stands between quotes. -/
theorem descriptionChars_line {text : String} (h : '\n' ∉ text.toList) (indent : List Char) :
    descriptionChars indent (some text) = indent ++ (quoted text ++ ['\n']) ∧
      shownDescription indent (some text) = some text := by
  have hcontains : text.toList.contains '\n' = false := by simpa using h
  rw [descriptionChars, shownDescription, Option.map_some, hcontains, if_neg Bool.false_ne_true,
    if_neg Bool.false_ne_true, List.append_assoc]
  exact ⟨rfl, rfl⟩

/-- A text of several lines stands in a block string. -/
theorem descriptionChars_lines {text : String} (h : '\n' ∈ text.toList) (indent : List Char) :
    descriptionChars indent (some text) =
        indent ++ ((tripleQuote ++ blockText indent text.toList ++ tripleQuote) ++ ['\n']) ∧
      shownDescription indent (some text) =
        some (String.ofList (Block.value (blockText indent text.toList))) := by
  have hcontains : text.toList.contains '\n' = true := by simpa using h
  rw [descriptionChars, shownDescription, Option.map_some, if_pos hcontains, if_pos hcontains]
  exact ⟨by simp [blockText], rfl⟩

/-- A description is a string on lines of its own. -/
theorem scanClosed_description {indent : List Char} (hindent : ∀ c ∈ indent, c = ' ')
    {description : Option String} (hd : description.all isText = true) {cs : List Char}
    {us : List Token} (hs : scanClosed cs = some us) :
    scanClosed (descriptionChars indent description ++ cs) =
      some (descriptionTokens (shownDescription indent description) ++ us) := by
  have hline : scanClosed ('\n' :: cs) = some us := by rwa [scanClosed_newline_cons]
  have happ {ds : List Char} {t : Token} (hds : scanClosed ds = some [t]) :
      scanClosed (indent ++ (ds ++ ['\n']) ++ cs) = some (t :: us) := by
    rw [List.append_assoc, List.append_assoc, List.singleton_append,
      scanClosed_indent_append hindent]
    exact scanClosed_append hds hline (startsApart_cons rfl)
  cases description with
  | none => exact hs
  | some text =>
    by_cases hlines : '\n' ∈ text.toList
    · obtain ⟨hchars, hshown⟩ := descriptionChars_lines hlines indent
      rw [hchars, hshown]
      exact happ (scanClosed_block hindent text.toList)
    · obtain ⟨hchars, hshown⟩ := descriptionChars_line hlines indent
      rw [hchars, hshown]
      exact happ (scanClosed_quotedText hd)

/-- The description of an item stands on the lines before it, as far to the right as the item. -/
theorem scanClosed_item {description : Option String} (hd : description.all isText = true)
    {cs : List Char} {us : List Token} (hs : scanClosed cs = some us) :
    scanClosed (descriptionChars itemIndent description ++ (itemIndent ++ cs)) =
      some (descriptionTokens (shownDescription itemIndent description) ++ us) := by
  refine scanClosed_description eq_space_of_mem_itemIndent hd ?_
  rwa [scanClosed_indent_append eq_space_of_mem_itemIndent]

/-! ## Deprecations -/

/-- The tokens of a reason. -/
def reasonTokens (text : String) : List Token :=
  [.name reasonName, .punctuator .colon, .string text]

/-- The tokens of the directive of something that may be deprecated. -/
def deprecationTokens (isDeprecated : Bool) (reason : Option String) : List Token :=
  if isDeprecated then
    .punctuator .atSign :: .name deprecatedName ::
      groupTokens .parenOpen .parenClose (reason.map reasonTokens).toList
  else []

theorem startsApart_deprecationChars (isDeprecated : Bool) (reason : Option String) :
    StartsApart (deprecationChars isDeprecated reason) := by
  cases isDeprecated with
  | false => exact startsApart_nil
  | true => cases reason <;> exact startsApart_cons rfl

/-- What stands before the text of a reason. -/
theorem run_beforeReason :
    run .between " @deprecated(reason: ".toList = some ([.punctuator .atSign, .name deprecatedName,
      .punctuator .parenOpen, .name reasonName, .punctuator .colon], .between) := rfl

theorem deprecationChars_reason (text : String) :
    deprecationChars true (some text) =
      " @deprecated(reason: ".toList ++ (quoted text ++ [')']) := by
  rw [deprecationChars, if_pos rfl, List.append_assoc]

/-- Without a reason there are no parentheses. -/
theorem scanClosed_deprecated :
    scanClosed (deprecationChars true none) = some (deprecationTokens true none) := by
  rw [show deprecationChars true none = ' ' :: '@' :: deprecatedName.toList from rfl,
    scanClosed_space_cons]
  exact scanClosed_token_cons rfl (scanClosed_name deprecatedName)

theorem scanClosed_deprecation (isDeprecated : Bool) {reason : Option String}
    (hreason : reason.all isText = true) :
    scanClosed (deprecationChars isDeprecated reason) =
      some (deprecationTokens isDeprecated reason) := by
  cases isDeprecated with
  | false => rfl
  | true =>
    cases reason with
    | none => exact scanClosed_deprecated
    | some text =>
      have hclose : scanClosed [')'] = some [.punctuator .parenClose] := rfl
      have htext : scanClosed (quoted text ++ [')']) = some [.string text, .punctuator .parenClose] :=
        scanClosed_append (scanClosed_quotedText hreason) hclose (startsApart_cons rfl)
      rw [deprecationChars_reason]
      exact scanClosed_append_of_run run_beforeReason htext

/-- The argument of a deprecation. -/
theorem readsItem_reason (text : String) :
    ReadsItem (argument true maxDepth) (reasonTokens text) ⟨reasonName, .string text⟩ where
  starts := ⟨_, _, rfl, rfl⟩
  reads rest _ := by
    have hvalue : value true maxDepth (.string text :: rest) = some (.string text, rest) := rfl
    rw [reasonTokens, List.cons_append, List.cons_append, List.singleton_append, argument,
      bind_of_eq (name_cons reasonName _), bind_of_eq (mark_cons .colon _), bind_of_eq hvalue,
      pure_eq]

/-- A deprecation is read back, behind commas that were left over. -/
theorem outerDirectives_deprecation (isDeprecated : Bool) (reason : Option String)
    {us rest : List Token}
    (hus : pastCommas us = pastCommas (deprecationTokens isDeprecated reason ++ rest))
    (hrest : Follows endsItem rest) :
    outerDirectives true us = some (deprecation isDeprecated reason, rest) := by
  have hpast : pastCommas rest = rest := hrest.pastCommas_eq rfl
  cases isDeprecated with
  | false =>
    have hus : pastCommas us = rest := by rwa [deprecationTokens, if_neg (by simp), List.nil_append,
      hpast] at hus
    rw [outerDirectives_of_follows (F := endsItem) (by rwa [hus]) rfl, hus]
    rfl
  | true =>
    have hreason : List.Forall₂ (ReadsItem (argument true maxDepth))
        (reason.map reasonTokens).toList
        (reason.map fun text ↦ (⟨reasonName, .string text⟩ : Argument)).toList := by
      cases reason with
      | none => exact .nil
      | some text => exact .cons (readsItem_reason text) .nil
    have harguments : arguments true maxDepth
        (groupTokens .parenOpen .parenClose (reason.map reasonTokens).toList ++ rest) = _ :=
      optionalGroup_of_forall₂ hreason rfl rfl rfl rest hrest
    have hdirective : directive true maxDepth (deprecationTokens true reason ++ rest) =
        some (⟨deprecatedName, (reason.map fun text ↦ ⟨reasonName, .string text⟩).toList⟩,
          rest) := by
      rw [deprecationTokens, if_pos rfl, List.cons_append, List.cons_append, directive,
        bind_of_eq (mark_cons .atSign _), bind_of_eq (name_cons deprecatedName _),
        bind_of_eq harguments, pure_eq]
    have hread := whileStarts_of_item (F := endsItem) hus (by simp) hdirective
      (by rwa [hpast]) rfl
    rwa [hpast] at hread

/-! ## Arguments and input fields -/

/-- The default value of an input, behind its mark. -/
def defaultChars : Option String → List Char
  | some value => ' ' :: '=' :: ' ' :: value.toList
  | none => []

theorem inputChars_eq (v : InputEntry) :
    inputChars v = v.name.toList ++
      (':' :: ' ' :: (v.type.render.toList ++ defaultChars v.defaultValue)) := by
  rw [inputChars]
  cases v.defaultValue <;> simp [defaultChars]

theorem startsApart_defaultChars (default? : Option String) :
    StartsApart (defaultChars default?) := by
  cases default? with
  | none => exact startsApart_nil
  | some text => exact startsApart_cons rfl

/-- Whether a token may follow the type of an input. -/
def followsInputType (t : Token) : Bool := t == .punctuator .equals || endsItem t

/-- A constant is written as a default value that is read as this constant. -/
theorem exists_default {default? : Option String}
    (h : default?.all (fun text ↦ (constant? maxDepth text).isSome) = true) :
    ∃ (v? : Option Value) (ts : List Token),
      default?.map (constant? maxDepth) = v?.map some ∧
      scanClosed (defaultChars default?) = some ts ∧
      ∀ us rest, pastCommas us = pastCommas (ts ++ rest) → Follows endsItem (pastCommas rest) →
        Follows followsInputType (pastCommas us) ∧
        ∃ vs, defaultValue us = some (v?, vs) ∧ pastCommas vs = pastCommas rest := by
  cases default? with
  | none =>
    refine ⟨none, [], rfl, rfl, fun us rest hus hrest ↦ ?_⟩
    have hus : pastCommas us = pastCommas rest := hus
    refine ⟨?_, pastCommas us, ?_, by rw [pastCommas_pastCommas, hus]⟩
    · rw [hus]
      exact hrest.mono fun t ht ↦ by simp [followsInputType, ht]
    · exact defaultValue_of_follows (F := endsItem) (by rwa [hus]) rfl
  | some text =>
    obtain ⟨v, hv⟩ := Option.isSome_iff_exists.1 (show (constant? maxDepth text).isSome from h)
    obtain ⟨ts, hscan, hread⟩ := exists_of_constant? hv
    refine ⟨some v, .punctuator .equals :: ts, congrArg some hv, ?_, fun us rest hus _ ↦ ?_⟩
    · rw [defaultChars, scanClosed_space_cons]
      refine scanClosed_token_cons rfl ?_
      rwa [scanClosed_space_cons]
    · have hus : pastCommas us = .punctuator .equals :: (ts ++ rest) := hus
      refine ⟨?_, rest, defaultValue_of_equals hus (hread rest), rfl⟩
      rw [hus]
      exact follows_cons rfl _

/-- An argument or an input field is read as it was written, whatever description stands before
it. -/
theorem exists_inputValue {v : InputEntry} (h : v.WellFormed maxDepth) :
    ∃ (w : InputValue) (ts : List Token), v.ReadAs none w ∧
      scanClosed (inputChars v) = some (.name w.name :: ts) ∧
      ∀ shown, ReadsPastCommas inputValue (descriptionTokens shown ++ .name w.name :: ts)
        { w with description := shown } := by
  obtain ⟨t, htype, -⟩ := Reference.exists_typeRef h.type
  obtain ⟨hrender, hdepth⟩ := Reference.toList_render htype
  obtain ⟨v?, ds, hv, hscan, hdefault⟩ := exists_default h.defaultValue
  have hname : (⟨v.name, h.name⟩ : Name).toList = v.name.toList := rfl
  refine ⟨⟨none, ⟨v.name, h.name⟩, t, v?, []⟩, .punctuator .colon :: (t.tokens ++ ds),
    ⟨rfl, rfl, htype, hv, rfl⟩, ?_, fun shown ↦ ⟨startsItem_descriptionTokens _ _ _, ?_⟩⟩
  · rw [inputChars_eq, ← hname, hrender]
    exact scanClosed_name_append _ (scanClosed_colon_cons
      (scanClosed_append t.scanClosed_chars hscan (startsApart_defaultChars _)))
      (startsApart_cons rfl)
  · intro rest hrest
    obtain ⟨hfollows, -⟩ := hdefault (ds ++ rest) rest rfl hrest
    obtain ⟨us, htypeRef, hus⟩ := typeRef_tokens (hdepth ▸ h.typeDepth) hfollows rfl
    obtain ⟨-, vs, hvalue, hvs⟩ := hdefault us rest hus hrest
    have hdirectives : outerDirectives true vs = some ([], pastCommas vs) :=
      outerDirectives_of_follows (F := endsItem) (by rwa [hvs]) rfl
    rw [List.append_assoc, List.cons_append, List.cons_append, List.append_assoc, inputValue,
      bind_of_eq (takeString_descriptionTokens shown _ _), bind_of_eq (name_cons _ _),
      bind_of_eq (mark_cons .colon _), bind_of_eq htypeRef, bind_of_eq hvalue,
      bind_of_eq hdirectives, pure_eq, hvs]

/-- An input field with its description. -/
theorem exists_writes_inputField {v : InputEntry} (h : v.WellFormed maxDepth) :
    ∃ w, v.ReadAsField w ∧ Writes inputValue (inputFieldChars v) w := by
  obtain ⟨w, ts, hw, hscan, hread⟩ := exists_inputValue h
  refine ⟨{ w with description := shownDescription itemIndent v.description },
    ⟨rfl, hw.name, hw.type, hw.defaultValue, hw.directives⟩, _, ?_, (hread _).readsItem⟩
  rw [inputFieldChars, List.append_assoc]
  exact scanClosed_item h.description hscan

/-- Arguments with commas between them. -/
theorem exists_joined_arguments {vs : List InputEntry} (h : ∀ v ∈ vs, v.WellFormed maxDepth) :
    ∃ ws tss, List.Forall₂ (InputEntry.ReadAs none) vs ws ∧
      List.Forall₂ (ReadsItem inputValue) tss ws ∧
      ∀ cs us, scanClosed cs = some us → StartsApart cs →
        scanClosed (joinWith [',', ' '] (vs.map inputChars) ++ cs) = some (tss.flatten ++ us) := by
  induction vs with
  | nil => exact ⟨[], [], .nil, .nil, fun cs us hcs _ ↦ hcs⟩
  | cons v vs ih =>
    obtain ⟨w, ts, hw, hscan, hread⟩ := exists_inputValue (h v (.head _))
    have hread : ReadsPastCommas inputValue (.name w.name :: ts) w := by
      have hnone := hread none
      rwa [show ({ w with description := none } : InputValue) = w by rw [← hw.description]] at hnone
    obtain ⟨ws, tss, hws, htss, hjoin⟩ := ih fun u hu ↦ h u (.tail _ hu)
    cases vs with
    | nil =>
      cases hws
      cases htss
      refine ⟨[w], [.name w.name :: ts], .cons hw .nil, .cons hread.readsItem .nil,
        fun cs us hcs hapart ↦ ?_⟩
      rw [List.flatten_cons, List.flatten_nil, List.append_nil]
      exact scanClosed_append hscan hcs hapart
    | cons v' vs =>
      -- The comma behind an argument is read with it.
      refine ⟨w :: ws, (.name w.name :: ts ++ [.comma]) :: tss, .cons hw hws,
        .cons hread.readsItem_comma htss, fun cs us hcs hapart ↦ ?_⟩
      have hcomma : scanClosed (',' :: ' ' :: (joinWith [',', ' '] ((v' :: vs).map inputChars) ++
          cs)) = some (.comma :: (tss.flatten ++ us)) := by
        refine scanClosed_token_cons rfl ?_
        rw [scanClosed_space_cons]
        exact hjoin cs us hcs hapart
      have hall := scanClosed_append hscan hcomma (startsApart_cons rfl)
      simpa [joinWith] using hall

/-- Arguments in parentheses. -/
theorem exists_arguments {vs : List InputEntry} (h : ∀ v ∈ vs, v.WellFormed maxDepth) :
    ∃ ws tss, List.Forall₂ (InputEntry.ReadAs none) vs ws ∧
      List.Forall₂ (ReadsItem inputValue) tss ws ∧
      scanClosed (argumentChars vs) = some (groupTokens .parenOpen .parenClose tss) := by
  obtain ⟨ws, tss, hws, htss, hjoin⟩ := exists_joined_arguments h
  refine ⟨ws, tss, hws, htss, ?_⟩
  cases hws with
  | nil =>
    cases htss
    rfl
  | cons hw hws =>
    cases htss
    exact scanClosed_token_cons rfl (hjoin [')'] _ rfl (startsApart_cons rfl))

theorem startsApart_argumentChars (vs : List InputEntry) : StartsApart (argumentChars vs) := by
  cases vs with
  | nil => exact startsApart_nil
  | cons v vs => exact startsApart_cons rfl

/-! ## Fields and enum values -/

theorem fieldChars_eq (f : FieldEntry) :
    fieldChars f = descriptionChars itemIndent f.description ++ (itemIndent ++
      (f.name.toList ++ (argumentChars f.arguments ++ ':' :: ' ' :: (f.type.render.toList ++
        deprecationChars f.isDeprecated f.deprecationReason)))) := by
  simp [fieldChars]

/-- The type of a field and its deprecation. -/
theorem scanClosed_fieldType (t : TypeRef) (isDeprecated : Bool) {reason : Option String}
    (hreason : reason.all isText = true) :
    scanClosed (':' :: ' ' :: (t.chars ++ deprecationChars isDeprecated reason)) =
      some (.punctuator .colon :: (t.tokens ++ deprecationTokens isDeprecated reason)) :=
  scanClosed_colon_cons (scanClosed_append t.scanClosed_chars
    (scanClosed_deprecation _ hreason) (startsApart_deprecationChars _ _))

/-- A field of an object type or of an interface. -/
theorem exists_writes_field {f : FieldEntry} (h : f.WellFormed maxDepth) :
    ∃ w, f.ReadAs w ∧ Writes fieldDefinition (fieldChars f) w := by
  obtain ⟨t, htype, -⟩ := Reference.exists_typeRef h.type
  obtain ⟨hrender, hdepth⟩ := Reference.toList_render htype
  obtain ⟨ws, tss, hws, htss, harguments⟩ := exists_arguments h.arguments
  let shown := shownDescription itemIndent f.description
  let ds := deprecationTokens f.isDeprecated f.deprecationReason
  refine ⟨⟨shown, ⟨f.name, h.name⟩, ws, t, deprecation f.isDeprecated f.deprecationReason⟩,
    ⟨rfl, rfl, hws, htype, rfl⟩,
    descriptionTokens shown ++ .name ⟨f.name, h.name⟩ ::
      (groupTokens .parenOpen .parenClose tss ++ .punctuator .colon :: (t.tokens ++ ds)),
    ?_, startsItem_descriptionTokens _ _ _, fun rest hrest ↦ ?_⟩
  · have htail := scanClosed_append harguments (scanClosed_fieldType t f.isDeprecated h.reason)
      (startsApart_cons rfl)
    rw [fieldChars_eq, hrender]
    exact scanClosed_item h.description (scanClosed_name_append ⟨f.name, h.name⟩ htail
      ((startsApart_argumentChars _).append (startsApart_cons rfl)))
  · have hpast : pastCommas rest = rest := hrest.pastCommas_eq rfl
    have hds : Follows (fun t ↦ t == .punctuator .atSign || endsItem t)
        (pastCommas (ds ++ rest)) := by
      simp only [ds, deprecationTokens]
      split
      · exact follows_cons rfl _
      · rw [List.nil_append, hpast]
        exact hrest.mono fun t ht ↦ by simp [ht]
    obtain ⟨us, htypeRef, hus⟩ := typeRef_tokens (hdepth ▸ h.typeDepth) hds rfl
    have hgroup : argumentDefinitions (groupTokens .parenOpen .parenClose tss ++
        .punctuator .colon :: (t.tokens ++ (ds ++ rest))) = _ :=
      optionalGroup_of_forall₂ htss rfl (F := (· == .punctuator .colon)) rfl rfl _
        (follows_cons rfl _)
    rw [List.append_assoc, List.cons_append, List.append_assoc, List.cons_append,
      List.append_assoc, fieldDefinition, bind_of_eq (takeString_descriptionTokens shown _ _),
      bind_of_eq (name_cons _ _), bind_of_eq hgroup, bind_of_eq (mark_cons .colon _),
      bind_of_eq htypeRef, bind_of_eq (outerDirectives_deprecation _ _ hus hrest), pure_eq]

theorem isEnumName_of_reserved {n : Name}
    (h : n.text ≠ "true" ∧ n.text ≠ "false" ∧ n.text ≠ "null") : isEnumName n = true := by
  simp [isEnumName, h]

/-- A value of an enum type. -/
theorem exists_writes_enumValue {v : EnumEntry} (h : v.WellFormed) :
    ∃ w, v.ReadAs w ∧ Writes enumValue (enumValueChars v) w := by
  let shown := shownDescription itemIndent v.description
  let ds := deprecationTokens v.isDeprecated v.deprecationReason
  refine ⟨⟨shown, ⟨v.name, h.name⟩, deprecation v.isDeprecated v.deprecationReason⟩,
    ⟨rfl, rfl, rfl⟩, descriptionTokens shown ++ .name ⟨v.name, h.name⟩ :: ds, ?_,
    startsItem_descriptionTokens _ _ _, fun rest hrest ↦ ?_⟩
  · have hall := scanClosed_name_append ⟨v.name, h.name⟩ (scanClosed_deprecation _ h.reason)
      (startsApart_deprecationChars v.isDeprecated v.deprecationReason)
    rw [enumValueChars, List.append_assoc, List.append_assoc]
    exact scanClosed_item h.description hall
  · rw [List.append_assoc, List.cons_append, enumValue,
      bind_of_eq (takeString_descriptionTokens shown _ _), bind_of_eq (name_cons _ _),
      if_pos (isEnumName_of_reserved h.reserved),
      bind_of_eq (outerDirectives_deprecation _ _ rfl hrest), pure_eq]

/-! ## Lists in braces -/

theorem startsApart_bodyChars (items : List (List Char)) : StartsApart (bodyChars items) := by
  cases items with
  | nil => exact startsApart_nil
  | cons item items => exact startsApart_cons rfl

/-- Items in braces, each on a line. -/
theorem exists_body {α : Type} {p : Parser α} {css : List (List Char)} {as : List α}
    (h : List.Forall₂ (Writes p) css as) :
    ∃ tss, List.Forall₂ (ReadsItem p) tss as ∧
      scanClosed (bodyChars css) = some (groupTokens .braceOpen .braceClose tss) := by
  have hlines : ∃ tss, List.Forall₂ (ReadsItem p) tss as ∧
      scanClosed (css.flatMap (fun item ↦ item ++ ['
']) ++ ['}']) =
        some (tss.flatten ++ [.punctuator .braceClose]) := by
    induction h with
    | nil => exact ⟨[], .nil, rfl⟩
    | @cons cs a css as hcs _ ih =>
      obtain ⟨ts, hscan, hread⟩ := hcs
      obtain ⟨tss, htss, hrest⟩ := ih
      refine ⟨ts :: tss, .cons hread htss, ?_⟩
      rw [List.flatMap_cons, List.append_assoc, List.append_assoc, List.singleton_append,
        List.flatten_cons, List.append_assoc]
      refine scanClosed_append hscan ?_ (startsApart_cons rfl)
      rwa [scanClosed_newline_cons]
  obtain ⟨tss, htss, hscan⟩ := hlines
  refine ⟨tss, htss, ?_⟩
  cases h with
  | nil =>
    cases htss
    rfl
  | cons hcs hcss =>
    cases htss
    rw [bodyChars, List.isEmpty_cons, if_neg Bool.false_ne_true, List.append_assoc]
    change scanClosed (' ' :: '{' :: '\n' :: _) = _
    rw [scanClosed_space_cons]
    refine scanClosed_token_cons rfl ?_
    rwa [scanClosed_newline_cons]

end TypeFootprint.Introspection
