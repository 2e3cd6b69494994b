import TypeFootprint.Grammar.Document
import TypeFootprint.Proofs.Introspection.Items

/-!
# Types are read as they were written

`WritesDefinition cs d` says that the characters `cs` are scanned to tokens that are read as the
definition `d`, whatever definition follows.  A type without items has nothing behind its name that
would end it, so what follows matters: it must not look like the items that are missing.
-/

set_option autoImplicit false

namespace TypeFootprint.Introspection

open TypeFootprint.Token TypeFootprint.Parser

/-- Whether a token may start a definition.  All keywords may but the one that comes behind the name
of a type. -/
def startsDefinition : Token → Bool
  | .string _ => true
  | .name n => n.text != "implements"
  | _ => false

/-- The tokens of a definition, and what it is read as. -/
structure ReadsDefinition (ts : List Token) (d : TypeSystemDefinition) : Prop where
  starts : ∃ t us, ts = t :: us ∧ startsDefinition t = true
  reads : Reads startsDefinition definition ts (.typeSystem d)

/-- The characters of a definition, and what it is read as. -/
def WritesDefinition (cs : List Char) (d : TypeSystemDefinition) : Prop :=
  ∃ ts, scanClosed cs = some ts ∧ ReadsDefinition ts d

/-! ## Keywords -/

/-- A definition of the type system is behind its description what its keyword makes of it. -/
theorem definition_descriptionTokens {description : Option String} {start : Name}
    (hoperation : operationKind? start.text = none) (hfragment : start.text ≠ "fragment")
    (hextend : start.text ≠ "extend") (ts : List Token) :
    definition (descriptionTokens description ++ .name start :: ts) =
      (typeSystemDefinition description start ts).map fun r ↦ (.typeSystem r.1, r.2) := by
  cases description with
  | none =>
    have hpeek : peek (.name start :: ts) = some (some (.name start), .name start :: ts) := rfl
    change definition (.name start :: ts) = _
    rw [definition, bind_of_eq hpeek]
    change (name >>= namedDefinition) _ = _
    rw [bind_of_eq (name_cons start ts), namedDefinition, hoperation]
    change (if start.text = "fragment" then _ else _ : Parser Definition) ts = _
    rw [if_neg hfragment, if_neg hextend]
    exact bind_pure_eq_map _ _ ts
  | some text =>
    have hpeek : peek (.string text :: .name start :: ts) =
        some (some (.string text), .string text :: .name start :: ts) := rfl
    have hnext : next (.string text :: .name start :: ts) =
        some (.string text, .name start :: ts) := rfl
    have hcomma : noComma (.name start :: ts) = some ((), .name start :: ts) := rfl
    change definition (.string text :: .name start :: ts) = _
    rw [definition, bind_of_eq hpeek]
    change (next >>= fun _ ↦ noComma >>= fun _ ↦ name >>= fun start ↦
      typeSystemDefinition (some text) start >>= fun d ↦ pure (Definition.typeSystem d)) _ = _
    rw [bind_of_eq hnext, bind_of_eq hcomma, bind_of_eq (name_cons start ts)]
    exact bind_pure_eq_map _ _ ts

/-- The keyword of a kind of type. -/
def kindName : TypeKind → Name
  | .scalar => BuiltIn.named "scalar" (Eq.refl true)
  | .object => BuiltIn.named "type" (Eq.refl true)
  | .interface => BuiltIn.named "interface" (Eq.refl true)
  | .union => BuiltIn.named "union" (Eq.refl true)
  | .enum => BuiltIn.named "enum" (Eq.refl true)
  | .inputObject => BuiltIn.named "input" (Eq.refl true)

theorem toList_keyword (b : EntryBody) : b.keyword.toList = (kindName b.kind).toList ++ [' '] := by
  cases b <;> simp [EntryBody.keyword, EntryBody.kind, kindName, BuiltIn.named, Name.toList]

theorem startsDefinition_kindName (kind : TypeKind) :
    startsDefinition (.name (kindName kind)) = true := by
  cases kind <;> rfl

theorem typeSystemDefinition_kindName (description : Option String) (kind : TypeKind)
    (ts : List Token) :
    typeSystemDefinition description (kindName kind) ts =
      (typeDefinition description kind ts).map fun r ↦ (.type r.1, r.2) := by
  have hschema : (kindName kind).text ≠ "schema" := by cases kind <;> decide
  have hdirective : (kindName kind).text ≠ "directive" := by cases kind <;> decide
  have hkind : typeKind? (kindName kind).text = some kind := by cases kind <;> rfl
  rw [typeSystemDefinition, if_neg hschema, if_neg hdirective, hkind]
  exact bind_pure_eq_map _ _ ts

/-- A type, behind its description and its keyword. -/
theorem definition_kindName (description : Option String) (kind : TypeKind) (ts : List Token) :
    definition (descriptionTokens description ++ .name (kindName kind) :: ts) =
      (typeDefinition description kind ts).map fun r ↦ (.typeSystem (.type r.1), r.2) := by
  rw [definition_descriptionTokens (by cases kind <;> rfl) (by cases kind <;> decide)
    (by cases kind <;> decide), typeSystemDefinition_kindName, Option.map_map]
  rfl

/-! ## Lists of names -/

theorem exists_names {texts : List String} (h : ∀ text ∈ texts, isName text.toList = true) :
    ∃ ns : List Name, ns.map Name.text = texts := by
  induction texts with
  | nil => exact ⟨[], rfl⟩
  | cons text texts ih =>
    obtain ⟨ns, hns⟩ := ih fun t ht ↦ h t (.tail _ ht)
    exact ⟨⟨text, h text (.head _)⟩ :: ns, by rw [List.map_cons, hns]⟩

theorem map_toList_text (ns : List Name) :
    (ns.map Name.text).map String.toList = ns.map Name.toList := List.map_map

/-- Names with a mark between each two. -/
theorem scanClosed_joinedNames {c : Char} {p : Punctuator}
    (hc : start c = some ([.punctuator p], .between)) (ns : List Name) {cs : List Char}
    {us : List Token} (hcs : scanClosed cs = some us) (hapart : StartsApart cs) :
    scanClosed (joinWith [' ', c, ' '] (ns.map Name.toList) ++ cs) =
      some (separatedTokens p ns ++ us) := by
  induction ns with
  | nil => exact hcs
  | cons n ns ih =>
    cases ns with
    | nil => exact scanClosed_name_append n hcs hapart
    | cons m ns =>
      have hmark : scanClosed (' ' :: c :: ' ' ::
          (joinWith [' ', c, ' '] ((m :: ns).map Name.toList) ++ cs)) =
          some (.punctuator p :: (separatedTokens p (m :: ns) ++ us)) := by
        rw [scanClosed_space_cons]
        refine scanClosed_token_cons hc ?_
        rwa [scanClosed_space_cons]
      have hall := scanClosed_name_append n hmark (startsApart_cons rfl)
      simpa [joinWith, separatedTokens, behindMark] using hall

theorem readsName_forall₂ (ns : List Name) :
    List.Forall₂ (fun n a ↦ ∀ rest, name (.name n :: rest) = some (a, rest)) ns ns :=
  List.forall₂_same.2 fun n _ rest ↦ name_cons n rest

theorem startsApart_nameListChars {first : String}
    (h : first.toList.head?.map isApart = some true) (between : String) (names : List String) :
    StartsApart (nameListChars first between names) := by
  rw [nameListChars]
  split
  · exact startsApart_nil
  · obtain ⟨c, hc, hapart⟩ := Option.map_eq_some_iff.1 h
    obtain ⟨cs, hcs⟩ := List.head?_eq_some_iff.1 hc
    rw [hcs]
    exact startsApart_cons hapart

/-- The keyword before the interfaces of a type. -/
def implementsName : Name := BuiltIn.named "implements" (Eq.refl true)

/-- The tokens of the interfaces of a type. -/
def interfaceTokens (is : List Name) : List Token :=
  if is.isEmpty then [] else .name implementsName :: separatedTokens .ampersand is

theorem scanClosed_interfaces (is : List Name) {cs : List Char} {us : List Token}
    (hcs : scanClosed cs = some us) (hapart : StartsApart cs) :
    scanClosed (nameListChars " implements " " & " (is.map Name.text) ++ cs) =
      some (interfaceTokens is ++ us) := by
  cases is with
  | nil => exact hcs
  | cons i is =>
    have hnames := scanClosed_joinedNames (c := '&') rfl (i :: is) hcs hapart
    rw [show nameListChars " implements " " & " ((i :: is).map Name.text) ++ cs =
        ' ' :: (implementsName.toList ++ ' ' ::
          (joinWith [' ', '&', ' '] ((i :: is).map Name.toList) ++ cs)) by
      rw [nameListChars, map_toList_text]
      simp [implementsName, BuiltIn.named, Name.toList],
      scanClosed_space_cons]
    refine scanClosed_name_append _ ?_ (startsApart_cons rfl)
    rwa [scanClosed_space_cons]

/-- Whether a token may follow the interfaces of a type. -/
def followsInterfaces (t : Token) : Bool := t == .punctuator .braceOpen || startsDefinition t

theorem interfaces_interfaceTokens (is : List Name) :
    Reads followsInterfaces interfaces (interfaceTokens is) is := by
  intro rest hrest
  rw [interfaces, interfaceTokens]
  cases is with
  | nil =>
    have hpast : pastCommas rest = rest := hrest.pastCommas_eq rfl
    -- A definition that follows starts with a keyword, but not with this one.
    have htake : takeKeyword "implements" rest = some (false, rest) := by
      have := takeIf_of_follows (q := isKeyword "implements") (F := followsInterfaces)
        (by rwa [hpast]) fun t ht ↦ by
          cases t <;> simp_all [followsInterfaces, startsDefinition, isKeyword]
      rwa [hpast] at this
    rw [List.isEmpty_nil, if_pos rfl, List.nil_append, bind_of_eq htake]
    rfl
  | cons i is =>
    have htake (ts : List Token) : takeKeyword "implements" (.name implementsName :: ts) =
        some (true, ts) := takeKeyword_cons rfl ts
    rw [List.isEmpty_cons, if_neg Bool.false_ne_true, List.cons_append, bind_of_eq (htake _)]
    exact separated_of_forall₂ (readsName_forall₂ (i :: is)) (List.cons_ne_nil _ _) rfl rfl rest
      hrest

/-- The tokens of the members of a union. -/
def memberTokens (ms : List Name) : List Token :=
  if ms.isEmpty then [] else .punctuator .equals :: separatedTokens .pipe ms

theorem scanClosed_members (ms : List Name) :
    scanClosed (nameListChars " = " " | " (ms.map Name.text)) = some (memberTokens ms) := by
  cases ms with
  | nil => rfl
  | cons m ms =>
    have hnames := scanClosed_joinedNames (c := '|') rfl (m :: ms) scanClosed_nil startsApart_nil
    rw [List.append_nil, List.append_nil] at hnames
    rw [show nameListChars " = " " | " ((m :: ms).map Name.text) =
        ' ' :: '=' :: ' ' :: joinWith [' ', '|', ' '] ((m :: ms).map Name.toList) by
      rw [nameListChars, map_toList_text]
      simp, scanClosed_space_cons]
    refine scanClosed_token_cons rfl ?_
    rwa [scanClosed_space_cons]

theorem members_memberTokens (ms : List Name) :
    Reads startsDefinition members (memberTokens ms) ms := by
  intro rest hrest
  rw [members, memberTokens]
  cases ms with
  | nil =>
    have hpast : pastCommas rest = rest := hrest.pastCommas_eq rfl
    rw [List.isEmpty_nil, if_pos rfl, List.nil_append,
      bind_of_eq (takeMark_of_follows (F := startsDefinition) (by rwa [hpast]) rfl), hpast]
    rfl
  | cons m ms =>
    rw [List.isEmpty_cons, if_neg Bool.false_ne_true, List.cons_append,
      bind_of_eq (takeMark_cons .equals _)]
    exact separated_of_forall₂ (readsName_forall₂ (m :: ms)) (List.cons_ne_nil _ _) rfl rfl rest
      hrest

/-! ## Types -/

/-- No directives before what may follow the name and the interfaces of a type. -/
theorem outerDirectives_nil {F : Token → Bool} {rest : List Token} (h : Follows F rest)
    (hcomma : F .comma = false) (hat : F (.punctuator .atSign) = false) :
    outerDirectives true rest = some ([], rest) := by
  have hpast := h.pastCommas_eq hcomma
  have hpastFollows : Follows F (pastCommas rest) := by rwa [hpast]
  rw [outerDirectives_of_follows hpastFollows hat, hpast]

theorem follows_groupTokens (tss : List (List Token)) {rest : List Token}
    (h : Follows startsDefinition rest) :
    Follows followsInterfaces (groupTokens .braceOpen .braceClose tss ++ rest) := by
  rw [groupTokens]
  split
  · exact h.mono fun t ht ↦ by simp [followsInterfaces, ht]
  · exact follows_cons rfl _

/-- What a body writes behind the name of its type, and what is read from it. -/
def WritesBody (b : EntryBody) (w : TypeBody) : Prop :=
  ∃ ts, scanClosed b.chars = some ts ∧ Reads startsDefinition (typeBody b.kind) ts ([], w)

/-- Items in braces behind the name of a type, and what is read from them. -/
theorem exists_groupBody {α : Type} {item : Parser α} {css : List (List Char)} {as : List α}
    (h : List.Forall₂ (Writes item) css as) :
    ∃ ts, scanClosed (bodyChars css) = some ts ∧ ∀ rest, Follows startsDefinition rest →
      Follows followsInterfaces (ts ++ rest) ∧
      outerDirectives true (ts ++ rest) = some ([], ts ++ rest) ∧
      optionalGroup .braceOpen .braceClose item (ts ++ rest) = some (as, rest) := by
  obtain ⟨tss, htss, hscan⟩ := exists_body h
  refine ⟨_, hscan, fun rest hrest ↦ ?_⟩
  have hgroup := follows_groupTokens tss hrest
  exact ⟨hgroup, outerDirectives_nil hgroup rfl rfl,
    optionalGroup_of_forall₂ htss rfl rfl rfl rest hrest⟩

/-- Interfaces and fields, as object types and interfaces have them. -/
theorem exists_fieldsBody (make : List Name → List FieldDefinition → TypeBody) (is : List Name)
    {fields : List FieldEntry} {ws : List FieldDefinition}
    (h : List.Forall₂ (Writes fieldDefinition) (fields.map fieldChars) ws) :
    ∃ ts, scanClosed (nameListChars " implements " " & " (is.map Name.text) ++
        bodyChars (fields.map fieldChars)) = some ts ∧
      Reads startsDefinition (do
        let is ← interfaces
        let ds ← outerDirectives true
        let fs ← fieldDefinitions
        return (ds, make is fs)) ts ([], make is ws) := by
  obtain ⟨ts, hscan, hread⟩ := exists_groupBody h
  refine ⟨_, scanClosed_interfaces is hscan (startsApart_bodyChars _), fun rest hrest ↦ ?_⟩
  obtain ⟨hfollows, hdirectives, hfields⟩ := hread rest hrest
  have hinterfaces := interfaces_interfaceTokens is _ hfollows
  rw [List.append_assoc, bind_of_eq hinterfaces, bind_of_eq hdirectives, fieldDefinitions,
    bind_of_eq hfields, pure_eq]

/-- Items and nothing else, as enum types and input types have them. -/
theorem exists_itemsBody {α : Type} {item : Parser α} (make : List α → TypeBody)
    {css : List (List Char)} {as : List α} (h : List.Forall₂ (Writes item) css as) :
    ∃ ts, scanClosed (bodyChars css) = some ts ∧
      Reads startsDefinition (do
        let ds ← outerDirectives true
        let items ← optionalGroup .braceOpen .braceClose item
        return (ds, make items)) ts ([], make as) := by
  obtain ⟨ts, hscan, hread⟩ := exists_groupBody h
  refine ⟨ts, hscan, fun rest hrest ↦ ?_⟩
  obtain ⟨-, hdirectives, hitems⟩ := hread rest hrest
  rw [bind_of_eq hdirectives, bind_of_eq hitems, pure_eq]

theorem writesBody_scalar : WritesBody .scalar .scalar := by
  refine ⟨[], rfl, fun rest hrest ↦ ?_⟩
  change (outerDirectives true >>= fun ds ↦ pure (ds, TypeBody.scalar)) rest = _
  rw [bind_of_eq (outerDirectives_nil hrest rfl rfl), pure_eq]

theorem writesBody_union (ms : List Name) : WritesBody (.union (ms.map Name.text)) (.union ms) := by
  refine ⟨_, scanClosed_members ms, fun rest hrest ↦ ?_⟩
  have hmembers := members_memberTokens ms rest hrest
  have hfollows : Follows (fun t ↦ t == .punctuator .equals || startsDefinition t)
      (memberTokens ms ++ rest) := by
    rw [memberTokens]
    split
    · exact hrest.mono fun t ht ↦ by simp [ht]
    · exact follows_cons rfl _
  change (outerDirectives true >>= fun ds ↦ members >>= fun ms ↦ pure (ds, TypeBody.union ms)) _ = _
  rw [bind_of_eq (outerDirectives_nil hfollows rfl rfl), bind_of_eq hmembers, pure_eq]

/-- A body is read as it was written. -/
theorem exists_writesBody {b : EntryBody} (h : b.WellFormed maxDepth) :
    ∃ w, b.ReadAs w ∧ WritesBody b w := by
  cases b with
  | scalar => exact ⟨_, .scalar, writesBody_scalar⟩
  | object fields interfaces =>
    obtain ⟨hfields, -, hnames, -⟩ := h
    obtain ⟨is, rfl⟩ := exists_names hnames
    obtain ⟨ws, hws, hwrites⟩ := exists_forall₂ fun f hf ↦ exists_writes_field (hfields f hf)
    exact ⟨_, .object hws, exists_fieldsBody .object is hwrites⟩
  | interface fields interfaces =>
    obtain ⟨hfields, -, hnames, -⟩ := h
    obtain ⟨is, rfl⟩ := exists_names hnames
    obtain ⟨ws, hws, hwrites⟩ := exists_forall₂ fun f hf ↦ exists_writes_field (hfields f hf)
    exact ⟨_, .interface hws, exists_fieldsBody .interface is hwrites⟩
  | union possibleTypes =>
    obtain ⟨ms, rfl⟩ := exists_names h.1
    exact ⟨_, .union, writesBody_union ms⟩
  | enum values =>
    obtain ⟨ws, hws, hwrites⟩ := exists_forall₂ fun v hv ↦ exists_writes_enumValue (h.1 v hv)
    exact ⟨_, .enum hws, exists_itemsBody .enum hwrites⟩
  | inputObject fields =>
    obtain ⟨ws, hws, hwrites⟩ := exists_forall₂ fun v hv ↦ exists_writes_inputField (h.1 v hv)
    exact ⟨_, .inputObject hws, exists_itemsBody .inputObject hwrites⟩

theorem startsApart_chars (b : EntryBody) : StartsApart b.chars := by
  cases b with
  | scalar => exact startsApart_nil
  | object fields interfaces =>
    exact (startsApart_nameListChars (by decide) _ _).append
      (startsApart_bodyChars _)
  | interface fields interfaces =>
    exact (startsApart_nameListChars (by decide) _ _).append
      (startsApart_bodyChars _)
  | union possibleTypes =>
    exact startsApart_nameListChars (by decide) _ _
  | enum values => exact startsApart_bodyChars _
  | inputObject fields => exact startsApart_bodyChars _

theorem startsDefinition_descriptionTokens (description : Option String) {n : Name}
    (hn : startsDefinition (.name n) = true) (ts : List Token) :
    ∃ t us, descriptionTokens description ++ .name n :: ts = t :: us ∧
      startsDefinition t = true := by
  cases description with
  | none => exact ⟨_, _, rfl, hn⟩
  | some text => exact ⟨_, _, rfl, rfl⟩

/-- A type is read as it was written. -/
theorem exists_writesType {t : TypeEntry} (h : t.WellFormed maxDepth) :
    ∃ w, t.ReadAs w ∧ WritesDefinition t.chars (.type w) := by
  obtain ⟨w, hw, ts, hscan, hread⟩ := exists_writesBody h.body
  refine ⟨⟨shownDescription [] t.description, ⟨t.name, h.name⟩, [], w⟩, ⟨rfl, rfl, rfl, hw⟩,
    descriptionTokens (shownDescription [] t.description) ++ .name (kindName t.body.kind) ::
      .name ⟨t.name, h.name⟩ :: ts,
    ?_, startsDefinition_descriptionTokens _ (startsDefinition_kindName _) _, fun rest hrest ↦ ?_⟩
  · have hbody := scanClosed_name_append ⟨t.name, h.name⟩ hscan (startsApart_chars t.body)
    rw [TypeEntry.chars, toList_keyword, List.append_assoc, List.append_assoc, List.append_assoc]
    refine scanClosed_description (by simp) h.description ?_
    refine scanClosed_name_append _ ?_ (startsApart_cons rfl)
    rwa [List.singleton_append, scanClosed_space_cons]
  · rw [List.append_assoc, List.cons_append, List.cons_append, definition_kindName, typeDefinition,
      bind_of_eq (name_cons _ _), bind_of_eq (hread rest hrest)]
    rfl

end TypeFootprint.Introspection
