import TypeFootprint.Proofs.Introspection.Definitions

/-!
# Directives and the schema are read as they were written

A directive always has something behind its name, its locations, and a schema definition ends with a
brace, so neither can be taken for the start of what follows.
-/

set_option autoImplicit false

namespace TypeFootprint.Introspection

open TypeFootprint.Token TypeFootprint.Parser

/-! ## Directives -/

/-- The name that a location is written as. -/
def locationName (l : DirectiveLocation) : Name := ⟨l.keyword, by cases l <;> decide⟩

theorem ofKeyword?_keyword (l : DirectiveLocation) :
    DirectiveLocation.ofKeyword? l.keyword = some l := by
  cases l <;> rfl

theorem exists_locations {texts : List String}
    (h : ∀ text ∈ texts, (DirectiveLocation.ofKeyword? text).isSome = true) :
    ∃ ls : List DirectiveLocation, ls.map DirectiveLocation.keyword = texts := by
  induction texts with
  | nil => exact ⟨[], rfl⟩
  | cons text texts ih =>
    obtain ⟨ls, hls⟩ := ih fun t ht ↦ h t (.tail _ ht)
    obtain ⟨l, hl⟩ := Option.isSome_iff_exists.1 (h text (.head _))
    have hkeyword : l.keyword = text := by simpa using List.find?_some hl
    exact ⟨l :: ls, by rw [List.map_cons, hkeyword, hls]⟩

theorem readsLocation_forall₂ (ls : List DirectiveLocation) :
    List.Forall₂ (fun n a ↦ ∀ rest, directiveLocation (.name n :: rest) = some (a, rest))
      (ls.map locationName) ls := by
  rw [List.forall₂_map_left_iff]
  refine List.forall₂_same.2 fun l _ rest ↦ ?_
  have hkeyword : DirectiveLocation.ofKeyword? (locationName l).text = some l :=
    ofKeyword?_keyword l
  rw [directiveLocation, bind_of_eq (name_cons _ rest), hkeyword]
  rfl

/-- The keyword of a directive. -/
def directiveName : Name := BuiltIn.named "directive" (Eq.refl true)

/-- The keyword of a directive that may be repeated. -/
def repeatableName : Name := BuiltIn.named "repeatable" (Eq.refl true)

/-- The keyword before the locations of a directive. -/
def onName : Name := BuiltIn.named "on" (Eq.refl true)

/-- The tokens that say whether a directive may be repeated. -/
def repeatableTokens (isRepeatable : Bool) : List Token :=
  if isRepeatable then [.name repeatableName] else []

/-- A directive, behind its description and its keyword. -/
theorem definition_directiveName (description : Option String) (ts : List Token) :
    definition (descriptionTokens description ++ .name directiveName :: ts) =
      (directiveDefinition description ts).map fun r ↦ (.typeSystem (.directive r.1), r.2) := by
  have hname : directiveName.text = "directive" := rfl
  rw [definition_descriptionTokens rfl (by decide) (by decide), typeSystemDefinition,
    if_neg (by decide), if_pos hname, bind_pure_eq_map, Option.map_map]
  rfl

theorem takeKeyword_repeatableTokens (isRepeatable : Bool) (ts : List Token) :
    takeKeyword "repeatable" (repeatableTokens isRepeatable ++ .name onName :: ts) =
      some (isRepeatable, .name onName :: ts) := by
  cases isRepeatable with
  | false =>
    refine takeIf_of_follows (F := (· == .name onName)) (follows_cons (by simp) ts) fun t ht ↦ ?_
    obtain rfl : t = .name onName := by simpa using ht
    rfl
  | true => exact takeKeyword_cons rfl _

/-- What a directive writes behind its name. -/
theorem scanClosed_directiveTail {ds cs : List Char} {us vs : List Token} (isRepeatable : Bool)
    (hds : scanClosed ds = some us) (hcs : scanClosed cs = some vs) :
    scanClosed (ds ++ ((if isRepeatable then " repeatable".toList else []) ++
        ' ' :: (onName.toList ++ ' ' :: cs))) =
      some (us ++ (repeatableTokens isRepeatable ++ .name onName :: vs)) := by
  have hon : scanClosed (' ' :: (onName.toList ++ ' ' :: cs)) = some (.name onName :: vs) := by
    rw [scanClosed_space_cons]
    refine scanClosed_name_append _ ?_ (startsApart_cons rfl)
    rwa [scanClosed_space_cons]
  have hrepeatable : scanClosed (if isRepeatable then " repeatable".toList else []) =
      some (repeatableTokens isRepeatable) := by
    cases isRepeatable with
    | false => rfl
    | true =>
      rw [if_pos rfl, show " repeatable".toList = ' ' :: repeatableName.toList by decide,
        scanClosed_space_cons]
      exact scanClosed_name repeatableName
  refine scanClosed_append hds (scanClosed_append hrepeatable hon (startsApart_cons rfl)) ?_
  cases isRepeatable <;> exact startsApart_cons rfl

theorem DirectiveEntry.chars_eq (d : DirectiveEntry) :
    d.chars = descriptionChars [] d.description ++ (directiveName.toList ++
      ' ' :: '@' :: (d.name.toList ++ (argumentChars d.arguments ++
        ((if d.isRepeatable then " repeatable".toList else []) ++ ' ' :: (onName.toList ++ ' ' ::
          joinWith [' ', '|', ' '] (d.locations.map String.toList)))))) := by
  have hdirective : "directive @".toList = directiveName.toList ++ [' ', '@'] := by decide
  have hon : " on ".toList = ' ' :: (onName.toList ++ [' ']) := by decide
  rw [chars, hdirective, hon]
  simp only [List.append_assoc, List.cons_append, List.nil_append]

/-- The tokens of a directive. -/
def directiveTokens (shown : Option String) (n : Name) (tss : List (List Token))
    (isRepeatable : Bool) (ls : List DirectiveLocation) : List Token :=
  descriptionTokens shown ++ .name directiveName :: .punctuator .atSign :: .name n ::
    (groupTokens .parenOpen .parenClose tss ++
      (repeatableTokens isRepeatable ++ .name onName ::
        separatedTokens .pipe (ls.map locationName)))

theorem scanClosed_directive {d : DirectiveEntry} {tss : List (List Token)}
    {ls : List DirectiveLocation} (hname : isName d.name.toList = true)
    (hdescription : d.description.all isText = true)
    (harguments : scanClosed (argumentChars d.arguments) =
      some (groupTokens .parenOpen .parenClose tss))
    (hls : ls.map DirectiveLocation.keyword = d.locations) :
    scanClosed d.chars = some (directiveTokens (shownDescription [] d.description)
      ⟨d.name, hname⟩ tss d.isRepeatable ls) := by
  have htexts : d.locations.map String.toList = (ls.map locationName).map Name.toList := by
    rw [← hls, List.map_map, List.map_map]
    rfl
  have hlocations := scanClosed_joinedNames (c := '|') rfl (ls.map locationName) scanClosed_nil
    startsApart_nil
  rw [List.append_nil, List.append_nil] at hlocations
  have htail := scanClosed_directiveTail d.isRepeatable harguments hlocations
  have hapart : StartsApart (argumentChars d.arguments ++
      ((if d.isRepeatable then " repeatable".toList else []) ++ ' ' :: (onName.toList ++ ' ' ::
        joinWith [' ', '|', ' '] ((ls.map locationName).map Name.toList)))) := by
    refine (startsApart_argumentChars _).append ?_
    cases d.isRepeatable <;> exact startsApart_cons rfl
  rw [DirectiveEntry.chars_eq, htexts]
  refine scanClosed_description (by simp) hdescription ?_
  refine scanClosed_name_append _ ?_ (startsApart_cons rfl)
  rw [scanClosed_space_cons]
  exact scanClosed_token_cons rfl (scanClosed_name_append ⟨d.name, hname⟩ htail hapart)

theorem reads_directiveTokens (shown : Option String) (n : Name) {tss : List (List Token)}
    {ws : List InputValue} (htss : List.Forall₂ (ReadsItem inputValue) tss ws)
    (isRepeatable : Bool) {ls : List DirectiveLocation} (hne : ls ≠ []) :
    Reads startsDefinition definition (directiveTokens shown n tss isRepeatable ls)
      (.typeSystem (.directive ⟨shown, n, ws, isRepeatable, ls⟩)) := by
  intro rest hrest
  have hgroup : argumentDefinitions (groupTokens .parenOpen .parenClose tss ++
      (repeatableTokens isRepeatable ++ .name onName ::
        (separatedTokens .pipe (ls.map locationName) ++ rest))) =
      some (ws, repeatableTokens isRepeatable ++ .name onName ::
        (separatedTokens .pipe (ls.map locationName) ++ rest)) := by
    refine optionalGroup_of_forall₂ htss rfl (F := startsItem) rfl rfl _ ?_
    cases isRepeatable <;> exact follows_cons rfl _
  have hlocations : separated .pipe directiveLocation
      (separatedTokens .pipe (ls.map locationName) ++ rest) = some (ls, rest) :=
    separated_of_forall₂ (readsLocation_forall₂ ls) (by simpa using hne) rfl rfl rest hrest
  have hon (ts : List Token) : keyword "on" (.name onName :: ts) = some ((), ts) :=
    keyword_cons rfl ts
  simp only [directiveTokens, List.append_assoc, List.cons_append]
  rw [definition_directiveName, directiveDefinition, bind_of_eq (mark_cons .atSign _),
    bind_of_eq (name_cons n _), bind_of_eq hgroup,
    bind_of_eq (takeKeyword_repeatableTokens _ _), bind_of_eq (hon _),
    bind_of_eq hlocations, pure_eq, Option.map_some]

/-- A directive is read as it was written. -/
theorem exists_writesDirective {d : DirectiveEntry} (h : d.WellFormed maxDepth) :
    ∃ w, d.ReadAs w ∧ WritesDefinition d.chars (.directive w) := by
  obtain ⟨ws, tss, hws, htss, harguments⟩ := exists_arguments h.arguments
  obtain ⟨ls, hls⟩ := exists_locations h.locations
  have hne : ls ≠ [] := by
    rintro rfl
    exact h.someLocation hls.symm
  exact ⟨⟨shownDescription [] d.description, ⟨d.name, h.name⟩, ws, d.isRepeatable, ls⟩,
    ⟨rfl, rfl, hws, rfl, hls⟩, _, scanClosed_directive h.name h.description harguments hls,
    startsDefinition_descriptionTokens _ rfl _, reads_directiveTokens _ _ htss _ hne⟩

/-! ## The schema -/

/-- The root types that are given, with the kinds of operation that they are for. -/
def Result.givenRoots (r : Result) : List (OperationKind × String) :=
  [(OperationKind.query, r.queryType), (.mutation, r.mutationType),
    (.subscription, r.subscriptionType)].filterMap fun (kind, root) ↦
      root.map fun name ↦ (kind, name)

/-- The line of a root type. -/
def rootChars (root : OperationKind × String) : List Char :=
  itemIndent ++ (root.1.keyword.toList ++ ':' :: ' ' :: root.2.toList)

theorem flatMap_rootLine (r : Result) :
    r.roots.flatMap rootLine = (r.givenRoots.map rootChars).flatMap fun line ↦ line ++ ['\n'] := by
  rw [Result.roots, Result.givenRoots]
  cases r.queryType <;> cases r.mutationType <;> cases r.subscriptionType <;>
    simp [rootLine, rootChars, OperationKind.keyword]

/-- The keyword of a schema. -/
def schemaName : Name := BuiltIn.named "schema" (Eq.refl true)

theorem schemaChars_eq {r : Result} (hne : r.givenRoots ≠ []) :
    r.schemaChars = schemaName.toList ++ bodyChars (r.givenRoots.map rootChars) := by
  have hschema : "schema ".toList = schemaName.toList ++ [' '] := by decide
  have hmap : (r.givenRoots.map rootChars).isEmpty = false := by
    rw [List.isEmpty_map, List.isEmpty_eq_false_iff]
    exact hne
  change "schema ".toList ++ ['{', '\n'] ++ r.roots.flatMap rootLine ++ ['}'] = _
  rw [flatMap_rootLine, bodyChars, hmap, hschema]
  simp only [Bool.false_eq_true, if_false, List.append_assoc, List.cons_append, List.nil_append]

/-- A root operation for a root type. -/
def RootReadAs (root : OperationKind × String) (op : RootOperation) : Prop :=
  op.kind = root.1 ∧ op.type.text = root.2

/-- The name that a kind of operation is written as. -/
def operationName (kind : OperationKind) : Name := ⟨kind.keyword, by cases kind <;> decide⟩

theorem exists_writesRoot {root : OperationKind × String} (h : isName root.2.toList = true) :
    ∃ op, RootReadAs root op ∧ Writes rootOperation (rootChars root) op := by
  obtain ⟨kind, text⟩ := root
  refine ⟨⟨kind, ⟨text, h⟩⟩, ⟨rfl, rfl⟩,
    [.name (operationName kind), .punctuator .colon, .name ⟨text, h⟩], ?_, ⟨_, _, rfl, rfl⟩,
    fun rest _ ↦ ?_⟩
  · rw [rootChars, scanClosed_indent_append eq_space_of_mem_itemIndent]
    exact scanClosed_name_append (operationName kind)
      (scanClosed_colon_cons (scanClosed_name ⟨text, h⟩)) (startsApart_cons rfl)
  · have hkind (ts : List Token) :
        operationKind (.name (operationName kind) :: ts) = some (kind, ts) := by
      cases kind <;> rfl
    rw [List.cons_append, List.cons_append, List.singleton_append, rootOperation,
      bind_of_eq (hkind _), bind_of_eq (mark_cons .colon _), bind_of_eq (name_cons _ rest), pure_eq]

/-- The schema definition is read as it was written. -/
theorem exists_writesSchema {r : Result} (h : ∀ root ∈ r.givenRoots, isName root.2.toList = true)
    (hne : r.givenRoots ≠ []) :
    ∃ ops, List.Forall₂ RootReadAs r.givenRoots ops ∧
      WritesDefinition r.schemaChars (.schema none [] ops) := by
  obtain ⟨ops, hops, hwrites⟩ := exists_forall₂ fun root hroot ↦ exists_writesRoot (h root hroot)
  obtain ⟨tss, htss, hscan⟩ := exists_body hwrites
  have htsne : tss ≠ [] := by
    rintro rfl
    have hlength : 0 = r.givenRoots.length := htss.length_eq.trans hops.length_eq.symm
    exact hne (List.eq_nil_of_length_eq_zero hlength.symm)
  refine ⟨ops, hops, .name schemaName :: groupTokens .braceOpen .braceClose tss, ?_,
    ⟨_, _, rfl, rfl⟩, fun rest hrest ↦ ?_⟩
  · rw [schemaChars_eq hne]
    exact scanClosed_name_append schemaName hscan (startsApart_bodyChars _)
  · have hroots : someTill .braceClose rootOperation
        (tss.flatten ++ .punctuator .braceClose :: rest) = some (ops, rest) :=
      someTill_of_forall₂ htss htsne rfl rest
    have hgroup : groupTokens .braceOpen .braceClose tss ++ rest =
        .punctuator .braceOpen :: (tss.flatten ++ .punctuator .braceClose :: rest) := by
      rw [groupTokens, if_neg (by simpa using htsne)]
      simp
    rw [List.cons_append, hgroup]
    change definition (descriptionTokens none ++ .name schemaName :: _) = _
    have hdirectives := outerDirectives_nil (F := (· == .punctuator .braceOpen))
      (follows_cons (t := .punctuator .braceOpen) rfl
        (tss.flatten ++ .punctuator .braceClose :: rest)) rfl rfl
    have hname : schemaName.text = "schema" := rfl
    rw [definition_descriptionTokens rfl (by decide) (by decide), typeSystemDefinition,
      if_pos hname, schemaDefinition, bind_of_eq hdirectives, bind_of_eq (mark_cons .braceOpen _),
      bind_of_eq hroots, pure_eq, Option.map_some]

end TypeFootprint.Introspection
