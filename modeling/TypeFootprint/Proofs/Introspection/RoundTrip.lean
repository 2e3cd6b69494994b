import TypeFootprint.Proofs.Introspection.Depth
import TypeFootprint.Proofs.Introspection.Directives
import TypeFootprint.Proofs.Schema.Assembly

/-!
# A well-formed answer is read back as it was written

The definitions of a result are read one by one (`document_parse?_sdl`), and put together they are a
schema with the types and the directives of the result (`parse?_sdl`).  Nothing else has to be known
about the result: whether its types refer to one another, or are there at all, makes no difference.

The depth is a hypothesis because the parser has a limit.  A default value that is nested deeper is
a constant all the same, and so `parse?_sdl` would be false without it; nor is a directive read if
one of its locations does not exist, whatever its other locations are
(`exists_sdl_not_read`).
-/

set_option autoImplicit false

namespace TypeFootprint.Introspection

open TypeFootprint.Token TypeFootprint.Parser

/-! ## Documents -/

/-- Definitions with a blank line between each two. -/
theorem exists_joinedDefinitions {css : List (List Char)} {ds : List TypeSystemDefinition}
    (h : List.Forall₂ WritesDefinition css ds) :
    ∃ tss, scanClosed (joinWith ['\n', '\n'] css) = some tss.flatten ∧
      List.Forall₂ ReadsDefinition tss ds := by
  induction h with
  | nil => exact ⟨[], rfl, .nil⟩
  | @cons cs d css ds hcs hcss ih =>
    obtain ⟨ts, hscan, hread⟩ := hcs
    obtain ⟨tss, hjoin, htss⟩ := ih
    refine ⟨ts :: tss, ?_, .cons hread htss⟩
    cases hcss with
    | nil =>
      cases htss
      simpa [joinWith] using hscan
    | @cons cs' d' css ds hcs' hcss' =>
      have hline : scanClosed ('\n' :: '\n' :: joinWith ['\n', '\n'] (cs' :: css)) =
          some tss.flatten := by
        rwa [scanClosed_newline_cons, scanClosed_newline_cons]
      simpa [joinWith] using scanClosed_append hscan hline (startsApart_cons rfl)

theorem follows_definitions {tss : List (List Token)} {ds : List TypeSystemDefinition}
    (h : List.Forall₂ ReadsDefinition tss ds) : Follows startsDefinition tss.flatten := by
  cases h with
  | nil => exact fun t ht ↦ by cases ht
  | cons hts htss =>
    obtain ⟨t, us, rfl, ht⟩ := hts.starts
    exact follows_cons ht _

/-- All definitions, up to the end. -/
theorem allUpTo_of_forall₂ {tss : List (List Token)} {ds : List TypeSystemDefinition}
    (h : List.Forall₂ ReadsDefinition tss ds) {n : Nat} (hn : tss.length ≤ n) :
    allUpTo definition n tss.flatten = some (ds.map Definition.typeSystem, []) := by
  induction h generalizing n with
  | nil => cases n <;> rfl
  | @cons ts d tss ds hts htss ih =>
    obtain ⟨n, rfl⟩ := Nat.exists_eq_add_one.2 (Nat.zero_lt_of_lt hn)
    -- What follows a definition is the start of the next one, so it is not taken for more of it.
    have hread := hts.reads _ (follows_definitions htss)
    obtain ⟨t, us, rfl, ht⟩ := hts.starts
    have hpast : pastCommas (t :: (us ++ tss.flatten)) = t :: (us ++ tss.flatten) :=
      (follows_cons ht _).pastCommas_eq rfl
    rw [List.flatten_cons, List.cons_append, allUpTo, bind_of_eq (peek_cons hpast)]
    change (definition >>= fun x ↦ allUpTo definition n >>= fun xs ↦ pure (x :: xs)) _ = _
    rw [← List.cons_append, bind_of_eq hread, bind_of_eq (ih (Nat.le_of_succ_le_succ hn)), pure_eq,
      List.map_cons]

/-- A text of definitions is read as these definitions. -/
theorem parse?_joinedDefinitions {css : List (List Char)} {ds : List TypeSystemDefinition}
    (h : List.Forall₂ WritesDefinition css ds) (hne : css ≠ []) :
    Document.parse? (String.ofList (joinWith ['\n', '\n'] css)) =
      some (ds.map Definition.typeSystem) := by
  obtain ⟨tss, hscan, htss⟩ := exists_joinedDefinitions h
  have hlength : tss.length ≤ tss.flatten.length := length_le_length_flatten htss fun ts d hts ↦ by
    obtain ⟨t, us, rfl, -⟩ := hts.starts
    exact List.cons_ne_nil t us
  rw [Document.parse?, String.toList_ofList, scan_of_scanClosed hscan, Option.bind_eq_bind,
    Option.bind_some, someToEnd, allUpTo_of_forall₂ htss hlength]
  cases h with
  | nil => exact absurd rfl hne
  | cons => rfl

theorem definitionsOf?_typeSystem (ds : List TypeSystemDefinition) :
    Schema.definitionsOf? (ds.map Definition.typeSystem) = some ds := by
  rw [Schema.definitionsOf?]
  induction ds with
  | nil => rfl
  | cons d ds ih =>
    rw [List.map_cons, List.mapM_cons, ih]
    rfl

/-! ## Names that are not repeated -/

section Names

variable {α β : Type} {R : α → β → Prop} {text : α → String} {name : β → Name} {xs : List α}
  {ws : List β}

theorem forall_of_forall₂ {P : β → Prop} (h : List.Forall₂ R xs ws)
    (hR : ∀ x ∈ xs, ∀ w, R x w → P w) : ∀ w ∈ ws, P w := by
  induction h with
  | nil => simp
  | @cons x w xs ws hx hxs ih =>
    rw [List.forall_mem_cons]
    exact ⟨hR x (.head _) w hx, ih fun y hy ↦ hR y (.tail _ hy)⟩

theorem map_text_of_forall₂ (h : List.Forall₂ R xs ws)
    (hR : ∀ x w, R x w → (name w).text = text x) :
    (ws.map name).map Name.text = xs.map text := by
  induction h with
  | nil => rfl
  | cons hx hxs ih => rw [List.map_cons, List.map_cons, List.map_cons, ih, hR _ _ hx]

theorem nodup_names_of_forall₂ (h : List.Forall₂ R xs ws)
    (hR : ∀ x w, R x w → (name w).text = text x) (hnodup : (xs.map text).Nodup) :
    (ws.map name).Nodup := by
  rw [← map_text_of_forall₂ h hR] at hnodup
  exact hnodup.of_map

theorem exists_mem_of_forall₂ (h : List.Forall₂ R xs ws)
    (hR : ∀ x w, R x w → (name w).text = text x) {n : Name} (hn : n ∈ ws.map name) :
    ∃ x ∈ xs, text x = n.text := by
  rw [← List.mem_map, ← map_text_of_forall₂ h hR]
  exact List.mem_map_of_mem hn

end Names

theorem EntryBody.ReadAs.isDistinct {depth : Nat} {b : EntryBody} {w : TypeBody} (h : b.ReadAs w)
    (hb : b.WellFormed depth) : w.isDistinct = true := by
  cases h with
  | scalar => rfl
  | object hws =>
    obtain ⟨-, hfields, -, hnames⟩ := hb
    have := nodup_names_of_forall₂ hws (fun _ _ hw ↦ hw.name) hfields
    simp [TypeBody.isDistinct, this, hnames.of_map]
  | interface hws =>
    obtain ⟨-, hfields, -, hnames⟩ := hb
    have := nodup_names_of_forall₂ hws (fun _ _ hw ↦ hw.name) hfields
    simp [TypeBody.isDistinct, this, hnames.of_map]
  | union => simp [TypeBody.isDistinct, hb.2.of_map]
  | enum hws =>
    have := nodup_names_of_forall₂ hws (fun _ _ hw ↦ hw.name) hb.2
    simp [TypeBody.isDistinct, this]
  | inputObject hws =>
    have := nodup_names_of_forall₂ hws (fun _ _ hw ↦ hw.name) hb.2
    simp [TypeBody.isDistinct, this]

/-! ## Names that every schema defines -/

theorem isBuiltIn_of_mem_types {w : TypeDefinition} (hw : w ∈ BuiltIn.types) {t : TypeEntry}
    (h : t.name = w.name.text) : t.isBuiltIn = true := by
  have hall : ∀ w ∈ BuiltIn.types, TypeEntry.isBuiltIn ⟨w.name.text, none, .scalar⟩ = true := by
    decide
  have := hall w hw
  rwa [← h] at this

theorem isBuiltIn_of_mem_directives {w : DirectiveDefinition} (hw : w ∈ BuiltIn.directives)
    {d : DirectiveEntry} (h : d.name = w.name.text) : d.isBuiltIn = true := by
  have hall : ∀ w ∈ BuiltIn.directives, builtInDirectives.contains w.name.text = true := by decide
  rw [DirectiveEntry.isBuiltIn, h]
  exact hall w hw

section BuiltIn

variable {r : Result}

/-- A type that has to be defined has another name than the types of every schema. -/
theorem name_not_mem_of_mem_types {ws : List TypeDefinition}
    (h : List.Forall₂ TypeEntry.ReadAs r.ownTypes ws) :
    ∀ w ∈ BuiltIn.types, w.name ∉ ws.map TypeDefinition.name := by
  intro w hw hmem
  obtain ⟨t, ht, hname⟩ := exists_mem_of_forall₂ h (fun _ _ hread ↦ hread.name) hmem
  have hbuiltIn := isBuiltIn_of_mem_types hw hname
  simp [Result.ownTypes, hbuiltIn] at ht

/-- A directive that has to be defined has another name than the directives of every schema. -/
theorem name_not_mem_of_mem_directives {ws : List DirectiveDefinition}
    (h : List.Forall₂ DirectiveEntry.ReadAs r.ownDirectives ws) :
    ∀ w ∈ BuiltIn.directives, w.name ∉ ws.map DirectiveDefinition.name := by
  intro w hw hmem
  obtain ⟨d, hd, hname⟩ := exists_mem_of_forall₂ h (fun _ _ hread ↦ hread.name) hmem
  have hbuiltIn := isBuiltIn_of_mem_directives hw hname
  simp [Result.ownDirectives, hbuiltIn] at hd

end BuiltIn

/-! ## The round trip -/

section RoundTrip

variable {r : Result}

theorem isName_of_mem_givenRoots {depth : Nat} (h : r.WellFormed depth) :
    ∀ root ∈ r.givenRoots, isName root.2.toList = true := by
  intro root hroot
  obtain ⟨⟨kind, name?⟩, hmem, hname⟩ := List.mem_filterMap.1 hroot
  obtain ⟨name, rfl, rfl⟩ := Option.map_eq_some_iff.1 hname
  have hall : (some name).all (fun text ↦ isName text.toList) = true := by
    simp only [List.mem_cons, Prod.mk.injEq, List.not_mem_nil, or_false] at hmem
    obtain ⟨-, heq⟩ | ⟨-, heq⟩ | ⟨-, heq⟩ := hmem
    · exact heq ▸ h.roots _ (.head _)
    · exact heq ▸ h.roots _ (.tail _ (.head _))
    · exact heq ▸ h.roots _ (.tail _ (.tail _ (.head _)))
  exact hall

theorem givenRoots_ne_nil (h : r.hasRenamedRoot = true) : r.givenRoots ≠ [] := by
  rw [Result.hasRenamedRoot, Result.roots] at h
  rw [Result.givenRoots]
  cases hq : r.queryType <;> cases hm : r.mutationType <;> cases hs : r.subscriptionType <;>
    simp_all

theorem nodup_kinds_givenRoots (r : Result) : (r.givenRoots.map Prod.fst).Nodup := by
  rw [Result.givenRoots]
  cases r.queryType <;> cases r.mutationType <;> cases r.subscriptionType <;> simp

theorem map_kind_of_forall₂ {roots : List (OperationKind × String)} {ops : List RootOperation}
    (h : List.Forall₂ RootReadAs roots ops) : ops.map RootOperation.kind = roots.map Prod.fst := by
  induction h with
  | nil => rfl
  | cons hop hops ih => rw [List.map_cons, List.map_cons, ih, hop.1]

/-- The schema definition is there if it is needed. -/
theorem exists_writesRoots (h : ∀ root ∈ r.givenRoots, isName root.2.toList = true) :
    ∃ roots : Option (List RootOperation), roots.isSome = r.hasRenamedRoot ∧
      (∀ ops ∈ roots, List.Forall₂ RootReadAs r.givenRoots ops) ∧
      List.Forall₂ WritesDefinition (if r.hasRenamedRoot then [r.schemaChars] else [])
        (roots.map (TypeSystemDefinition.schema none [])).toList := by
  split
  · next hrenamed =>
    obtain ⟨ops, hops, hwrites⟩ := exists_writesSchema h (givenRoots_ne_nil hrenamed)
    refine ⟨some ops, hrenamed.symm, fun ops' hops' ↦ ?_, .cons hwrites .nil⟩
    obtain rfl := Option.some.inj hops'
    exact hops
  · next hrenamed => exact ⟨none, by simpa using hrenamed, nofun, .nil⟩

/-- A well-formed result is written as definitions that correspond to it. -/
theorem document_parse?_sdl (h : r.WellFormed maxDepth)
    (hown : r.ownTypes ≠ [] ∨ r.ownDirectives ≠ []) :
    ∃ roots ds ts, (∀ ops ∈ roots, List.Forall₂ RootReadAs r.givenRoots ops) ∧
      List.Forall₂ DirectiveEntry.ReadAs r.ownDirectives ds ∧
      List.Forall₂ TypeEntry.ReadAs r.ownTypes ts ∧
      Document.parse? r.sdl =
        some ((orderedDefinitions roots ds ts).map Definition.typeSystem) := by
  obtain ⟨roots, -, hroots, hschema⟩ := exists_writesRoots (isName_of_mem_givenRoots h)
  obtain ⟨ds, hds, hdirectives⟩ := exists_forall₂
    (P := fun cs w ↦ WritesDefinition cs (.directive w))
    fun d hd ↦ exists_writesDirective (h.directives d hd)
  obtain ⟨ts, hts, htypes⟩ := exists_forall₂
    (P := fun cs w ↦ WritesDefinition cs (.type w))
    fun t ht ↦ exists_writesType (h.types t ht)
  refine ⟨roots, ds, ts, hroots, hds, hts, parse?_joinedDefinitions ?_ ?_⟩
  · rw [Result.definitions, List.append_assoc]
    exact List.rel_append hschema (List.rel_append (List.forall₂_map_right_iff.2 hdirectives)
      (List.forall₂_map_right_iff.2 htypes))
  · have hparts :
        r.ownDirectives.map DirectiveEntry.chars ++ r.ownTypes.map TypeEntry.chars ≠ [] := by
      rcases hown with hown | hown <;> simp [hown]
    rw [Result.definitions, List.append_assoc]
    exact fun hnil ↦ hparts (List.append_eq_nil_iff.1 hnil).2

/-- **The round trip.**  What is written for a well-formed result is a schema that corresponds to
it. -/
theorem parse?_sdl (h : r.WellFormed maxDepth) (hown : r.ownTypes ≠ [] ∨ r.ownDirectives ≠ []) :
    ∃ schema, Schema.parse? r.sdl = some schema ∧ r.ReadAs schema := by
  obtain ⟨roots, ds, ts, hroots, hds, hts, hparse⟩ := document_parse?_sdl h hown
  have hdistinct : ∀ w ∈ ts, w.body.isDistinct = true :=
    forall_of_forall₂ hts fun t ht w hread ↦ hread.body.isDistinct (h.types t ht).body
  obtain ⟨schema, hschema, htypes, hdirectives⟩ := Schema.exists_ofDefinitions?_ordered
    (fun ops hops ↦ map_kind_of_forall₂ (hroots ops hops) ▸ nodup_kinds_givenRoots r)
    (nodup_names_of_forall₂ hds (fun _ _ hread ↦ hread.name) h.distinctDirectives)
    (name_not_mem_of_mem_directives hds) hdistinct
    (nodup_names_of_forall₂ hts (fun _ _ hread ↦ hread.name) h.distinctTypes)
    (name_not_mem_of_mem_types hts)
  refine ⟨schema, ?_, ⟨ts, htypes, hts⟩, ⟨ds, hdirectives, hds⟩⟩
  rw [Schema.parse?, hparse, Option.bind_eq_bind, Option.bind_some, Schema.ofDocument?,
    definitionsOf?_typeSystem, Option.bind_eq_bind, Option.bind_some, hschema]

end RoundTrip

/-- A library whose query type has a name of its own. -/
def library : Result where
  queryType := some "Library"
  mutationType := none
  subscriptionType := none
  types := [
    ⟨"Library", some "Books,\nand who wrote them.", .object
      [⟨"books", some "Part of a \"title\" is enough.",
        [⟨"title", some "Or all of it.", .plain .scalar (some "String"), some "\"a, b\""⟩,
          ⟨"filter", none, .plain .inputObject (some "Filter"),
            some "\x7blanguages: [DE], limit: 10\x7d"⟩],
        .wrapping .nonNull none (.wrapping .list none (.wrapping .nonNull none
          (.plain .object (some "Book")))), false, none⟩,
      ⟨"all", none, [], .wrapping .list none (.plain .union (some "Item")), true,
        some "Use \"books\"."⟩] []⟩,
    ⟨"Node", none, .interface
      [⟨"id", none, [], .wrapping .nonNull none (.plain .scalar (some "ID")), false, none⟩] []⟩,
    ⟨"Book", none, .object
      [⟨"id", none, [], .wrapping .nonNull none (.plain .scalar (some "ID")), false, none⟩]
      ["Node"]⟩,
    ⟨"Person", some "", .object [] []⟩,
    ⟨"Item", none, .union ["Book", "Person"]⟩,
    ⟨"Language", none, .enum [⟨"DE", some "German", false, none⟩, ⟨"LA", none, true, none⟩]⟩,
    ⟨"Filter", none, .inputObject
      [⟨"languages", none, .wrapping .list none (.plain .enum (some "Language")), none⟩,
        ⟨"limit", some "A bound.", .plain .scalar (some "Int"), some "10"⟩]⟩,
    ⟨"Date", some "A day.", .scalar⟩,
    ⟨"__Type", none, .object [] []⟩]
  directives := [
    ⟨"cached", none, ["FIELD", "OBJECT"],
      [⟨"seconds", none, .plain .scalar (some "Int"), some "60"⟩], true⟩,
    ⟨"skip", none, [], [], false⟩]

theorem parse?_sdl_library :
    library.WellFormed maxDepth ∧ (library.ownTypes ≠ [] ∨ library.ownDirectives ≠ []) ∧
      ∃ schema, Schema.parse? library.sdl = some schema ∧ library.ReadAs schema :=
  have hwell : library.WellFormed maxDepth := by decide +kernel
  have hown : library.ownTypes ≠ [] ∨ library.ownDirectives ≠ [] :=
    .inl (List.ne_nil_of_length_pos (by decide +kernel))
  ⟨hwell, hown, parse?_sdl hwell hown⟩

/-- A directive of which one location exists and one does not. -/
def mixedLocations : Result :=
  ⟨none, none, none, [], [⟨"cached", none, ["FIELD", "NOWHERE"], [], false⟩]⟩

/-- A default value may be a constant that is nested deeper than the parser goes, and a location
that does not exist spoils those that do. -/
theorem exists_sdl_not_read :
    ((deepDefault 3000).WellFormed 3000 ∧ (deepDefault 3000).ownTypes ≠ [] ∧
      Schema.parse? (deepDefault 3000).sdl = none) ∧
    ((∀ d ∈ mixedLocations.ownDirectives,
        ∃ l ∈ d.locations, (DirectiveLocation.ofKeyword? l).isSome = true) ∧
      mixedLocations.ownDirectives ≠ [] ∧ Schema.parse? mixedLocations.sdl = none) := by
  have htypes : (deepDefault 3000).ownTypes ≠ [] := by
    rw [ownTypes_deepDefault]
    exact List.cons_ne_nil _ _
  have hdirectives : mixedLocations.ownDirectives ≠ [] :=
    List.ne_nil_of_length_pos (by decide)
  have hmixed : (Schema.parse? mixedLocations.sdl).isNone = true := by decide +kernel
  exact ⟨⟨wellFormed_deepDefault (by decide), htypes, parse?_sdl_deepDefault (by decide)⟩,
    by decide, hdirectives, Option.isNone_iff_eq_none.1 hmixed⟩

end TypeFootprint.Introspection
