import TypeFootprint.Proofs.Introspection.AcceptedDefinitions

/-!
# A schema that is accepted is the one that was written

The converse of `parse?_sdl`.  Nothing is known about the answer but that the texts it copies are
what they stand for, so its schema definition language may be refused, for many reasons.  If it is
accepted, the schema has the outline that was written: the same types, directives, items and
arguments in the same order, each with its name, its kind and the description that was written for
it, and the roots that the schema definition gives (`acceptedAs_of_parse?_sdl`).
-/

set_option autoImplicit false

namespace TypeFootprint.Introspection

open TypeFootprint.Token TypeFootprint.Parser

/-! ## Documents -/

/-- Definitions with a blank line between each two. -/
theorem exists_joinedWritten {css : List (List Char)} {Ps : List (TypeSystemDefinition → Prop)}
    (h : List.Forall₂ WritesOnly css Ps) :
    ∃ tss, ScansOnly (joinWith ['\n', '\n'] css) tss.flatten ∧
      List.Forall₂ AcceptsDefinition tss Ps := by
  induction h with
  | nil => exact ⟨[], scansOnly_of_scanClosed rfl, .nil⟩
  | @cons cs P css Ps hcs hcss ih =>
    obtain ⟨ts, hscan, hread⟩ := hcs
    obtain ⟨tss, hjoin, htss⟩ := ih
    refine ⟨ts :: tss, ?_, .cons hread htss⟩
    cases hcss with
    | nil =>
      cases htss
      simpa [joinWith] using hscan
    | @cons cs' P' css Ps hcs' hcss' =>
      simpa [joinWith] using
        hscan.append hjoin.newline_cons.newline_cons (startsApart_cons rfl)

theorem follows_written {tss : List (List Token)} {Ps : List (TypeSystemDefinition → Prop)}
    (h : List.Forall₂ AcceptsDefinition tss Ps) : Follows startsWritten tss.flatten := by
  cases h with
  | nil => exact nofun
  | cons hts htss =>
    obtain ⟨t, us, rfl, ht⟩ := hts.starts
    exact follows_cons ht _

/-- Whatever definitions are read have the properties of those that were written. -/
theorem forall₂_of_allUpTo {tss : List (List Token)} {Ps : List (TypeSystemDefinition → Prop)}
    (h : List.Forall₂ AcceptsDefinition tss Ps) {n : Nat} {ds : List Definition}
    (hread : allUpTo definition n tss.flatten = some (ds, [])) :
    ∃ es, ds = es.map Definition.typeSystem ∧ List.Forall₂ (fun e P ↦ P e) es Ps := by
  induction h generalizing n ds with
  | nil =>
    have hnil : allUpTo definition n [] = some ([], []) := by cases n <;> rfl
    obtain ⟨rfl, -⟩ := Prod.mk.inj (Option.some.inj (hnil.symm.trans hread))
    exact ⟨[], rfl, .nil⟩
  | @cons ts P tss Ps hts htss ih =>
    obtain ⟨t, us, hcons, ht⟩ := hts.starts
    have hfirst : (ts :: tss).flatten = t :: (us ++ tss.flatten) := by
      rw [List.flatten_cons, hcons, List.cons_append]
    cases n with
    | zero =>
      rw [hfirst] at hread
      cases hread
    | succ n =>
      have hpast : pastCommas (t :: (us ++ tss.flatten)) = t :: (us ++ tss.flatten) :=
        (follows_cons ht _).pastCommas_eq rfl
      rw [hfirst, allUpTo, bind_of_eq (peek_cons hpast), ← List.cons_append, ← hcons] at hread
      obtain ⟨d, vs, hd, hread⟩ := exists_of_bind_eq hread
      obtain ⟨ds', ws, hds, hpure⟩ := exists_of_bind_eq hread
      obtain ⟨rfl, rfl⟩ := Prod.mk.inj (Option.some.inj hpure)
      obtain ⟨⟨e, rfl, he⟩, rfl⟩ := hts.reads (follows_written htss) hd
      obtain ⟨es, rfl, hes⟩ := ih hds
      exact ⟨e :: es, rfl, .cons he hes⟩

/-- What is read from a list of characters. -/
theorem parse?_ofList (cs : List Char) :
    Schema.parse? (String.ofList cs) =
      (scan cs).bind fun ts ↦ (someToEnd definition ts).bind Schema.ofDocument? := by
  rw [Schema.parse?, Document.parse?, String.toList_ofList]
  cases scan cs <;> rfl

/-- A text of definitions that is accepted. -/
theorem forall₂_of_parse? {css : List (List Char)} {Ps : List (TypeSystemDefinition → Prop)}
    (h : List.Forall₂ WritesOnly css Ps) {schema : Schema}
    (hs : Schema.parse? (String.ofList (joinWith ['\n', '\n'] css)) = some schema) :
    ∃ es, List.Forall₂ (fun e P ↦ P e) es Ps ∧ Schema.ofDefinitions? es = some schema := by
  obtain ⟨tss, hscan, htss⟩ := exists_joinedWritten h
  rw [parse?_ofList] at hs
  obtain ⟨ts, hts, hs⟩ := Option.bind_eq_some_iff.1 hs
  obtain ⟨ds, hread, hschema⟩ := Option.bind_eq_some_iff.1 hs
  obtain rfl := hscan.eq_of_scan hts
  rw [someToEnd] at hread
  split at hread
  · next x xs hall =>
    obtain rfl := Option.some.inj hread
    obtain ⟨es, hes, hforall⟩ := forall₂_of_allUpTo htss hall
    rw [hes, Schema.ofDocument?, definitionsOf?_typeSystem, Option.bind_eq_bind,
      Option.bind_some] at hschema
    exact ⟨es, hforall, hschema⟩
  · cases hread

/-! ## Schemas -/

/-- A schema with the outline and the roots that were written for an answer. -/
structure Result.AcceptedAs (r : Result) (schema : Schema) : Prop where
  types : ∃ ws, schema.types = BuiltIn.types ++ ws ∧
    ws.map TypeDefinition.outline = r.outline.written.types
  directives : ∃ ws, schema.directives = ws ++ BuiltIn.directives ∧
    ws.map DirectiveDefinition.outline = r.outline.written.directives
  givenRoots : r.hasRenamedRoot = true → ∀ kind n, schema.roots.get? kind = some n ↔
    (kind, n.text) ∈ r.givenRoots
  usualRoots : r.hasRenamedRoot = false → schema.roots = Schema.implicitRoots schema.types

theorem mem_of_forall₂_rootReadAs {roots : List (OperationKind × String)}
    {ops : List RootOperation} (h : List.Forall₂ RootReadAs roots ops) (kind : OperationKind)
    (n : Name) : ⟨kind, n⟩ ∈ ops ↔ (kind, n.text) ∈ roots := by
  induction h with
  | nil => simp
  | @cons root op roots ops hop _ ih =>
    obtain ⟨opKind, type⟩ := op
    obtain ⟨rfl, htype⟩ := hop
    have hname : n = type ↔ n.text = root.2 := by
      rw [← htype]
      exact ⟨congrArg Name.text, Name.ext_text⟩
    rw [List.mem_cons, List.mem_cons, ih, RootOperation.mk.injEq, hname, Prod.ext_iff]

/-- A directive that was written has another name than the directives of every schema. -/
theorem name_not_mem_of_map_outline {r : Result} {ws : List DirectiveDefinition}
    (h : ws.map DirectiveDefinition.outline = r.outline.written.directives) :
    ∀ w ∈ BuiltIn.directives, w.name ∉ ws.map DirectiveDefinition.name := by
  intro w hw hmem
  obtain ⟨w', hw', hname⟩ := List.mem_map.1 hmem
  have houtline := List.mem_map_of_mem (f := DirectiveDefinition.outline) hw'
  rw [h, directives_written_outline] at houtline
  obtain ⟨d, hd, heq⟩ := List.mem_map.1 houtline
  have hdname : d.name = w'.name.text := congrArg (Label.name ∘ ItemOutline.label) heq
  have hbuiltIn := isBuiltIn_of_mem_directives hw (hdname.trans (congrArg Name.text hname))
  simp [Result.ownDirectives, hbuiltIn] at hd

/-- The definitions of an answer, with the properties of whatever is read for each. -/
theorem exists_orderedDefinitions {r : Result} (h : r.Lexical) {schema : Schema}
    (hs : Schema.parse? r.sdl = some schema) :
    ∃ roots ds ts, roots.isSome = r.hasRenamedRoot ∧
      (∀ ops ∈ roots, List.Forall₂ RootReadAs r.givenRoots ops) ∧
      ds.map DirectiveDefinition.outline = r.outline.written.directives ∧
      ts.map TypeDefinition.outline = r.outline.written.types ∧
      Schema.ofDefinitions? (orderedDefinitions roots ds ts) = some schema := by
  obtain ⟨roots, hrenamed, hroots, hschema⟩ := exists_writesRoots h.roots
  have hwrites : List.Forall₂ WritesOnly r.definitions
      ((roots.map (TypeSystemDefinition.schema none [])).toList.map (fun e ↦ (· = e)) ++
        (r.ownDirectives.map DirectiveEntry.Shows ++ r.ownTypes.map TypeEntry.Shows)) := by
    rw [Result.definitions, List.append_assoc]
    exact List.rel_append
      (List.forall₂_map_right_iff.2 (hschema.imp fun _ _ ↦ WritesDefinition.writesOnly))
      (List.rel_append (forall₂_map_map fun d hd ↦ writesOnly_directive (h.directives d hd))
        (forall₂_map_map fun t ht ↦ writesOnly_type (h.types t ht)))
  obtain ⟨es, hes, hdefinitions⟩ := forall₂_of_parse? hwrites hs
  obtain ⟨es, es', rfl, hfirst, hes⟩ := exists_append_of_forall₂ hes
  obtain ⟨ds', ts', rfl, hsecond, hthird⟩ := exists_append_of_forall₂ hes
  obtain rfl := eq_of_forall₂ hfirst
  obtain ⟨ds, rfl, hds⟩ := exists_map_of_forall₂ hsecond
  obtain ⟨ts, rfl, hts⟩ := exists_map_of_forall₂ hthird
  exact ⟨roots, ds, ts, hrenamed, hroots, hds.trans (directives_written_outline r).symm,
    hts.trans (types_written_outline r).symm, hdefinitions⟩

/-- **What is accepted is what was written.** -/
theorem acceptedAs_of_parse?_sdl {r : Result} (h : r.Lexical) {schema : Schema}
    (hs : Schema.parse? r.sdl = some schema) : r.AcceptedAs schema := by
  obtain ⟨roots, ds, ts, hrenamed, hroots, hds, hts, hdefinitions⟩ := exists_orderedDefinitions h hs
  obtain ⟨htypes, hdirectives, hschemaRoots⟩ := Schema.of_ofDefinitions?_ordered hdefinitions
    (name_not_mem_of_map_outline hds)
  refine ⟨⟨ts, htypes, hts⟩, ⟨ds, hdirectives, hds⟩, fun hyes kind n ↦ ?_, fun hno ↦ ?_⟩
  · obtain ⟨ops, rfl⟩ := Option.isSome_iff_exists.1 (hrenamed.trans hyes)
    rw [Schema.rootsOf?_ordered_some] at hschemaRoots
    have hempty : RootTypes.empty.get? kind = none := by cases kind <;> rfl
    rw [Schema.get?_of_foldlM_addRoot hschemaRoots, hempty,
      ← mem_of_forall₂_rootReadAs (hroots ops rfl)]
    simp
  · obtain rfl : roots = none := by simpa [hno] using hrenamed
    rw [Schema.rootsOf?_ordered_none] at hschemaRoots
    exact (Option.some.inj hschemaRoots).symm

end TypeFootprint.Introspection
