import TypeFootprint.Proofs.Config.Entries
import TypeFootprint.Proofs.Json.Reading

/-!
# Configurations that are written and read again

A configuration is written as a JSON value with every key, and `null` where a part is absent.  Read
again it is the configuration that was written (`parseJson_serialize`), whatever its texts are.  So
behind the reading there is only the validation left: a valid configuration comes back, and any
other is refused for its first fault (`parse_serialize`).
-/

set_option autoImplicit false

namespace TypeFootprint.Config

open Json (chars quoteChars commas memberChars)
open JsonReader (Reads ReadsItem EndsValue Chain Runs bind_of_ok peek_cons reads_items)

variable {α : Type} {rest : List Char}

/-! ## Texts, lists and absent parts -/

theorem reads_readText (s : String) : Reads readText (quoteChars s.toList) s := by
  intro rest _
  have hdrop : (JsonReader.drop >>= fun _ ↦ JsonReader.stringRest) (quoteChars s.toList ++ rest) =
      .ok (s, rest) := JsonReader.key_append s rest
  rw [readText, quoteChars, List.cons_append, bind_of_ok (peek_cons (by decide))]
  exact hdrop

theorem chars_jsonList (texts : List String) :
    (jsonList texts).chars = '[' :: (commas (texts.map fun s ↦ quoteChars s.toList) ++ [']']) := by
  rw [jsonList, chars, Json.bracketed, Json.itemParts_eq_map, List.map_map]
  rfl

theorem reads_readTexts (texts : List String) : Reads readTexts (jsonList texts).chars texts := by
  intro rest hrest
  have hitems :
      List.Forall₂ (ReadsItem readText) (texts.map fun s ↦ quoteChars s.toList) texts := by
    induction texts with
    | nil => exact .nil
    | cons s texts ih =>
      exact .cons ⟨JsonReader.startsValue_cons (by decide) (by decide), reads_readText s⟩ ih
  rw [readTexts, chars_jsonList, List.cons_append, bind_of_ok (peek_cons (by decide))]
  exact reads_items hitems rest hrest

/-- A part that may be absent is read if it is read where it is there, and is not taken for
`null`. -/
theorem reads_readOptional {read : JsonReader α} {json : α → Json} {o : Option α}
    (hstart : ∀ a ∈ o, ∃ c cs, (json a).chars = c :: cs ∧ JsonReader.isBlank c = false ∧ c ≠ 'n')
    (hread : ∀ a ∈ o, Reads read (json a).chars a) :
    Reads (readOptional read) (jsonOption json o).chars o := by
  intro rest hrest
  cases o with
  | none =>
    rw [jsonOption, chars, readOptional, List.cons_append, bind_of_ok (peek_cons (by decide))]
    rfl
  | some a =>
    obtain ⟨c, cs, hchars, hblank, hnull⟩ := hstart a rfl
    have ha := hread a rfl rest hrest
    rw [hchars, List.cons_append] at ha
    rw [jsonOption, hchars, readOptional, List.cons_append, bind_of_ok (peek_cons hblank)]
    simp only [Option.some.injEq, hnull, imp_self]
    rw [bind_of_ok ha]
    rfl

/-! ## Records -/

/-- A step takes in a member, whatever ends its value. -/
def TakesIn {σ : Type} (step : String → σ → JsonReader σ) (k : String) (v : Json) (s t : σ) :
    Prop :=
  ∀ rest, EndsValue rest → step k s (':' :: (v.chars ++ rest)) = .ok (t, rest)

/-- A step takes in a part, which is a member. -/
def TakesPart {σ : Type} (step : String → σ → JsonReader σ) (part : List Char) (s t : σ) : Prop :=
  ∃ k v, part = memberChars k v.chars ∧ TakesIn step k v s t

section Members

variable {σ : Type} {step : String → σ → JsonReader σ} {s t : σ} {n : Nat}
  {members : List (String × Json)}

theorem membersUpTo_cons {first : Bool} {text : List Char} {k : String} {v : Json}
    (hmember : JsonReader.hasMember first text = .ok (true, memberChars k v.chars ++ rest))
    (hstep : TakesIn step k v s t) (hrest : EndsValue rest) :
    membersUpTo step first s (n + 1) text = membersUpTo step false t n rest := by
  rw [membersUpTo, bind_of_ok hmember, if_pos rfl,
    bind_of_ok (JsonReader.key_memberChars k v.chars rest), bind_of_ok (hstep rest hrest)]

/-- An object is read if its members are taken in one after the other. -/
theorem reads_readMembers (h : Chain (TakesPart step) (Json.memberParts members) s t) :
    Reads (readMembers step s) (commas (Json.memberParts members) ++ ['}']) t := by
  intro rest _
  have hruns : Runs (TakesPart step) '}' rest t
      fun first s n text ↦ membersUpTo step first s n text = .ok (t, '}' :: rest) := by
    refine ⟨.inr rfl, fun _ _ ↦ rfl, ?_, ?_⟩
    · rintro _ text s u n ⟨k, v, rfl, hstep⟩ htext hrest
      rw [membersUpTo_cons (JsonReader.hasMember_first k v.chars text) hstep htext, hrest]
    · rintro _ text s u n ⟨k, v, rfl, hstep⟩ htext hrest
      rw [membersUpTo_cons (JsonReader.hasMember_next k v.chars text) hstep htext, hrest]
  rw [readMembers, List.append_assoc, List.singleton_append,
    bind_of_ok (p := fun cs ↦ membersUpTo step true s (cs.length + 1) cs) (hruns.first_chain h)]
  rfl

end Members

theorem readOnce_colon {name : String} {read : JsonReader α} {value : List Char} {a : α}
    (h : Reads read value a) (hrest : EndsValue rest) :
    readOnce name none read (':' :: (value ++ rest)) = .ok (some a, rest) := by
  rw [readOnce, bind_of_ok (JsonReader.colon_cons _), bind_of_ok (h rest hrest)]
  rfl

/-- A record that is written as an object is read if its members are taken in and make up the
record. -/
theorem reads_readRecord {σ : Type} {step : String → σ → JsonReader σ} {s t : σ} {name : String}
    {members : List (String × Json)} {fromArray : JsonReader α} {build : σ → JsonReader α} {a : α}
    (h : Chain (TakesPart step) (Json.memberParts members) s t) (hbuild : build t = pure a) :
    Reads (readRecord name fromArray (readMembers step s >>= build)) (Json.object members).chars
      a := by
  intro rest hrest
  rw [readRecord, chars, Json.braced, List.cons_append, bind_of_ok (peek_cons (by decide))]
  change (readMembers step s >>= build) _ = _
  rw [List.tail_cons, bind_of_ok (reads_readMembers h rest hrest), hbuild]
  rfl

theorem reads_readPolicy (p : PolicyConfig) : Reads readPolicy (policyJson p).chars p := by
  refine reads_readRecord (t := (some p.denylist, some p.forcedInclude)) ?_ rfl
  refine .cons (t := (some p.denylist, none)) ⟨_, _, rfl, fun rest hrest ↦ ?_⟩
    (.cons ⟨_, _, rfl, fun rest hrest ↦ ?_⟩ (.nil _))
  · rw [policyMember, if_pos rfl, bind_of_ok (readOnce_colon (reads_readTexts p.denylist) hrest)]
    rfl
  · rw [policyMember, if_neg (by decide), if_pos rfl,
      bind_of_ok (readOnce_colon (reads_readTexts p.forcedInclude) hrest)]
    rfl

theorem reads_readDocuments (d : DocumentsConfig) :
    Reads readDocuments (documentsJson d).chars d := by
  have hextensions : Reads (readOptional readTexts) (jsonOption jsonList d.extensions).chars
      d.extensions :=
    reads_readOptional (fun texts _ ↦ ⟨'[', _, chars_jsonList texts, by decide, by decide⟩)
      fun texts _ ↦ reads_readTexts texts
  refine reads_readRecord (t := some d.extensions)
    (.cons ⟨_, _, rfl, fun rest hrest ↦ ?_⟩ (.nil _)) rfl
  rw [documentsMember, if_pos rfl, readOnce_colon hextensions hrest]

theorem reads_readConfig (c : Config) : Reads readConfig c.json.chars c := by
  have hpolicy : Reads (readOptional readPolicy) (jsonOption policyJson c.policy).chars c.policy :=
    reads_readOptional (fun _ _ ↦ ⟨'{', _, rfl, by decide, by decide⟩) fun p _ ↦ reads_readPolicy p
  have hdocuments : Reads (readOptional readDocuments) (jsonOption documentsJson c.documents).chars
      c.documents :=
    reads_readOptional (fun _ _ ↦ ⟨'{', _, rfl, by decide, by decide⟩)
      fun d _ ↦ reads_readDocuments d
  refine reads_readRecord (t := (some c.policy, some c.documents)) ?_ rfl
  refine .cons (t := (some c.policy, none)) ⟨_, _, rfl, fun rest hrest ↦ ?_⟩
    (.cons ⟨_, _, rfl, fun rest hrest ↦ ?_⟩ (.nil _))
  · rw [configMember, if_pos rfl, bind_of_ok (readOnce_colon hpolicy hrest)]
    rfl
  · rw [configMember, if_neg (by decide), if_pos rfl, bind_of_ok (readOnce_colon hdocuments hrest)]
    rfl

/-- **A configuration that is written is read as it was.** -/
theorem parseJson_serialize (c : Config) : parseJson c.serialize = .ok c := by
  have hread := reads_readConfig c [] JsonReader.endsValue_nil
  rw [List.append_nil] at hread
  rw [parseJson, serialize, Json.compact, String.toList_ofList, bind_of_ok hread]
  rfl

/-! ## Validation -/

variable {c : Config} {path : String}

/-- What may be wrong with a configuration that was read. -/
theorem mem_of_fault? {fault : ConfigFault} (h : c.fault? = some fault) :
    fault ∈ [ConfigFault.emptyTypeName, .noExtensions, .emptyExtension] := by
  rw [fault?] at h
  split at h
  · cases h
    decide
  · split at h
    · cases h
    · cases h
      decide
    · split at h <;> cases h
      decide

/-- In a JSON file, a configuration that was written is read and validated. -/
theorem parse_serialize_eq (c : Config) (h : FilePath.extension? path = some "json") :
    parse c.serialize path = c.validate.mapError (ConfigError.invalid path) := by
  have hformat : Format.ofPath? path = some .json := by
    rw [Format.ofPath?, h]
    rfl
  rw [parse, hformat]
  simp only [Format.read, parseJson_serialize, Except.mapError, bind, Except.bind]

/-- **A configuration comes back from its JSON text exactly if it is valid.**  Every configuration
that was ever read is valid.  One that is not valid is refused, for an empty type name, an empty
list of extensions or an empty extension. -/
theorem parse_serialize (c : Config) (h : FilePath.extension? path = some "json") :
    (c.validate = .ok c → parse c.serialize path = .ok c) ∧
    (∀ text path', parse text path' = .ok c → parse c.serialize path = .ok c) ∧
    (c.validate ≠ .ok c →
      ∃ fault ∈ [ConfigFault.emptyTypeName, .noExtensions, .emptyExtension],
        c.fault? = some fault ∧ parse c.serialize path = .error (.invalid path fault)) := by
  rw [parse_serialize_eq c h]
  have hvalid (hc : c.validate = .ok c) :
      c.validate.mapError (ConfigError.invalid path) = .ok c := by
    rw [hc]
    rfl
  refine ⟨hvalid, fun text path' hparse ↦ hvalid (validate_of_parse hparse), fun hinvalid ↦ ?_⟩
  cases hfault : c.fault? with
  | none => exact absurd (validate_eq_ok_iff.2 ⟨hfault, rfl⟩) hinvalid
  | some fault =>
    refine ⟨fault, mem_of_fault? hfault, rfl, ?_⟩
    rw [validate, hfault]
    rfl

/-- A configuration with a text that needs escapes, and with no list of extensions, comes back; with
an empty type name it does not. -/
theorem parse_serialize_escapes :
    FilePath.extension? "conf.d/types.json" = some "json" ∧
      parse (serialize ⟨some ⟨["a\"b\\c\x01é"], []⟩, some ⟨none⟩⟩) "conf.d/types.json" =
        .ok ⟨some ⟨["a\"b\\c\x01é"], []⟩, some ⟨none⟩⟩ ∧
      ∃ fault, parse (serialize ⟨some ⟨["Query"], [" "]⟩, none⟩) "conf.d/types.json" =
        .error (.invalid "conf.d/types.json" fault) := by
  have hpath : FilePath.extension? "conf.d/types.json" = some "json" := by decide
  obtain ⟨fault, -, -, hfault⟩ :=
    (parse_serialize ⟨some ⟨["Query"], [" "]⟩, none⟩ hpath).2.2 (by decide)
  exact ⟨hpath, (parse_serialize _ hpath).1 (by decide), fault, hfault⟩

end TypeFootprint.Config
