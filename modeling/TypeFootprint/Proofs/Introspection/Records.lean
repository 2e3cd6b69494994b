import TypeFootprint.Proofs.Introspection.Parts

/-!
# Records that are read alike

Each record of a response is checked and then read slot by slot, so two records whose parts are read
alike are read alike.  References and types need more: a reference is read together with what is
inside of it, and a type by the kind that it names.

`agree_read_object` and `agree_read_array` put this together for all parts of a response.
-/

set_option autoImplicit false

namespace TypeFootprint.Introspection

variable {memberPart : String → Part} {itemPart : Nat → Part} {ms ns : List (String × Json)}
  {vs ws : List Json}

/-! ## Records -/

/-- A record as a value. -/
def toJson : RecordParts Json → Json
  | .keyed members => .object members
  | .listed items => .array items

variable {P Q : RecordParts Json} {inType : Bool}

theorem Agree.asParts {α : Type} {f : RecordParts Json → Except ShapeFault α} {record : RecordName}
    (h : Agree (f P) (f Q)) :
    Agree ((toJson P).asParts record >>= f) ((toJson Q).asParts record >>= f) := by
  cases P <;> cases Q <;> exact h

/-- Two records are read alike as this part. -/
abbrev RecordsAgree (p : Part) (items : List Json) (P Q : RecordParts Json) : Prop :=
  PartsAgree p.memberPart (fun i ↦ p.itemPart items i) P Q

theorem agree_readNamed (items : List Json) (h : RecordsAgree .named items P Q) :
    Agree (readNamed inType (toJson P)) (readNamed inType (toJson Q)) := by
  refine Agree.asParts ?_
  exact (h.check inType Part.named.slots (by decide)).bind fun _ _ ↦
    (h.get inType _ 0 "name" .text rfl rfl).bind fun _ _ ↦
    (h.finish _ inType).bind fun _ _ ↦ .refl _

theorem agree_readInput (items : List Json) (h : RecordsAgree .input items P Q) :
    Agree (readInput inType (toJson P)) (readInput inType (toJson Q)) := by
  refine Agree.asParts ?_
  exact (h.check inType Part.input.slots (by decide)).bind fun _ _ ↦
    (h.get inType _ 0 "name" .text rfl rfl).bind fun _ _ ↦
    (h.get inType _ 1 "description" (.optional .text) rfl rfl).bind fun _ _ ↦
    (h.get inType _ 2 "type" .reference rfl rfl).bind fun _ _ ↦
    (h.get inType _ 3 "defaultValue" (.optional .text) rfl rfl).bind fun _ _ ↦
    (h.finish _ inType).bind fun _ _ ↦ .refl _

theorem agree_readField (items : List Json) (h : RecordsAgree .field items P Q) :
    Agree (readField (toJson P)) (readField (toJson Q)) := by
  refine Agree.asParts ?_
  exact (h.check true Part.field.slots (by decide)).bind fun _ _ ↦
    (h.get true _ 0 "name" .text rfl rfl).bind fun _ _ ↦
    (h.get true _ 1 "description" (.optional .text) rfl rfl).bind fun _ _ ↦
    (h.get true _ 2 "args" (.list .input) rfl rfl).bind fun _ _ ↦
    (h.get true _ 3 "type" .reference rfl rfl).bind fun _ _ ↦
    (h.get true _ 4 "isDeprecated" .flag rfl rfl).bind fun _ _ ↦
    (h.get true _ 5 "deprecationReason" (.optional .text) rfl rfl).bind fun _ _ ↦
    (h.finish _ true).bind fun _ _ ↦ .refl _

theorem agree_readEnumValue (items : List Json) (h : RecordsAgree .enumValue items P Q) :
    Agree (readEnumValue (toJson P)) (readEnumValue (toJson Q)) := by
  refine Agree.asParts ?_
  exact (h.check true Part.enumValue.slots (by decide)).bind fun _ _ ↦
    (h.get true _ 0 "name" .text rfl rfl).bind fun _ _ ↦
    (h.get true _ 1 "description" (.optional .text) rfl rfl).bind fun _ _ ↦
    (h.get true _ 2 "isDeprecated" .flag rfl rfl).bind fun _ _ ↦
    (h.get true _ 3 "deprecationReason" (.optional .text) rfl rfl).bind fun _ _ ↦
    (h.finish _ true).bind fun _ _ ↦ .refl _

theorem agree_readDirective (items : List Json) (h : RecordsAgree .directive items P Q) :
    Agree (readDirective (toJson P)) (readDirective (toJson Q)) := by
  refine Agree.asParts ?_
  exact (h.check false Part.directive.slots (by decide)).bind fun _ _ ↦
    (h.get false _ 0 "name" .text rfl rfl).bind fun _ _ ↦
    (h.get false _ 1 "description" (.optional .text) rfl rfl).bind fun _ _ ↦
    (h.get false _ 2 "locations" (.list .text) rfl rfl).bind fun _ _ ↦
    (h.get false _ 3 "args" (.list .input) rfl rfl).bind fun _ _ ↦
    (h.get false _ 4 "isRepeatable" .flag rfl rfl).bind fun _ _ ↦
    (h.finish _ false).bind fun _ _ ↦ .refl _

theorem agree_readResult (items : List Json) (h : RecordsAgree .schema items P Q) :
    Agree (readResult (toJson P)) (readResult (toJson Q)) := by
  refine Agree.asParts ?_
  exact (h.check false Part.schema.slots (by decide)).bind fun _ _ ↦
    (h.get false _ 0 "queryType" (.optional .named) rfl rfl).bind fun _ _ ↦
    (h.get false _ 1 "mutationType" (.optional .named) rfl rfl).bind fun _ _ ↦
    (h.get false _ 2 "subscriptionType" (.optional .named) rfl rfl).bind fun _ _ ↦
    (h.get false _ 3 "types" (.list .type) rfl rfl).bind fun _ _ ↦
    (h.get false _ 4 "directives" (.list .directive) rfl rfl).bind fun _ _ ↦
    (h.finish _ false).bind fun _ _ ↦ .refl _

/-! ## References -/

/-- The parts of a record with something done to their values. -/
def mapParts {ν μ : Type} (f : ν → μ) : RecordParts ν → RecordParts μ
  | .keyed members => .keyed (members.map fun m ↦ (m.1, f m.2))
  | .listed items => .listed (items.map f)

section MapParts

variable {ν μ α : Type} (f : ν → μ) (R : RecordParts ν)

theorem firstFault?_map (checks : List (String × (μ → Option ShapeFault)))
    (members : List (String × ν)) :
    RecordParts.firstFault? checks (members.map fun m ↦ (m.1, f m.2)) =
      RecordParts.firstFault? (checks.map fun c ↦ (c.1, c.2 ∘ f)) members := by
  induction members with
  | nil => rfl
  | cons m members ih =>
    have hfind : (checks.map fun c ↦ (c.1, c.2 ∘ f)).find? (fun c ↦ c.1 == m.1) =
        (checks.find? fun c ↦ c.1 == m.1).map fun c ↦ (c.1, c.2 ∘ f) := List.find?_map ..
    rw [List.map_cons, RecordParts.firstFault?, RecordParts.firstFault?, ih, hfind]
    cases checks.find? fun c ↦ c.1 == m.1 <;> rfl

theorem check_mapParts (checks : List (String × (μ → Option ShapeFault))) :
    (mapParts f R).check checks = R.check (checks.map fun c ↦ (c.1, c.2 ∘ f)) := by
  cases R with
  | keyed members => rw [mapParts, RecordParts.check, RecordParts.check, firstFault?_map]
  | listed items => rfl

theorem get_mapParts (record : RecordName) (i : Nat) (s : Slot μ α) :
    (mapParts f R).get record i s = R.get record i ⟨s.key, s.read ∘ f, s.ifAbsent, s.ifCut⟩ := by
  cases R with
  | keyed members =>
    have hfind : (members.map fun m ↦ (m.1, f m.2)).find? (fun m ↦ m.1 == s.key) =
        (members.find? fun m ↦ m.1 == s.key).map fun m ↦ (m.1, f m.2) := List.find?_map ..
    rw [mapParts, RecordParts.get, RecordParts.get, hfind]
    cases members.find? fun m ↦ m.1 == s.key <;> rfl
  | listed items =>
    rw [mapParts, RecordParts.get, RecordParts.get, List.getElem?_map]
    cases items[i]? <;> rfl

theorem finish_mapParts (record : RecordName) (counted : Bool) :
    (mapParts f R).finish record counted = R.finish record counted := by
  cases R with
  | keyed members => rfl
  | listed items => rw [mapParts, RecordParts.finish, RecordParts.finish, List.length_map]

end MapParts

theorem readMembers_eq_map (inType : Bool) (ms : List (String × Json)) :
    readMembers inType ms = ms.map fun m ↦ (m.1, m.2, readReference inType m.2) := by
  induction ms with
  | nil => rfl
  | cons m ms ih => rw [readMembers, ih, List.map_cons]

theorem readItems_eq_map (inType : Bool) (vs : List Json) :
    readItems inType vs = vs.map fun v ↦ (v, readReference inType v) := by
  induction vs with
  | nil => rfl
  | cons v vs ih => rw [readItems, ih, List.map_cons]

/-- A value with its reading. -/
def withReading (inType : Bool) (v : Json) : ReadReference := (v, readReference inType v)

theorem readReference_toJson (inType : Bool) (P : RecordParts Json) :
    readReference inType (toJson P) =
      assembleReference inType (mapParts (withReading inType) P) := by
  cases P with
  | keyed ms => rw [toJson, readReference, readMembers_eq_map]; rfl
  | listed vs => rw [toJson, readReference, readItems_eq_map]; rfl

/-- The slot of what is inside of a reference. -/
theorem innerSlot_eq (inType : Bool) :
    Slot.mk "ofType" (readInner ∘ withReading inType) (some none) none =
      (Part.optional .reference).slot inType "ofType" := by
  have hread : readInner ∘ withReading inType = (Part.optional .reference).read inType := by
    funext v
    cases v <;> rfl
  rw [hread]
  rfl

theorem referenceChecks_eq (inType : Bool) :
    [(Part.kind.slot inType "kind").check, ((Part.optional .text).slot inType "name").check,
      (Slot.mk "ofType" (readInner ∘ withReading inType) (some none) none).check] =
      checks inType Part.reference.slots := by
  rw [innerSlot_eq]
  rfl

theorem agree_readReference (items : List Json) (h : RecordsAgree .reference items P Q) :
    Agree (readReference inType (toJson P)) (readReference inType (toJson Q)) := by
  rw [readReference_toJson, readReference_toJson, assembleReference, assembleReference]
  refine Agree.bind ?_ fun _ _ ↦ Agree.bind ?_ fun _ _ ↦ Agree.bind ?_ fun _ _ ↦
    Agree.bind ?_ fun _ _ ↦ Agree.bind ?_ fun _ _ ↦ .refl _
  · have hcheck := h.check inType Part.reference.slots (by decide)
    rw [← referenceChecks_eq] at hcheck
    rw [check_mapParts, check_mapParts]
    exact hcheck
  · rw [get_mapParts, get_mapParts]
    exact h.get inType _ 0 "kind" .kind rfl rfl
  · rw [get_mapParts, get_mapParts]
    exact h.get inType _ 1 "name" (.optional .text) rfl rfl
  · have hinner := h.get inType referenceRecord 2 "ofType" (.optional .reference) rfl rfl
    rw [← innerSlot_eq] at hinner
    rw [get_mapParts, get_mapParts]
    exact hinner
  · rw [finish_mapParts, finish_mapParts]
    exact h.finish _ inType

/-! ## Types -/

/-- The part of a type that is read once its kind is known. -/
def readOfKind (kind : TypeKind) (p : RecordParts Json) : Except ShapeFault TypeEntry := do
  let record := typeRecord kind
  p.check (nameSlot.check :: (textSlot "description").check :: bodyChecks kind)
  let name ← p.get record 0 nameSlot
  let description ← p.get record 1 (textSlot "description")
  let body ← readBody p kind
  p.finish record true
  .ok ⟨name, description, body⟩

theorem agree_readType_keyed (ms : List (String × Json)) :
    Agree (readType (.object ms))
      (Part.typeKind.readMember true "kind" (Json.lookUp? "kind" ms) >>= fun k ↦
        readOfKind k (.keyed ms)) := by
  rw [readType, splitType]
  cases Json.lookUp? "kind" ms with
  | none => exact .error _ _
  | some v =>
    change Agree ((readTypeKind v).map (fun k ↦ (k, RecordParts.keyed ms)) >>= _)
      (readTypeKind v >>= fun k ↦ readOfKind k (.keyed ms))
    cases readTypeKind v <;> exact .refl _

theorem agree_readOfKind {kind : TypeKind}
    (h : PartsAgree Part.type.memberPart (Part.partAt (Part.ofKindSlots kind)) P Q) :
    Agree (readOfKind kind P) (readOfKind kind Q) := by
  rw [readOfKind, readOfKind]
  refine Agree.bind ?_ fun _ _ ↦ (h.get true _ 0 "name" .text rfl rfl).bind fun _ _ ↦
    (h.get true _ 1 "description" (.optional .text) rfl rfl).bind fun _ _ ↦ Agree.bind ?_ fun _ _ ↦
    (h.finish _ true).bind fun _ _ ↦ .refl _
  · have hchecks : nameSlot.check :: (textSlot "description").check :: bodyChecks kind =
        checks true (Part.ofKindSlots kind) := by
      cases kind <;> rfl
    rw [hchecks]
    exact h.check true (Part.ofKindSlots kind) (by cases kind <;> decide)
  · cases kind with
    | scalar => exact .refl _
    | object =>
      exact (h.get true _ 2 "fields" (.list .field) rfl rfl).bind fun _ _ ↦
        (h.get true _ 3 "interfaces" (.list .named) rfl rfl).bind fun _ _ ↦ .refl _
    | interface =>
      exact (h.get true _ 2 "fields" (.list .field) rfl rfl).bind fun _ _ ↦
        (h.get true _ 3 "interfaces" (.list .named) rfl rfl).bind fun _ _ ↦ .refl _
    | union =>
      exact (h.get true _ 2 "possibleTypes" (.list .named) rfl rfl).bind fun _ _ ↦ .refl _
    | enum =>
      exact (h.get true _ 2 "enumValues" (.list .enumValue) rfl rfl).bind fun _ _ ↦ .refl _
    | inputObject =>
      exact (h.get true _ 2 "inputFields" (.list .input) rfl rfl).bind fun _ _ ↦ .refl _

theorem agree_readType_object (h : MembersAgree Part.type.memberPart ms ns) :
    Agree (readType (.object ms)) (readType (.object ns)) := by
  have hkind : Agree (Part.typeKind.readMember true "kind" (Json.lookUp? "kind" ms))
      (Part.typeKind.readMember true "kind" (Json.lookUp? "kind" ns)) := h.value true "kind"
  refine (agree_readType_keyed ms).trans (.trans ?_ (agree_readType_keyed ns).symm)
  exact hkind.bind fun k _ ↦ agree_readOfKind h.partsAgree

theorem agree_readType_listed (v : Json) (vs : List Json) :
    Agree (readType (.array (v :: vs))) (readTypeKind v >>= fun k ↦ readOfKind k (.listed vs)) := by
  rw [readType, splitType]
  cases readTypeKind v <;> exact .refl _

theorem agree_readType_array (h : ItemsAgree (fun i ↦ Part.type.itemPart vs i) vs ws) :
    Agree (readType (.array vs)) (readType (.array ws)) := by
  cases h with
  | nil => exact .refl _
  | @cons _ v w vs ws hfirst hothers =>
    have hkind : Agree (readTypeKind v) (readTypeKind w) := hfirst true
    refine (agree_readType_listed v vs).trans (.trans ?_ (agree_readType_listed w ws).symm)
    refine hkind.bind fun k hk ↦ agree_readOfKind (ItemsAgree.partsAgree ?_)
    have hparts : (fun i ↦ Part.type.itemPart (v :: vs) (i + 1)) =
        Part.partAt (Part.ofKindSlots k) := by
      funext i
      simp [Part.itemPart, Part.itemSlots, Part.partAt, hk]
    exact hparts ▸ hothers

/-! ## Responses -/

theorem agree_readHolder_keyed (ms : List (String × Json)) :
    Agree (readHolder (.object ms))
      (Part.schema.readMember false "__schema" (Json.lookUp? "__schema" ms)) := by
  rw [readHolder, Json.get?]
  cases Json.lookUp? "__schema" ms with
  | none => exact .error _ _
  | some v => cases v <;> first | exact .refl _ | exact .error _ _

/-- The result that is there under the data, or else the schema among the members. -/
def orSchema (ms : List (String × Json)) : Option Result → Except ShapeFault Result
  | some r => .ok r
  | none => Part.schema.readMember false "__schema" (Json.lookUp? "__schema" ms)

theorem agree_readResponse_keyed (ms : List (String × Json)) :
    Agree (readResponse (.object ms))
      ((Part.optional .holder).readMember false "data" (Json.lookUp? "data" ms) >>=
        orSchema ms) := by
  have hbare := agree_readHolder_keyed ms
  rw [readResponse, Json.get?]
  cases Json.lookUp? "data" ms with
  | none => exact hbare
  | some v =>
    have hthere (w : Json) :
        Agree (readHolder w) ((readHolder w).map some >>= orSchema ms) := by
      cases readHolder w <;> exact .refl _
    cases v with
    | null => exact hbare
    | _ => exact hthere _

theorem agree_readHolder_object (h : MembersAgree Part.holder.memberPart ms ns) :
    Agree (readHolder (.object ms)) (readHolder (.object ns)) :=
  (agree_readHolder_keyed ms).trans
    (.trans (h.value false "__schema") (agree_readHolder_keyed ns).symm)

theorem agree_readResponse_object (h : MembersAgree Part.response.memberPart ms ns) :
    Agree (readResponse (.object ms)) (readResponse (.object ns)) := by
  have hdata : Agree ((Part.optional .holder).readMember false "data" (Json.lookUp? "data" ms))
      ((Part.optional .holder).readMember false "data" (Json.lookUp? "data" ns)) :=
    h.value false "data"
  refine (agree_readResponse_keyed ms).trans (.trans ?_ (agree_readResponse_keyed ns).symm)
  refine hdata.bind fun data _ ↦ ?_
  cases data with
  | some r => exact .refl _
  | none => exact h.value false "__schema"

/-! ## All parts -/

/-- The kind that the only key of an object names. -/
def kindOfKey : Option String → Except ShapeFault ReferenceKind
  | some k => kindOf k
  | none => .error .notSingleKey

theorem agree_kind (hsingle : Agree (readSingle inType ms) (readSingle inType ns)) :
    Agree (readKind inType (.object ms)) (readKind inType (.object ns)) := by
  have hread (ls : List (String × Json)) : Agree (readKind inType (.object ls))
        (readSingle inType ls >>= kindOfKey) := by
    match ls with
    | [] => exact .refl _
    | [(k, v)] =>
      rw [readKind, readSingle, Part.read]
      cases unitFault? inType v with
      | none =>
        change Agree (kindOf k >>= fun k ↦ .ok k) (kindOf k)
        cases kindOf k <;> exact .refl _
      | some e => cases kindOf k <;> exact .error _ _
    | _ :: _ :: _ => exact .refl _
  exact (hread ms).trans ((hsingle.bind fun _ _ ↦ .refl _).trans (hread ns).symm)

theorem agree_unit (hsingle : Agree (readSingle inType ms) (readSingle inType ns)) :
    Agree (Part.unit.read inType (.object ms)) (Part.unit.read inType (.object ns)) := by
  have hread (ls : List (String × Json)) : Agree (Part.unit.read inType (.object ls))
      (readSingle inType ls >>= fun key ↦
        if key = none ∧ inType = true then .ok () else .error .notSingleKey) := by
    match ls with
    | [] => cases inType <;> first | exact .refl _ | exact .error _ _
    | [(k, v)] =>
      rw [readSingle]
      cases Part.unit.read inType v <;> exact .error _ _
    | _ :: _ :: _ => exact .error _ _
  exact (hread ms).trans ((hsingle.bind fun _ _ ↦ .refl _).trans (hread ns).symm)

/-- Objects whose members are read alike are read alike. -/
theorem agree_read_object {p : Part} (h : MembersAgree p.memberPart ms ns) :
    Agree (p.read inType (.object ms)) (p.read inType (.object ns)) := by
  induction p with
  | ignored => exact .refl _
  | unit => exact agree_unit (h.single (fun _ ↦ rfl) inType)
  | kind => exact agree_kind (h.single (fun _ ↦ rfl) inType)
  | typeKind => exact .error _ _
  | text => exact .error _ _
  | flag => exact .error _ _
  | named => exact agree_readNamed [] h.partsAgree
  | reference => exact agree_readReference [] h.partsAgree
  | input => exact agree_readInput [] h.partsAgree
  | field => exact agree_readField [] h.partsAgree
  | enumValue => exact agree_readEnumValue [] h.partsAgree
  | type => exact agree_readType_object h
  | directive => exact agree_readDirective [] h.partsAgree
  | schema => exact agree_readResult [] h.partsAgree
  | holder => exact agree_readHolder_object h
  | response => exact agree_readResponse_object h
  | list p _ => exact .error _ _
  | optional p ih => exact (ih h).map some

theorem agree_mapM {q : Part} (h : ItemsAgree (fun _ ↦ q) vs ws) :
    Agree (vs.mapM (q.read inType)) (ws.mapM (q.read inType)) := by
  refine .mapM ?_
  generalize hparts : (fun _ : Nat ↦ q) = itemPart at h
  induction h with
  | nil => exact .nil
  | cons hfirst _ ih =>
    subst hparts
    exact .cons (hfirst inType) (ih rfl)

/-- Arrays whose items are read alike are read alike. -/
theorem agree_read_array {p : Part} (h : ItemsAgree (fun i ↦ p.itemPart vs i) vs ws) :
    Agree (p.read inType (.array vs)) (p.read inType (.array ws)) := by
  induction p with
  | ignored => exact .refl _
  | unit => exact .error _ _
  | kind => exact .error _ _
  | typeKind => exact .error _ _
  | text => exact .error _ _
  | flag => exact .error _ _
  | named => exact agree_readNamed vs h.partsAgree
  | reference => exact agree_readReference vs h.partsAgree
  | input => exact agree_readInput vs h.partsAgree
  | field => exact agree_readField vs h.partsAgree
  | enumValue => exact agree_readEnumValue vs h.partsAgree
  | type => exact agree_readType_array h
  | directive => exact agree_readDirective vs h.partsAgree
  | schema => exact agree_readResult vs h.partsAgree
  | holder => exact .error _ _
  | response => exact .error _ _
  | list p _ => exact agree_mapM h
  | optional p ih => exact (ih h).map some

end TypeFootprint.Introspection
