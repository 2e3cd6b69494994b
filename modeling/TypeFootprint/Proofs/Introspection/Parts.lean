import TypeFootprint.Proofs.Introspection.Variations

/-!
# Reading the parts of a response

`Part.read` reads a value as what it stands for, and `Part.slot` is the slot of a record for it.
Two readings `Agree` if they have the same result, or no result both.

What a record is read as depends on three things only: whether its members are fit for their keys,
what is found in each slot, and its length if it is an array.  `PartsAgree` says that two records
are alike in these.  For objects it comes from their members (`MembersAgree.partsAgree`), and for
arrays from their items (`ItemsAgree.partsAgree`).
-/

set_option autoImplicit false

namespace TypeFootprint.Introspection

/-! ## The same results -/

section Agree

variable {α β ε : Type}

/-- Two computations have the same result, if one of them has a result at all. -/
def Agree (m m' : Except ε α) : Prop := ∀ a, m = .ok a ↔ m' = .ok a

namespace Agree

variable {m m' m'' : Except ε α}

theorem refl (m : Except ε α) : Agree m m := fun _ ↦ .rfl

theorem symm (h : Agree m m') : Agree m' m := fun a ↦ (h a).symm

theorem trans (h : Agree m m') (h' : Agree m' m'') : Agree m m'' := fun a ↦ (h a).trans (h' a)

theorem error (e e' : ε) : Agree (α := α) (.error e) (.error e') := by simp [Agree]

theorem bind {f f' : α → Except ε β} (h : Agree m m')
    (hf : ∀ a, m = .ok a → Agree (f a) (f' a)) : Agree (m >>= f) (m' >>= f') := by
  intro b
  cases hm : m with
  | ok a =>
    rw [(h a).1 hm]
    exact hf a hm b
  | error e =>
    cases hm' : m' with
    | ok a =>
      rw [(h a).2 hm'] at hm
      cases hm
    | error e' => exact error e e' b

theorem map (f : α → β) (h : Agree m m') : Agree (m.map f) (m'.map f) :=
  h.bind (f := fun a ↦ .ok (f a)) fun _ _ ↦ refl _

theorem mapM {γ : Type} {f : γ → Except ε β} {vs ws : List γ}
    (h : List.Forall₂ (fun v w ↦ Agree (f v) (f w)) vs ws) : Agree (vs.mapM f) (ws.mapM f) := by
  induction h with
  | nil => exact refl _
  | cons hv _ ih =>
    rw [List.mapM_cons, List.mapM_cons]
    exact hv.bind fun a _ ↦ ih.bind fun as _ ↦ refl _

end Agree

end Agree

/-! ## Reading a part -/

namespace Part

/-- What a part is read as. -/
def Value : Part → Type
  | ignored => Unit
  | unit => Unit
  | kind => ReferenceKind
  | typeKind => TypeKind
  | text => String
  | flag => Bool
  | named => String
  | reference => Reference
  | input => InputEntry
  | field => FieldEntry
  | enumValue => EnumEntry
  | type => TypeEntry
  | directive => DirectiveEntry
  | schema => Result
  | holder => Result
  | response => Result
  | list p => List p.Value
  | optional p => Option p.Value

end Part

/-- What an object holds as its schema. -/
def readHolder (v : Json) : Except ShapeFault Result :=
  match (v.get? "__schema").filter fun schema ↦ !schema.isNull with
  | some schema => readResult schema
  | none => .error (.missingField "__schema")

/-- What a response holds as its schema. -/
def readResponse (v : Json) : Except ShapeFault Result :=
  readHolder (((v.get? "data").filter fun data ↦ !data.isNull).getD v)

theorem ofJson_eq_ok_iff {v : Json} {r : Result} : ofJson v = .ok r ↔ readResponse v = .ok r := by
  rw [ofJson, schemaOf?, readResponse, readHolder]
  cases (((v.get? "data").filter fun data ↦ !data.isNull).getD v |>.get? "__schema").filter
    fun schema ↦ !schema.isNull with
  | none => cases reportedError? v <;> simp
  | some schema => cases h : readResult schema <;> simp [Except.mapError, h]

namespace Part

/-- Reads a part.  `inType` says whether it stands in a type. -/
def read (inType : Bool) : (p : Part) → Json → Except ShapeFault p.Value
  | ignored, _ => .ok ()
  | unit, v =>
    match unitFault? inType v with
    | some e => .error e
    | none => .ok ()
  | kind, v => readKind inType v
  | typeKind, v => readTypeKind v
  | text, v => v.asString
  | flag, v => v.asBoolean
  | named, v => readNamed inType v
  | reference, v => readReference inType v
  | input, v => readInput inType v
  | field, v => readField v
  | enumValue, v => readEnumValue v
  | type, v => readType v
  | directive, v => readDirective v
  | schema, v => readResult v
  | holder, v => readHolder v
  | response, v => readResponse v
  | list p, v => v.asList (p.read inType)
  | optional p, v => v.asOptional (p.read inType)

/-- What stands for a part whose key is absent. -/
def ifAbsent : (p : Part) → Option p.Value
  | ignored => some ()
  | list _ => some ([] : List _)
  | optional _ => some (none : Option _)
  | flag => some false
  | _ => none

/-- What stands for a part before which an array ends. -/
def ifCut : (p : Part) → Option p.Value
  | list _ => some ([] : List _)
  | flag => some false
  | _ => none

/-- The slot of a part under a key. -/
def slot (inType : Bool) (key : String) (p : Part) : Slot Json p.Value :=
  ⟨key, p.read inType, p.ifAbsent, p.ifCut⟩

end Part

/-- What may be wrong with the members under some keys. -/
def checks (inType : Bool) (slots : List (String × Part)) :
    List (String × (Json → Option ShapeFault)) :=
  slots.map fun s ↦ (s.2.slot inType s.1).check

/-- A member is fit for what its key stands for. -/
def Passes (inType : Bool) (memberPart : String → Part) (m : String × Json) : Prop :=
  ∃ a, (memberPart m.1).read inType m.2 = .ok a

theorem check_slot_eq_none_iff {inType : Bool} {q : Part} {k : String} {v : Json} :
    (q.slot inType k).check.2 v = none ↔ ∃ a, q.read inType v = .ok a := by
  simp only [Slot.check, Part.slot]
  cases q.read inType v <;> simp

theorem firstFault?_eq_none_iff {checks : List (String × (Json → Option ShapeFault))}
    {ms : List (String × Json)} :
    RecordParts.firstFault? checks ms = none ↔
      ∀ m ∈ ms, ∀ c, checks.find? (fun c ↦ c.1 == m.1) = some c → c.2 m.2 = none := by
  induction ms with
  | nil => simp [RecordParts.firstFault?]
  | cons m ms ih =>
    obtain ⟨k, v⟩ := m
    rw [RecordParts.firstFault?, List.forall_mem_cons, ← ih]
    cases hc : checks.find? fun c ↦ c.1 == k with
    | none => simp
    | some c => cases hv : c.2 v <;> simp [hv]

/-- An object passes its checks exactly if its members do. -/
theorem check_eq_ok_iff {inType : Bool} {memberPart : String → Part} {slots : List (String × Part)}
    (hslots : ∀ s ∈ slots, memberPart s.1 = s.2) (ms : List (String × Json)) :
    RecordParts.check (.keyed ms) (checks inType slots) = .ok () ↔
      ∀ m ∈ ms, m.1 ∈ slots.map Prod.fst → Passes inType memberPart m := by
  have hfind (m : String × Json) :
      (∀ c, (checks inType slots).find? (fun c ↦ c.1 == m.1) = some c → c.2 m.2 = none) ↔
        (m.1 ∈ slots.map Prod.fst → Passes inType memberPart m) := by
    rw [checks, List.find?_map]
    change (∀ c, (slots.find? fun s ↦ s.1 == m.1).map _ = some c → _) ↔ _
    cases hs : slots.find? fun s ↦ s.1 == m.1 with
    | none =>
      have hm : m.1 ∉ slots.map Prod.fst := by
        rw [List.mem_map]
        rintro ⟨s, hmem, hkey⟩
        exact List.find?_eq_none.1 hs s hmem (beq_iff_eq.2 hkey)
      simp [hm]
    | some s =>
      have hkey : s.1 = m.1 := by simpa using List.find?_some hs
      have hm : m.1 ∈ slots.map Prod.fst := List.mem_map.2 ⟨s, List.mem_of_find?_eq_some hs, hkey⟩
      have hpart := hslots s (List.mem_of_find?_eq_some hs)
      rw [hkey] at hpart
      rw [Passes, hpart]
      simp [hm, check_slot_eq_none_iff]
  have hfault : RecordParts.check (.keyed ms) (checks inType slots) = .ok () ↔
      RecordParts.firstFault? (checks inType slots) ms = none := by
    rw [RecordParts.check]
    cases RecordParts.firstFault? (checks inType slots) ms <;> simp
  rw [hfault, firstFault?_eq_none_iff]
  exact forall₂_congr fun m _ ↦ hfind m

/-- What the value of a key is read as, or its absence. -/
def Part.readMember (inType : Bool) (key : String) (q : Part) :
    Option Json → Except ShapeFault q.Value
  | some v => q.read inType v
  | none =>
    match q.ifAbsent with
    | some x => .ok x
    | none => .error (.missingField key)

theorem get_keyed {inType : Bool} {ms : List (String × Json)} {record : RecordName} {i : Nat}
    {k : String} {q : Part} :
    RecordParts.get (.keyed ms) record i (q.slot inType k) =
      q.readMember inType k (Json.lookUp? k ms) := by
  simp only [RecordParts.get, Json.lookUp?, Part.slot]
  cases ms.find? fun m ↦ m.1 == k with
  | some m => rfl
  | none =>
    simp only [Option.map_none, Part.readMember]
    cases q.ifAbsent <;> rfl

/-- What an object is read as whose only key is the value. -/
def readSingle (inType : Bool) : List (String × Json) → Except ShapeFault (Option String)
  | [] => .ok none
  | [(k, v)] => (Part.unit.read inType v).map fun _ ↦ some k
  | _ => .error .notSingleKey

/-- The members of two objects are read alike. -/
structure MembersAgree (memberPart : String → Part) (ms ns : List (String × Json)) : Prop where
  value : ∀ inType k, Agree ((memberPart k).readMember inType k (Json.lookUp? k ms))
    ((memberPart k).readMember inType k (Json.lookUp? k ns))
  passes : ∀ inType (keys : List String), (∀ m ∈ ms, m.1 ∈ keys → Passes inType memberPart m) ↔
    ∀ m ∈ ns, m.1 ∈ keys → Passes inType memberPart m
  single : (∀ k, memberPart k = .unit) → ∀ inType,
    Agree (readSingle inType ms) (readSingle inType ns)

/-- The items of two arrays are read alike. -/
inductive ItemsAgree : (itemPart : Nat → Part) → List Json → List Json → Prop
  | nil (itemPart : Nat → Part) : ItemsAgree itemPart [] []
  | cons {itemPart : Nat → Part} {v w : Json} {vs ws : List Json}
      (first : ∀ inType, Agree ((itemPart 0).read inType v) ((itemPart 0).read inType w))
      (others : ItemsAgree (fun i ↦ itemPart (i + 1)) vs ws) :
      ItemsAgree itemPart (v :: vs) (w :: ws)

/-- The parts of two records are read alike. -/
structure PartsAgree (memberPart : String → Part) (itemPart : Nat → Part) (P Q : RecordParts Json) :
    Prop where
  check : ∀ inType (slots : List (String × Part)), (∀ s ∈ slots, memberPart s.1 = s.2) →
    Agree (P.check (checks inType slots)) (Q.check (checks inType slots))
  get : ∀ inType record i k q, memberPart k = q → itemPart i = q →
    Agree (P.get record i (q.slot inType k)) (Q.get record i (q.slot inType k))
  finish : ∀ record counted, Agree (P.finish record counted) (Q.finish record counted)

variable {memberPart : String → Part} {itemPart : Nat → Part} {ms ns : List (String × Json)}
  {vs ws : List Json}

theorem MembersAgree.partsAgree (h : MembersAgree memberPart ms ns) :
    PartsAgree memberPart itemPart (.keyed ms) (.keyed ns) where
  check inType slots hslots a := by
    rw [check_eq_ok_iff hslots, check_eq_ok_iff hslots]
    exact h.passes inType _
  get inType record i k q hk _ := by
    subst hk
    rw [get_keyed, get_keyed]
    exact h.value inType k
  finish record counted := .refl _

theorem ItemsAgree.length_eq (h : ItemsAgree itemPart vs ws) : vs.length = ws.length := by
  induction h with
  | nil => rfl
  | cons _ _ ih => rw [List.length_cons, List.length_cons, ih]

theorem ItemsAgree.refl (itemPart : Nat → Part) (vs : List Json) : ItemsAgree itemPart vs vs := by
  induction vs generalizing itemPart with
  | nil => exact .nil _
  | cons v vs ih => exact .cons (fun _ ↦ .refl _) (ih _)

theorem ItemsAgree.getElem? (h : ItemsAgree itemPart vs ws) (i : Nat) :
    vs[i]? = none ∧ ws[i]? = none ∨ ∃ v w, vs[i]? = some v ∧ ws[i]? = some w ∧
      ∀ inType, Agree ((itemPart i).read inType v) ((itemPart i).read inType w) := by
  induction h generalizing i with
  | nil => exact .inl ⟨rfl, rfl⟩
  | @cons _ v w _ _ hfirst _ ih =>
    cases i with
    | zero => exact .inr ⟨v, w, rfl, rfl, hfirst⟩
    | succ i => exact ih i

theorem ItemsAgree.partsAgree (h : ItemsAgree itemPart vs ws) :
    PartsAgree memberPart itemPart (.listed vs) (.listed ws) where
  check inType slots _ := .refl _
  get inType record i k q _ hi := by
    subst hi
    rw [RecordParts.get, RecordParts.get]
    rcases h.getElem? i with ⟨hv, hw⟩ | ⟨v, w, hv, hw, hagree⟩
    · rw [hv, hw]
      exact .refl _
    · rw [hv, hw]
      exact hagree inType
  finish record counted := by
    rw [RecordParts.finish, RecordParts.finish, h.length_eq]
    exact .refl _

end TypeFootprint.Introspection
