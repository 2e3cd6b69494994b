import TypeFootprint.Proofs.Introspection.Records
import TypeFootprint.Proofs.Lists

/-!
# Variations of a response make no difference

A single variation leaves what the members of an object, or the items of an array, are read as.  So
all values that vary from a response are read as the same result, however many variations there are
and at whatever depth (`parse_of_varies`).

Two things are no variations, and make a difference (`exists_addition_not_read`): another key in a
kind that is written as an object, and brackets and braces that are nested too deep for the reader.
-/

set_option autoImplicit false

namespace TypeFootprint.Introspection

variable {memberPart : String → Part} {itemPart : Nat → Part} {ms ns : List (String × Json)}

/-! ## Single variations -/

section Steps

variable {p : Part} {k : String} {v w : Json} {before after : List (String × Json)}

theorem lookUp?_append (before after : List (String × Json)) (key : String) :
    Json.lookUp? key (before ++ after) = (Json.lookUp? key before).or (Json.lookUp? key after) := by
  rw [Json.lookUp?, Json.lookUp?, Json.lookUp?, List.find?_append]
  cases before.find? fun m ↦ m.1 == key <;> rfl

theorem lookUp?_cons (m : String × Json) (ms : List (String × Json)) (key : String) :
    Json.lookUp? key (m :: ms) = if m.1 = key then some m.2 else Json.lookUp? key ms := by
  rw [Json.lookUp?, Json.lookUp?, List.find?_cons]
  by_cases h : m.1 = key
  · rw [if_pos h, beq_iff_eq.2 h, Option.map_some]
  · rw [if_neg h, beq_false_of_ne h]

theorem lookUp?_eq_some_iff (distinct : (ms.map Prod.fst).Nodup) :
    Json.lookUp? k ms = some v ↔ (k, v) ∈ ms := find?_map_eq_some_iff distinct

theorem lookUp?_eq_none (h : k ∉ ms.map Prod.fst) : Json.lookUp? k ms = none := by
  rw [Json.lookUp?, Option.map_eq_none_iff, List.find?_eq_none]
  exact fun m hm hkey ↦ h (List.mem_map.2 ⟨m, hm, eq_of_beq hkey⟩)

theorem membersAgree_member
    (h : ∀ inType, Agree ((memberPart k).read inType v) ((memberPart k).read inType w)) :
    MembersAgree memberPart (before ++ (k, v) :: after) (before ++ (k, w) :: after) where
  value inType key := by
    rw [lookUp?_append, lookUp?_append, lookUp?_cons, lookUp?_cons]
    cases Json.lookUp? key before with
    | some u => exact .refl _
    | none =>
      by_cases hkey : k = key
      · subst hkey
        rw [if_pos rfl, if_pos rfl]
        exact h inType
      · simpa [hkey] using .refl _
  passes inType keys := by
    have hpasses : Passes inType memberPart (k, v) ↔ Passes inType memberPart (k, w) :=
      exists_congr (h inType)
    simp only [List.forall_mem_append, List.forall_mem_cons, hpasses]
  single hunit inType := by
    have hvalue := h inType
    rw [hunit k] at hvalue
    match before, after with
    | [], [] => exact hvalue.map _
    | [], _ :: _ => exact .refl _
    | [_], _ => exact .refl _
    | _ :: _ :: _, _ => exact .refl _

theorem membersAgree_reorder (distinct : (ms.map Prod.fst).Nodup) (h : ms.Perm ns) :
    MembersAgree memberPart ms ns where
  value inType key := by
    have hlookUp : Json.lookUp? key ms = Json.lookUp? key ns := by
      refine Option.ext fun v ↦ ?_
      rw [lookUp?_eq_some_iff distinct, lookUp?_eq_some_iff ((h.map Prod.fst).nodup_iff.1 distinct),
        h.mem_iff]
    rw [hlookUp]
    exact .refl _
  passes inType keys := by simp only [h.mem_iff]
  single _ inType := by
    match ms, ns, h.length_eq with
    | [], [], _ => exact .refl _
    | [m], [n], _ =>
      obtain rfl : m = n := by simpa using h
      exact .refl _
    | _ :: _ :: _, _ :: _ :: _, _ => exact .error _ _

/-- A key makes no difference that says what its absence says. -/
theorem membersAgree_cons (new : k ∉ ms.map Prod.fst) (hpart : memberPart k ≠ .unit)
    (h : ∀ inType, ∃ a, (memberPart k).readMember inType k none = .ok a ∧
      (memberPart k).read inType v = .ok a) :
    MembersAgree memberPart ms ((k, v) :: ms) where
  value inType key := by
    rw [lookUp?_cons]
    by_cases hkey : k = key
    · subst hkey
      obtain ⟨a, habsent, hthere⟩ := h inType
      rw [if_pos rfl, lookUp?_eq_none new, habsent, Part.readMember, hthere]
      exact .refl _
    · rw [if_neg hkey]
      exact .refl _
  passes inType keys := by
    obtain ⟨a, -, hthere⟩ := h inType
    exact ⟨fun hall ↦ List.forall_mem_cons.2 ⟨fun _ ↦ ⟨a, hthere⟩, hall⟩,
      fun hall ↦ (List.forall_mem_cons.1 hall).2⟩
  single hunit _ := absurd (hunit k) hpart

theorem membersAgree_added (new : k ∉ ms.map Prod.fst) (h : memberPart k = .ignored) (v : Json) :
    MembersAgree memberPart ms ((k, v) :: ms) := by
  refine membersAgree_cons new (by simp [h]) fun inType ↦ ?_
  rw [h]
  exact ⟨(), rfl, rfl⟩

theorem membersAgree_absent (new : k ∉ ms.map Prod.fst) (h : (memberPart k).isMissable = true) :
    MembersAgree memberPart ms ((k, .null) :: ms) := by
  have hunit : memberPart k ≠ .unit := fun hunit ↦ by
    rw [hunit] at h
    cases h
  refine membersAgree_cons new hunit fun inType ↦ ?_
  generalize memberPart k = q at h ⊢
  cases q with
  | list q => exact ⟨_, rfl, rfl⟩
  | optional q => exact ⟨_, rfl, rfl⟩
  | _ => cases h

theorem itemsAgree_item {before after : List Json}
    (h : ∀ inType, Agree ((itemPart before.length).read inType v)
      ((itemPart before.length).read inType w)) :
    ItemsAgree itemPart (before ++ v :: after) (before ++ w :: after) := by
  induction before generalizing itemPart with
  | nil => exact .cons h (.refl _ _)
  | cons u before ih => exact .cons (fun _ ↦ .refl _) (ih h)

/-- A response with its schema by itself says the same under the data of another one. -/
theorem readResponse_wrapped (bare : isBare v = true) (h : Json.lookUp? "data" ms = some v) :
    readResponse v = readResponse (.object ms) := by
  match v, bare with
  | .object members, bare =>
    have hdata : ((Json.object members).get? "data").filter (fun data ↦ !data.isNull) = none := by
      rw [isBare, Option.all_eq_true] at bare
      rw [Json.get?, Option.filter_eq_none_iff]
      intro u hu
      simpa using bare u hu
    have hwrapped : ((Json.object ms).get? "data").filter (fun data ↦ !data.isNull) =
        some (.object members) := by
      rw [Json.get?, h]
      rfl
    rw [readResponse, readResponse, hdata, hwrapped]
    rfl

end Steps

/-- **Variations are read alike.** -/
theorem Varies.agree {p : Part} {v w : Json} (h : Varies p v w) (inType : Bool) :
    Agree (p.read inType v) (p.read inType w) := by
  induction h generalizing inType with
  | refl => exact .refl _
  | symm _ ih => exact (ih inType).symm
  | trans _ _ ih ih' => exact (ih inType).trans (ih' inType)
  | ignored => exact .refl _
  | member _ ih => exact agree_read_object (membersAgree_member ih)
  | item _ ih => exact agree_read_array (itemsAgree_item ih)
  | reorder distinct h => exact agree_read_object (membersAgree_reorder distinct h)
  | added v new h => exact agree_read_object (membersAgree_added new h v)
  | absent new h => exact agree_read_object (membersAgree_absent new h)
  | empty => exact .refl _
  | wrapped bare h =>
    intro r
    rw [Part.read, Part.read, readResponse_wrapped bare h]

/-- **Variations of a response make no difference.**  If a response is read, every value that varies
from it is read as the same result: as a value, from every text that stands for it, and from the
text that is written for it, unless that is nested deeper than texts may be. -/
theorem parse_of_varies {text : String} {v w : Json} {r : Result} (hv : Json.parse text = .ok v)
    (hr : parse text = .ok r) (h : Varies .response v w) :
    ofJson w = .ok r ∧ (∀ text', Json.parse text' = .ok w → parse text' = .ok r) ∧
      (w.Readable Json.maxDepth → parse w.compact = .ok r) := by
  have hread {u : Json} (hu : Varies .response v u) : ofJson u = .ok r := by
    rw [parse, hv] at hr
    exact ofJson_eq_ok_iff.2 ((hu.agree true r).1 (ofJson_eq_ok_iff.1 hr))
  refine ⟨hread h, fun text' htext ↦ ?_, fun hreadable ↦ ?_⟩
  · rw [parse, htext]
    exact hread h
  · rw [parse, Json.parse_compact hreadable]
    exact hread (h.trans (varies_sorted hreadable _))

/-- A schema that stands by itself. -/
def bareResponse : Json :=
  .object [("__schema", .object [("queryType", .object [("name", .string "Query")]),
    ("types", .array [])])]

/-- The same schema in a response with more keys, another order, and no types at all. -/
def wrappedResponse : Json :=
  .object [("extensions", .object []), ("data", .object [("__schema", .object [("types", .null),
    ("queryType", .object [("__typename", .string "__Type"), ("name", .string "Query")])])])]

theorem varies_wrappedResponse : Varies .response bareResponse wrappedResponse := by
  have hquery : Varies (Part.schema.memberPart "queryType")
      (.object [("name", .string "Query")])
      (.object [("__typename", .string "__Type"), ("name", .string "Query")]) :=
    .added _ (by decide) (by decide)
  have htypes : Varies (Part.schema.memberPart "types") (.array []) .null := .symm (.empty .type)
  have hschema : Varies (Part.response.memberPart "__schema")
      (.object [("queryType", .object [("name", .string "Query")]), ("types", .array [])])
      (.object [("types", .null),
        ("queryType", .object [("__typename", .string "__Type"), ("name", .string "Query")])]) :=
    ((@Varies.member .schema [] _ _ _ _ hquery).trans
      (@Varies.member .schema [_] _ _ _ _ htypes)).trans
        (.reorder (by decide) (.swap _ _ []))
  exact (@Varies.member .response [] _ _ _ _ hschema).trans (.wrapped rfl rfl)

/-- The two responses are read as the same result. -/
theorem parse_of_varies_wrapped :
    Json.parse bareResponse.compact = .ok bareResponse ∧
      Varies .response bareResponse wrappedResponse ∧ wrappedResponse.Readable Json.maxDepth ∧
      ∃ r, parse bareResponse.compact = .ok r ∧ parse wrappedResponse.compact = .ok r := by
  have hbare : bareResponse.Readable Json.maxDepth := by
    refine .object (by decide) (List.forall_mem_singleton.2 (.object (by decide) ?_))
    exact List.forall_mem_cons.2 ⟨.object (by decide) (List.forall_mem_singleton.2 (.string _ _)),
      List.forall_mem_singleton.2 (.array (by simp))⟩
  have hwrapped : wrappedResponse.Readable Json.maxDepth := by
    refine .object (by decide) (List.forall_mem_cons.2 ⟨.object (by decide) (by simp),
      List.forall_mem_singleton.2 (.object (by decide) (List.forall_mem_singleton.2 ?_))⟩)
    refine .object (by decide) (List.forall_mem_cons.2 ⟨.null _,
      List.forall_mem_singleton.2 (.object (by decide) ?_)⟩)
    exact List.forall_mem_cons.2 ⟨.string _ _, List.forall_mem_singleton.2 (.string _ _)⟩
  have hsorted : bareResponse.sorted = bareResponse := rfl
  have hparse : Json.parse bareResponse.compact = .ok bareResponse :=
    (Json.parse_compact hbare).trans (congrArg _ hsorted)
  have hread : ofJson bareResponse = .ok ⟨some "Query", none, none, [], []⟩ := rfl
  have hr : parse bareResponse.compact = .ok ⟨some "Query", none, none, [], []⟩ := by
    rw [parse, hparse]
    exact hread
  exact ⟨hparse, varies_wrappedResponse, hwrapped, _, hr,
    (parse_of_varies hparse hr varies_wrappedResponse).2.2 hwrapped⟩

/-- A schema with one field, whose type has its kind as an object with these other keys. -/
def kindResponse (others : List (String × Json)) : Json :=
  .object [("__schema", .object [("types", .array [.object [("kind", .string "OBJECT"),
    ("name", .string "Query"), ("fields", .array [.object [("name", .string "a"),
      ("type", .object [("kind", .object (("SCALAR", .null) :: others)),
        ("name", .string "Int")])]])]])])]

/-- A value in so many brackets. -/
def nested : Nat → Json
  | 0 => .null
  | n + 1 => .array [nested n]

/-- A schema with a key that says nothing, whose value is nested deep. -/
def deepResponse (depth : Nat) : Json := .object [("__schema", .object [("note", nested depth)])]

/-- A key more in a kind makes a difference, and so does an envelope around what is nested as deep
as texts may be. -/
theorem exists_addition_not_read :
    ((∃ r, parse (kindResponse []).compact = .ok r) ∧
      ∀ r, parse (kindResponse [("note", .null)]).compact ≠ .ok r) ∧
    (∃ r, parse (deepResponse 125).compact = .ok r) ∧
      ∀ r, parse (Json.object [("data", deepResponse 125)]).compact ≠ .ok r := by
  have hread {t : String} (h : (parse t).toOption.isSome = true) : ∃ r, parse t = .ok r := by
    cases ht : parse t with
    | ok r => exact ⟨r, rfl⟩
    | error e =>
      rw [ht] at h
      cases h
  have hnot {t : String} (h : (parse t).toOption.isSome = false) (r : Result) :
      parse t ≠ .ok r := by
    intro ht
    rw [ht] at h
    cases h
  -- The characters are read as they are written; making a text of them would only cost time.
  refine ⟨⟨hread ?_, hnot ?_⟩, hread ?_, hnot ?_⟩ <;>
    (rw [parse, Json.parse, Json.compact, String.toList_ofList]; decide +kernel)

end TypeFootprint.Introspection
