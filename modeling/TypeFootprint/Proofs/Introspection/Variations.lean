import Mathlib.Data.List.Nodup
import TypeFootprint.Introspection.Decode
import TypeFootprint.Proofs.Json.RoundTrip

/-!
# How responses to the introspection query may differ

Servers say the same in different ways.  A `Part` is what a value in a response stands for, and the
tables `Part.slots` and `Part.itemSlots` say what its members and items stand for in turn.  `Varies`
relates two values that say the same as this part:

* the members of an object come in another order;
* a key that the part does not have is added, or its value is changed;
* a key for a list or for something optional is absent, or has the value `null`;
* a list is `null` or empty;
* the schema stands by itself, or under the data of a response;

and all of this at any depth, in any combination.  Only the inside of the kind of a reference stays
as it is, save for the order: a kind may be written as an object with the kind as its only key, and
with another key it would be no kind any more.

A value that is put in order throughout is a variation of what it was (`Readable.varies_sorted`).
-/

set_option autoImplicit false

namespace TypeFootprint.Introspection

/-- What a value in a response stands for. -/
inductive Part where
  | ignored
  | unit
  | kind
  | typeKind
  | text
  | flag
  | named
  | reference
  | input
  | field
  | enumValue
  | type
  | directive
  | schema
  | holder
  | response
  | list (item : Part)
  | optional (inner : Part)
deriving DecidableEq

namespace Part

/-- What only the types of some kind have. -/
def bodySlots : TypeKind → List (String × Part)
  | .scalar => []
  | .object => [("fields", list field), ("interfaces", list named)]
  | .interface => [("fields", list field), ("interfaces", list named)]
  | .union => [("possibleTypes", list named)]
  | .enum => [("enumValues", list enumValue)]
  | .inputObject => [("inputFields", list input)]

/-- The slots of a type of some kind behind its kind. -/
def ofKindSlots (k : TypeKind) : List (String × Part) :=
  [("name", text), ("description", optional text)] ++ bodySlots k

/-- The keys of a part, and what their values stand for.  A type may have the keys of all kinds. -/
def slots : Part → List (String × Part)
  | named => [("name", text)]
  | reference => [("kind", kind), ("name", optional text), ("ofType", optional reference)]
  | input =>
    [("name", text), ("description", optional text), ("type", reference),
      ("defaultValue", optional text)]
  | field =>
    [("name", text), ("description", optional text), ("args", list input), ("type", reference),
      ("isDeprecated", flag), ("deprecationReason", optional text)]
  | enumValue =>
    [("name", text), ("description", optional text), ("isDeprecated", flag),
      ("deprecationReason", optional text)]
  | type =>
    ("kind", typeKind) :: ofKindSlots .object ++ bodySlots .union ++ bodySlots .enum ++
      bodySlots .inputObject
  | directive =>
    [("name", text), ("description", optional text), ("locations", list text), ("args", list input),
      ("isRepeatable", flag)]
  | schema =>
    [("queryType", optional named), ("mutationType", optional named),
      ("subscriptionType", optional named), ("types", list type), ("directives", list directive)]
  | holder => [("__schema", schema)]
  | response => [("data", optional holder), ("__schema", schema)]
  | optional p => p.slots
  | _ => []

/-- Whether other keys than those of the part are passed over. -/
def isOpen : Part → Bool
  | unit | kind | typeKind | text | flag | list _ => false
  | optional p => p.isOpen
  | _ => true

/-- What the value of a key stands for. -/
def memberPart (p : Part) (key : String) : Part :=
  match p.slots.find? fun s ↦ s.1 == key with
  | some s => s.2
  | none => if p.isOpen then ignored else unit

/-- The slots of a part that is written as an array, in order.  In an array the first item of a type
tells its kind. -/
def itemSlots (items : List Json) : Part → List (String × Part)
  | type =>
    ("kind", typeKind) ::
      match items.head?.map readTypeKind with
      | some (.ok k) => ofKindSlots k
      | _ => []
  | p => p.slots

/-- What an item stands for whose array has these slots. -/
def partAt (slots : List (String × Part)) (i : Nat) : Part := (slots[i]?.map Prod.snd).getD unit

/-- What an item of an array stands for. -/
def itemPart (items : List Json) (i : Nat) : Part → Part
  | list p => p
  | optional p => p.itemPart items i
  | p => partAt (p.itemSlots items) i

/-- Whether the key of this part may be absent, or `null` instead. -/
def isMissable : Part → Bool
  | list _ => true
  | optional _ => true
  | _ => false

end Part

/-- Whether a response holds the schema by itself, or not at all. -/
def isBare : Json → Bool
  | .object members => (Json.lookUp? "data" members).all Json.isNull
  | _ => false

/-- Two values say the same as a part of a response. -/
inductive Varies : Part → Json → Json → Prop
  | refl (p : Part) (v : Json) : Varies p v v
  | symm {p : Part} {v w : Json} (h : Varies p v w) : Varies p w v
  | trans {p : Part} {u v w : Json} (h : Varies p u v) (h' : Varies p v w) : Varies p u w
  | ignored (v w : Json) : Varies .ignored v w
  | member {p : Part} {before after : List (String × Json)} {k : String} {v w : Json}
      (h : Varies (p.memberPart k) v w) :
      Varies p (.object (before ++ (k, v) :: after)) (.object (before ++ (k, w) :: after))
  | item {p : Part} {before after : List Json} {v w : Json}
      (h : Varies (p.itemPart (before ++ v :: after) before.length) v w) :
      Varies p (.array (before ++ v :: after)) (.array (before ++ w :: after))
  | reorder {p : Part} {ms ns : List (String × Json)} (distinct : (ms.map Prod.fst).Nodup)
      (h : ms.Perm ns) : Varies p (.object ms) (.object ns)
  | added {p : Part} {ms : List (String × Json)} {k : String} (v : Json)
      (new : k ∉ ms.map Prod.fst) (h : p.memberPart k = .ignored) :
      Varies p (.object ms) (.object ((k, v) :: ms))
  | absent {p : Part} {ms : List (String × Json)} {k : String} (new : k ∉ ms.map Prod.fst)
      (h : (p.memberPart k).isMissable = true) :
      Varies p (.object ms) (.object ((k, .null) :: ms))
  | empty (p : Part) : Varies (.list p) .null (.array [])
  | wrapped {v : Json} {ms : List (String × Json)} (bare : isBare v = true)
      (h : Json.lookUp? "data" ms = some v) : Varies .response v (.object ms)

namespace Varies

variable {p : Part}

/-- What holds of one entry, whatever stands before and behind it, holds of all together. -/
theorem each {γ : Type} (wrap : List γ → Json) {f : γ → γ} {xs : List γ}
    (h : ∀ x ∈ xs, ∀ before after,
      Varies p (wrap (before ++ x :: after)) (wrap (before ++ f x :: after))) :
    Varies p (wrap xs) (wrap (xs.map f)) := by
  have hfrom (done : List γ) : Varies p (wrap (done ++ xs)) (wrap (done ++ xs.map f)) := by
    induction xs generalizing done with
    | nil => exact refl _ _
    | cons x xs ih =>
      obtain ⟨hx, hxs⟩ := List.forall_mem_cons.1 h
      have hrest := ih hxs (done ++ [f x])
      rw [List.append_assoc, List.append_assoc, List.singleton_append, List.singleton_append]
        at hrest
      exact (hx done xs).trans hrest
  exact hfrom []

theorem items {f : Json → Json} {vs : List Json} (h : ∀ v ∈ vs, ∀ q, Varies q v (f v)) :
    Varies p (.array vs) (.array (vs.map f)) :=
  each .array fun v hv _ _ ↦ item (h v hv _)

theorem members {f : Json → Json} {ms : List (String × Json)}
    (h : ∀ m ∈ ms, ∀ q, Varies q m.2 (f m.2)) :
    Varies p (.object ms) (.object (ms.map fun m ↦ (m.1, f m.2))) :=
  each .object fun m hm _ _ ↦ member (h m hm _)

end Varies

/-- **Putting members in order is a variation**, whatever the value stands for. -/
theorem varies_sorted {n : Nat} {v : Json} (h : v.Readable n) (p : Part) : Varies p v v.sorted := by
  induction h generalizing p with
  | array _ ih =>
    rw [Json.sorted, Json.sortedItems_eq_map]
    exact .items ih
  | @object n ms distinct _ ih =>
    have hkeys : ((ms.map fun m ↦ (m.1, m.2.sorted)).map Prod.fst).Nodup := by
      rwa [List.map_map]
    obtain ⟨ordered, heq, hperm⟩ := Json.exists_ofMembers_eq hkeys
    rw [Json.sorted, Json.sortedMembers_eq_map, heq]
    exact (Varies.members ih).trans (.reorder hkeys hperm.symm)
  | _ => exact .refl _ _

end TypeFootprint.Introspection
