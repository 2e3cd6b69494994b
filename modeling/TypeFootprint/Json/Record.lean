import TypeFootprint.Json
import TypeFootprint.Json.Fault

/-!
# Records in JSON

A record may be written as an object, with a member for each slot, or as an array of its slots in
order.  Members that no slot names are passed over.

Of several faults in an object, that of the first bad member is reported, and that of a missing
member only if all members there are good.  In an array the slots are read one after the other.
-/

set_option autoImplicit false

namespace TypeFootprint

/-- The parts of a record, under keys or in order. -/
inductive RecordParts (ν : Type) where
  | keyed (members : List (String × ν))
  | listed (items : List ν)

/-- A slot of a record: its key, how its value is read, and what it holds where the key is absent
from an object or the array ends before it. -/
structure Slot (ν α : Type) where
  key : String
  read : ν → Except ShapeFault α
  ifAbsent : Option α
  ifCut : Option α

/-- The name of a record and the number of its slots. -/
structure RecordName where
  text : String
  size : Nat

namespace Slot

variable {ν α : Type}

/-- A slot that has to be there. -/
def required (key : String) (read : ν → Except ShapeFault α) : Slot ν α := ⟨key, read, none, none⟩

/-- A slot with a default. -/
def withDefault (key : String) (default : α) (read : ν → Except ShapeFault α) : Slot ν α :=
  ⟨key, read, some default, some default⟩

/-- A slot whose key may be absent, though an array has to hold it. -/
def optional (key : String) (read : ν → Except ShapeFault (Option α)) : Slot ν (Option α) :=
  ⟨key, read, some none, none⟩

/-- The key of a slot, and what is wrong with a value in it. -/
def check (s : Slot ν α) : String × (ν → Option ShapeFault) :=
  (s.key, fun v ↦ match s.read v with
    | .ok _ => none
    | .error e => some e)

end Slot

namespace RecordParts

variable {ν α : Type}

/-- The fault of the first bad member, if there is one. -/
def firstFault? (checks : List (String × (ν → Option ShapeFault))) :
    List (String × ν) → Option ShapeFault
  | [] => none
  | (k, v) :: rest =>
    match (checks.find? fun c ↦ c.1 == k).bind fun c ↦ c.2 v with
    | some e => some e
    | none => firstFault? checks rest

/-- Reports the first bad member of an object. -/
def check (p : RecordParts ν) (checks : List (String × (ν → Option ShapeFault))) :
    Except ShapeFault Unit :=
  match p with
  | keyed members =>
    match firstFault? checks members with
    | some e => .error e
    | none => .ok ()
  | listed _ => .ok ()

/-- Reads a slot, the `i`-th of its record. -/
def get (p : RecordParts ν) (record : RecordName) (i : Nat) (s : Slot ν α) :
    Except ShapeFault α :=
  match p with
  | keyed members =>
    match members.find? fun m ↦ m.1 == s.key with
    | some (_, v) => s.read v
    | none =>
      match s.ifAbsent with
      | some x => .ok x
      | none => .error (.missingField s.key)
  | listed items =>
    match items[i]? with
    | some v => s.read v
    | none =>
      match s.ifCut with
      | some x => .ok x
      | none => .error (.tooShort i record.text record.size)

/-- Reports an array that is longer than its record; `counted` says in which words. -/
def finish (p : RecordParts ν) (record : RecordName) (counted : Bool) : Except ShapeFault Unit :=
  match p with
  | keyed _ => .ok ()
  | listed items =>
    if items.length ≤ record.size then .ok ()
    else if counted then .error (.tooLongBy items.length record.size)
    else .error (.tooLong items.length)

end RecordParts

namespace Json

/-- How a value is mentioned in a message. -/
def found : Json → Found
  | null => .null
  | boolean b => .boolean b
  | number (.integer n) => .integer n
  | number (.float bits) => .float bits
  | string s => .string s
  | array _ => .sequence
  | object _ => .map

/-- The fault of a value that is not what was expected. -/
def mismatch {α : Type} (v : Json) (expected : String) : Except ShapeFault α :=
  .error (.wrongType v.found expected)

/-- A string. -/
def asString : Json → Except ShapeFault String
  | string s => .ok s
  | v => v.mismatch "a string"

/-- `true` or `false`. -/
def asBoolean : Json → Except ShapeFault Bool
  | boolean b => .ok b
  | v => v.mismatch "a boolean"

/-- A value that may be `null`. -/
def asOptional {α : Type} (read : Json → Except ShapeFault α) :
    Json → Except ShapeFault (Option α)
  | null => .ok none
  | v => (read v).map some

/-- A list, or `null` for the empty list. -/
def asList {α : Type} (read : Json → Except ShapeFault α) : Json → Except ShapeFault (List α)
  | null => .ok []
  | array items => items.mapM read
  | v => v.mismatch "a sequence"

/-- The parts of a record. -/
def asParts (record : RecordName) : Json → Except ShapeFault (RecordParts Json)
  | object members => .ok (.keyed members)
  | array items => .ok (.listed items)
  | v => v.mismatch record.text

end Json
end TypeFootprint
