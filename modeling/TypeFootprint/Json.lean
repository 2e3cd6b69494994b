/-!
# JSON values

A JSON value keeps integers apart from other numbers; the latter are held as the bits of a binary
number.  The members of an object are a list of keys and values.
-/

set_option autoImplicit false

namespace TypeFootprint

/-- A number: an integer of at most 64 bits, or a binary floating point number. -/
inductive JsonNumber where
  | integer (value : Int)
  | float (bits : UInt64)
deriving DecidableEq

/-- A JSON value. -/
inductive Json where
  | null
  | boolean (value : Bool)
  | number (value : JsonNumber)
  | string (text : String)
  | array (items : List Json)
  | object (members : List (String × Json))

namespace Json

/-- Puts a member in its place among members that are sorted by key; a member of the same key is
replaced. -/
def insertMember (key : String) (value : Json) : List (String × Json) → List (String × Json)
  | [] => [(key, value)]
  | (k, v) :: rest =>
    if key = k then (key, value) :: rest
    else if key < k then (key, value) :: (k, v) :: rest
    else (k, v) :: insertMember key value rest

/-- The object with these members: sorted by key, of several members of one key the last one. -/
def ofMembers (members : List (String × Json)) : Json :=
  .object (members.foldl (fun sorted m ↦ insertMember m.1 m.2 sorted) [])

/-- The value of a key in a list of members. -/
def lookUp? (key : String) (members : List (String × Json)) : Option Json :=
  (members.find? fun m ↦ m.1 == key).map Prod.snd

/-- The value of a key, if this is an object that has it. -/
def get? (key : String) : Json → Option Json
  | object members => lookUp? key members
  | _ => none

/-- Whether this is the value `null`. -/
def isNull : Json → Bool
  | null => true
  | _ => false

end Json
end TypeFootprint
