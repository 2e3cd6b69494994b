import TypeFootprint.Name

/-!
# Type references

A type reference is a name or a list of something, either of which may be required.  It is written
`Name` or `[T]`, with a `!` behind it where it is required; there is no second `!`, and no
reference without a name inside.

* `TypeRef.render` writes a reference, `TypeRef.parse?` reads one.
* `TypeRef.core` is the name at the centre, and `nullable` and `item?` remove one layer.
-/

set_option autoImplicit false

namespace TypeFootprint

/-- A named type or a list type, required or not. -/
inductive TypeRef where
  | named (name : Name) (required : Bool)
  | list (item : TypeRef) (required : Bool)
deriving DecidableEq

namespace TypeRef

/-- The reference that is a name and nothing else. -/
def ofName (n : Name) : TypeRef := named n false

/-- The name inside all wrappers. -/
def core : TypeRef → Name
  | named n _ => n
  | list item _ => item.core

/-- The same type without an outer `!`. -/
def nullable : TypeRef → TypeRef
  | named n _ => named n false
  | list item _ => list item false

/-- The type of the items, if this is a list type. -/
def item? : TypeRef → Option TypeRef
  | named _ _ => none
  | list item _ => some item

/-- The mark behind a required type. -/
def mark (required : Bool) : List Char := if required then ['!'] else []

/-- How a reference is written, as characters. -/
def chars : TypeRef → List Char
  | named n required => n.toList ++ mark required
  | list item required => '[' :: (item.chars ++ ']' :: mark required)

/-- How a reference is written. -/
def render (t : TypeRef) : String := String.ofList t.chars

/-- Takes the mark of a required type off a text, if there is one. -/
def readMark : List Char → Bool × List Char
  | '!' :: rest => (true, rest)
  | rest => (false, rest)

/-- Reads a reference at the start of a text, and returns what comes after it.  No blanks are
skipped. -/
def read? : List Char → Option (TypeRef × List Char)
  | [] => none
  | c :: cs =>
    if c = '[' then
      match read? cs with
      | some (item, ']' :: rest) =>
        let (required, rest) := readMark rest
        some (list item required, rest)
      | _ => none
    else do
      let n ← Name.ofText? (String.ofList ((c :: cs).takeWhile isNameContinue))
      let (required, rest) := readMark ((c :: cs).dropWhile isNameContinue)
      some (named n required, rest)

/-- Reads a whole text as a reference. -/
def parse? (text : String) : Option TypeRef :=
  match read? text.toList with
  | some (t, []) => some t
  | _ => none

@[simp] theorem core_ofName (n : Name) : (ofName n).core = n := rfl

theorem render_ofName (n : Name) : (ofName n).render = n.text := by
  rw [render, ofName, chars, mark, if_neg Bool.false_ne_true, List.append_nil, Name.toList,
    String.ofList_toList]

@[simp] theorem core_nullable (t : TypeRef) : t.nullable.core = t.core := by
  cases t <;> rfl

end TypeRef
end TypeFootprint
