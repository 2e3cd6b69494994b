import TypeFootprint.Json.Number
import TypeFootprint.Text.Escape

/-!
# Reading JSON

A `JsonReader` takes characters from the front of a text.  The first fault ends the reading, and a
text that stops in the middle of a value is told apart from one that cannot be a value.  Arrays and
objects may be nested up to `Json.maxDepth` levels deep.

`Json.parse` reads a whole text; the members of an object come out sorted by key, and of several
members of one key the last one counts.
-/

set_option autoImplicit false

namespace TypeFootprint

/-- Takes characters from the front of a text and makes a result of them. -/
abbrev JsonReader (α : Type) := StateT (List Char) (Except JsonFault) α

namespace JsonReader

/-- The blanks of JSON. -/
def isBlank (c : Char) : Bool := c == ' ' || c == '\t' || c == '\n' || c == '\r'

/-- Ends the reading with a fault. -/
def fail {α : Type} (f : JsonFault) : JsonReader α := fun _ ↦ .error f

/-- Ends the reading with a fault of the shape of a value. -/
def failShape {α : Type} (f : ShapeFault) : JsonReader α := fail (.shape f)

/-- Skips blanks, and shows what comes next without taking it. -/
def peek : JsonReader (Option Char) := fun cs ↦
  let rest := cs.dropWhile isBlank
  .ok (rest.head?, rest)

/-- Takes one character, whatever it is. -/
def drop : JsonReader Unit := fun cs ↦ .ok ((), cs.tail)

/-- Takes the characters of a word. -/
def word : List Char → JsonReader Unit
  | [], cs => .ok ((), cs)
  | _ :: _, [] => .error .truncated
  | w :: ws, c :: cs => if c = w then word ws cs else .error .malformed

/-- What is wrong with a text in which four hexadecimal digits do not follow: it is too short for
them if it has fewer than four bytes left. -/
def hexFault (cs : List Char) : JsonFault :=
  if (String.ofList cs).utf8ByteSize < 4 then .truncated else .malformed

/-- What is wrong with a text in which a second half of a surrogate pair does not follow. -/
def pairFault : List Char → JsonFault
  | [] => .truncated
  | ['\\'] => .truncated
  | '\\' :: 'u' :: cs => hexFault cs
  | _ => .malformed

/-- The characters of a string behind its opening quote, and what follows the closing one. -/
def stringTail : List Char → Except JsonFault (List Char × List Char)
  | [] => .error .truncated
  | '"' :: cs => .ok ([], cs)
  | '\\' :: 'u' :: a :: b :: c :: d :: cs =>
    match Escape.hex4? a b c d with
    | none => .error (hexFault (a :: b :: c :: d :: cs))
    | some m =>
      if Escape.isLeading m then
        match cs with
        | '\\' :: 'u' :: e :: f :: g :: h :: rest =>
          match Escape.hex4? e f g h with
          | none => .error (hexFault (e :: f :: g :: h :: rest))
          | some n =>
            if Escape.isTrailing n then do
              let (text, rest) ← stringTail rest
              .ok (Char.ofNat (Escape.pairValue m n) :: text, rest)
            else .error .malformed
        | rest => .error (pairFault rest)
      else if Escape.isTrailing m then .error .malformed
      else do
        let (text, rest) ← stringTail cs
        .ok (Char.ofNat m :: text, rest)
  | '\\' :: 'u' :: cs => .error (hexFault cs)
  | '\\' :: c :: cs =>
    match Escape.letter? c with
    | none => .error .malformed
    | some x => do
      let (text, rest) ← stringTail cs
      .ok (x :: text, rest)
  | ['\\'] => .error .truncated
  | c :: cs =>
    if c.toNat < 0x20 then .error .malformed
    else do
      let (text, rest) ← stringTail cs
      .ok (c :: text, rest)
termination_by structural cs => cs

/-- A string behind its opening quote. -/
def stringRest : JsonReader String := fun cs ↦ do
  let (text, rest) ← stringTail cs
  .ok (String.ofList text, rest)

/-- A number. -/
def number : JsonReader JsonNumber := JsonNumber.read

/-- Whether another item follows in an array, `first` if none came before it. -/
def hasItem (first : Bool) : JsonReader Bool := do
  match ← peek with
  | none => fail .truncated
  | some ']' => return false
  | some ',' =>
    if first then return true
    else
      drop
      match ← peek with
      | none => fail .truncated
      | some ']' => fail .malformed
      | some _ => return true
  | some _ => if first then return true else fail .malformed

/-- `n` items at most, up to the end of an array. -/
def itemsUpTo {α : Type} (item : JsonReader α) : Bool → Nat → JsonReader (List α)
  | _, 0 => fail .malformed
  | first, n + 1 => do
    if ← hasItem first then
      let x ← item
      let xs ← itemsUpTo item false n
      return x :: xs
    else return []

/-- The items of an array behind its opening bracket. -/
def items {α : Type} (item : JsonReader α) : JsonReader (List α) := do
  let xs ← fun cs ↦ itemsUpTo item true (cs.length + 1) cs
  drop
  return xs

/-- Whether another member follows in an object, `first` if none came before it.  The opening quote
of its key is still there. -/
def hasMember (first : Bool) : JsonReader Bool := do
  match ← peek with
  | none => fail .truncated
  | some '}' => return false
  | some ',' =>
    if first then fail .malformed
    else
      drop
      match ← peek with
      | none => fail .truncated
      | some '"' => return true
      | some _ => fail .malformed
  | some '"' => if first then return true else fail .malformed
  | some _ => fail .malformed

/-- A key with its quotes. -/
def key : JsonReader String := do
  drop
  stringRest

/-- The colon between a key and its value. -/
def colon : JsonReader Unit := do
  match ← peek with
  | none => fail .truncated
  | some ':' => drop
  | some _ => fail .malformed

/-- `n` members at most, up to the end of an object. -/
def membersUpTo {α : Type} (value : JsonReader α) :
    Bool → Nat → JsonReader (List (String × α))
  | _, 0 => fail .malformed
  | first, n + 1 => do
    if ← hasMember first then
      let k ← key
      colon
      let v ← value
      let rest ← membersUpTo value false n
      return (k, v) :: rest
    else return []

/-- The members of an object behind its opening brace. -/
def members {α : Type} (value : JsonReader α) : JsonReader (List (String × α)) := do
  let ms ← fun cs ↦ membersUpTo value true (cs.length + 1) cs
  drop
  return ms

/-- A value with less than `depth` levels of brackets and braces. -/
def valueUpTo : (depth : Nat) → JsonReader Json
  | 0 => fail .malformed
  | depth + 1 => do
    match ← peek with
    | none => fail .truncated
    | some 'n' => do word "null".toList; return .null
    | some 't' => do word "true".toList; return .boolean true
    | some 'f' => do word "false".toList; return .boolean false
    | some '"' => return .string (← do drop; stringRest)
    | some '[' =>
      if depth = 0 then fail .malformed
      else
        drop
        return .array (← items (valueUpTo depth))
    | some '{' =>
      if depth = 0 then fail .malformed
      else
        drop
        return Json.ofMembers (← members (valueUpTo depth))
    | some c => if c.isDigit || c = '-' then return .number (← number) else fail .malformed

/-- Only blanks are left. -/
def finish : JsonReader Unit := do
  match ← peek with
  | none => return ()
  | some _ => fail .malformed

end JsonReader

namespace Json

/-- How deep arrays and objects may be nested. -/
def maxDepth : Nat := 127

/-- Reads a whole text as one value. -/
def parse (text : String) : Except JsonFault Json := do
  let (v, _) ← (do
    let v ← JsonReader.valueUpTo (maxDepth + 1)
    JsonReader.finish
    return v : JsonReader Json) text.toList
  .ok v

end Json
end TypeFootprint
