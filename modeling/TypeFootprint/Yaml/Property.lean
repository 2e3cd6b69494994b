import TypeFootprint.Text.Escape
import TypeFootprint.Yaml.Cursor
import TypeFootprint.Yaml.Token

/-!
# Names, tags and directives

A node may be named by an anchor, and an alias is another place for the node of this name.  A tag
says what a node is; it is written with a handle, unless it stands in angle brackets as a whole.
Directives come before the start of a document; those for handles say what the handles of its tags
stand for.

Each reader starts behind the character that tells what it is, and gives what is left of the text.
-/

set_option autoImplicit false

namespace TypeFootprint.Yaml

/-! ## Names -/

/-- Whether a character may be part of the name of a node. -/
def isNameChar (c : Char) : Bool := !isGap c && !isFlowMark c && c != '\uFEFF'

/-- Reads a name. -/
def name? (cs : List Char) : Option (String × List Char) :=
  let name := cs.takeWhile isNameChar
  if name.isEmpty then none else some (String.ofList name, cs.dropWhile isNameChar)

/-! ## Tags -/

/-- Whether a character may be part of a handle or of the name of a directive. -/
def isWordChar (c : Char) : Bool := c.isAlphanum || c == '-' || c == '_'

/-- Whether a character may be part of a tag that stands in angle brackets. -/
def isUriChar (c : Char) : Bool := isWordChar c || "#;/?:@&=+$,.!~*'()[]%".toList.contains c

/-- Whether a character may be part of another tag. -/
def isTagChar (c : Char) : Bool := isUriChar c && !isFlowMark c && c != '!'

/-- Reads characters as bytes.  A percent sign and two hexadecimal digits are any byte. -/
def uriBytes? (admits : Char → Bool) : List Char → Option (List UInt8 × List Char)
  | '%' :: a :: b :: cs => do
    let byte ← Escape.hex4? '0' '0' a b
    let (bytes, rest) ← uriBytes? admits cs
    some (UInt8.ofNat byte :: bytes, rest)
  | c :: cs =>
    if c = '%' then none
    else if admits c then
      (uriBytes? admits cs).map fun (bytes, rest) ↦ (UInt8.ofNat c.toNat :: bytes, rest)
    else some ([], c :: cs)
  | [] => some ([], [])

/-- Reads characters as a text. -/
def uri? (admits : Char → Bool) (cs : List Char) : Option (String × List Char) := do
  let (bytes, rest) ← uriBytes? admits cs
  some (← String.fromUTF8? ⟨bytes.toArray⟩, rest)

namespace Tag

/-- The tag that only says that a node is what it looks like. -/
def plain : Tag := ⟨"", "!"⟩

/-- Reads a tag in angle brackets. -/
def verbatim? (cs : List Char) : Option (Tag × List Char) := do
  match ← uri? isUriChar cs with
  | (suffix, '>' :: rest) => some (⟨"", suffix⟩, rest)
  | _ => none

/-- Reads a tag behind an exclamation mark.  A second one ends a handle. -/
def shorthand? (cs : List Char) : Option (Tag × List Char) := do
  let word := String.ofList (cs.takeWhile isWordChar)
  match cs.dropWhile isWordChar with
  | '!' :: cs =>
    let (suffix, rest) ← uri? isTagChar cs
    if suffix.isEmpty then none else some (⟨"!" ++ word ++ "!", suffix⟩, rest)
  | cs =>
    let (more, rest) ← uri? isTagChar cs
    let suffix := word ++ more
    some (if suffix.isEmpty then plain else ⟨"!", suffix⟩, rest)

/-- Reads a tag. -/
def read? : List Char → Option (Tag × List Char)
  | '<' :: cs => verbatim? cs
  | cs => shorthand? cs

end Tag

/-! ## Directives -/

namespace Directive

/-- Goes past a number. -/
def number? (cs : List Char) : Option (List Char) :=
  let digits := cs.takeWhile Char.isDigit
  if digits.isEmpty || decide (9 < digits.length) then none else some (cs.dropWhile Char.isDigit)

/-- Reads the version of YAML, whichever it is. -/
def version? (cs : List Char) : Option (Directive × List Char) := do
  match ← number? (cs.dropWhile isSpace) with
  | '.' :: cs => some (version, ← number? cs)
  | _ => none

/-- Reads a handle: one exclamation mark or two, with a word between them. -/
def handleName? : List Char → Option (String × List Char)
  | '!' :: cs =>
    let word := cs.takeWhile isWordChar
    match cs.dropWhile isWordChar with
    | '!' :: rest => some ("!" ++ String.ofList word ++ "!", rest)
    | rest => if word.isEmpty then some ("!", rest) else none
  | _ => none

/-- Reads what a handle stands for; it may start with an exclamation mark. -/
def meaning? : List Char → Option (String × List Char)
  | '!' :: cs => (uri? isUriChar cs).map fun (text, rest) ↦ ("!" ++ text, rest)
  | cs => if cs.head?.any isTagChar then uri? isUriChar cs else none

/-- Reads a handle and what it stands for. -/
def handle? (cs : List Char) : Option (Directive × List Char) := do
  let (name, cs) ← handleName? (cs.dropWhile isSpace)
  let (meaning, cs) ← meaning? (cs.dropWhile isSpace)
  if gapNext cs then some (handle name meaning, cs) else none

/-- Reads a directive; what has no meaning is left unread. -/
def read? (cs : List Char) : Option (Directive × List Char) :=
  let rest := cs.dropWhile isWordChar
  let word := String.ofList (cs.takeWhile isWordChar)
  if word.isEmpty || !gapNext rest then none
  else if word = "YAML" then version? rest
  else if word = "TAG" then handle? rest
  else some (other, rest.dropWhile fun c ↦ !isBreak c)

end Directive
end TypeFootprint.Yaml
