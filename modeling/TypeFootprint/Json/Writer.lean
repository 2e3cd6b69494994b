import TypeFootprint.Decimal.Shortest
import TypeFootprint.Json

/-!
# Writing JSON

Compact JSON: no blanks, and no escapes in strings but those of the quote, the backslash and the
control characters below the space.  So a written text has no line break in it.
-/

set_option autoImplicit false

namespace TypeFootprint
namespace Json

/-- A hexadecimal digit, in lower case. -/
def hexChar (n : Nat) : Char :=
  if n < 10 then Char.ofNat ('0'.toNat + n) else Char.ofNat ('a'.toNat + (n - 10))

/-- How a character is written inside a string. -/
def escapeChar (c : Char) : List Char :=
  if c = '"' then ['\\', '"']
  else if c = '\\' then ['\\', '\\']
  else if c = '\x08' then ['\\', 'b']
  else if c = '\t' then ['\\', 't']
  else if c = '\n' then ['\\', 'n']
  else if c = '\x0c' then ['\\', 'f']
  else if c = '\r' then ['\\', 'r']
  else if c.toNat < 0x20 then
    ['\\', 'u', '0', '0', hexChar (c.toNat / 16), hexChar (c.toNat % 16)]
  else [c]

/-- A string in quotes. -/
def quoteChars (text : List Char) : List Char := '"' :: (text.flatMap escapeChar ++ ['"'])

/-- Parts with a comma between each two. -/
def commas : List (List Char) → List Char
  | [] => []
  | [part] => part
  | part :: next :: rest => part ++ ',' :: commas (next :: rest)

/-- An array of parts that are written already. -/
def bracketed (parts : List (List Char)) : List Char := '[' :: (commas parts ++ [']'])

/-- An object of members that are written already. -/
def braced (parts : List (List Char)) : List Char := '{' :: (commas parts ++ ['}'])

/-- A member of an object. -/
def memberChars (key : String) (value : List Char) : List Char :=
  quoteChars key.toList ++ ':' :: value

/-- How a number is written. -/
def numberChars : JsonNumber → List Char
  | .integer n => (toString n).toList
  | .float bits => (Decimal.compact bits).toList

mutual

/-- How a value is written, as characters. -/
def chars : Json → List Char
  | null => ['n', 'u', 'l', 'l']
  | boolean true => ['t', 'r', 'u', 'e']
  | boolean false => ['f', 'a', 'l', 's', 'e']
  | number n => numberChars n
  | string s => quoteChars s.toList
  | array items => bracketed (itemParts items)
  | object members => braced (memberParts members)

/-- The items of an array, one by one. -/
def itemParts : List Json → List (List Char)
  | [] => []
  | v :: vs => v.chars :: itemParts vs

/-- The members of an object, one by one. -/
def memberParts : List (String × Json) → List (List Char)
  | [] => []
  | (k, v) :: rest => memberChars k v.chars :: memberParts rest

end

/-- How a value is written. -/
def compact (v : Json) : String := String.ofList v.chars

end Json
end TypeFootprint
