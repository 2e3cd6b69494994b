import TypeFootprint.Text.Hidden

/-!
# Making every character of a text visible

A text is quoted for a message: the quote, the backslash and a few control characters get the usual
escapes, and every other character that is not seen by itself is written as its code point.
-/

set_option autoImplicit false

namespace TypeFootprint.Visible

/-- How a character is shown between quotes. -/
def showChar (c : Char) : List Char :=
  if c = '"' then ['\\', '"']
  else if c = '\\' then ['\\', '\\']
  else if c = '\n' then ['\\', 'n']
  else if c = '\r' then ['\\', 'r']
  else if c = '\t' then ['\\', 't']
  else if c = '\x00' then ['\\', '0']
  else if isHidden c then ['\\', 'u', '{'] ++ Nat.toDigits 16 c.toNat ++ ['}']
  else [c]

/-- The text in quotes, with every character visible. -/
def quote (text : String) : String :=
  String.ofList ('"' :: (text.toList.flatMap showChar ++ ['"']))

end TypeFootprint.Visible
