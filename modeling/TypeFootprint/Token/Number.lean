/-!
# Number literals

An integer literal is an optional minus sign and an integer part without leading zeros; a float
literal adds a fraction, an exponent, or both.  `NumberForm.ofChars?` tells which of the two a text
is.
-/

set_option autoImplicit false

namespace TypeFootprint

/-- The two sorts of number literal. -/
inductive NumberForm where
  | int
  | float
deriving DecidableEq

namespace NumberForm

/-- Whether a text is a non-empty run of decimal digits. -/
def isDigits (cs : List Char) : Bool := !cs.isEmpty && cs.all Char.isDigit

/-- Whether a text is an integer part: digits, and no zero before other digits. -/
def isIntegerPart (cs : List Char) : Bool :=
  match cs with
  | ['0'] => true
  | '0' :: _ => false
  | _ => isDigits cs

/-- Whether a text is an exponent without its letter: a sign or none, then digits. -/
def isExponent : List Char → Bool
  | '+' :: cs => isDigits cs
  | '-' :: cs => isDigits cs
  | cs => isDigits cs

/-- Whether this character starts an exponent. -/
def isExponentMark (c : Char) : Bool := c == 'e' || c == 'E'

/-- Whether what follows an integer part is a fraction, an exponent, or a fraction and an
exponent. -/
def isFloatTail : List Char → Bool
  | '.' :: cs =>
    isDigits (cs.takeWhile Char.isDigit) &&
      match cs.dropWhile Char.isDigit with
      | [] => true
      | e :: rest => isExponentMark e && isExponent rest
  | e :: rest => isExponentMark e && isExponent rest
  | [] => false

/-- The form of a literal without its sign. -/
def ofUnsigned? (cs : List Char) : Option NumberForm :=
  if isIntegerPart (cs.takeWhile Char.isDigit) then
    match cs.dropWhile Char.isDigit with
    | [] => some int
    | tail => if isFloatTail tail then some float else none
  else none

/-- The form of a literal, or `none` if the text is no number literal. -/
def ofChars? : List Char → Option NumberForm
  | '-' :: cs => ofUnsigned? cs
  | cs => ofUnsigned? cs

end NumberForm
end TypeFootprint
