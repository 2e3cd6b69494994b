import TypeFootprint.Name

/-!
# Tokens

The tokens of a GraphQL text.  Numbers keep their spelling; strings are kept as their value, so a
quoted string and a block string of one value are the same token.
-/

set_option autoImplicit false

namespace TypeFootprint

/-- The marks that are tokens by themselves. -/
inductive Punctuator where
  | bang
  | dollar
  | ampersand
  | parenOpen
  | parenClose
  | spread
  | colon
  | equals
  | atSign
  | bracketOpen
  | bracketClose
  | braceOpen
  | pipe
  | braceClose
deriving DecidableEq

namespace Punctuator

/-- The punctuators of a single character; the spread, `...`, is the only other one. -/
def ofChar? : Char → Option Punctuator
  | '!' => some bang
  | '$' => some dollar
  | '&' => some ampersand
  | '(' => some parenOpen
  | ')' => some parenClose
  | ':' => some colon
  | '=' => some equals
  | '@' => some atSign
  | '[' => some bracketOpen
  | ']' => some bracketClose
  | '{' => some braceOpen
  | '|' => some pipe
  | '}' => some braceClose
  | _ => none

end Punctuator

/-- One token of a GraphQL text.  A comma means nothing, but it may not stand everywhere. -/
inductive Token where
  | comma
  | punctuator (p : Punctuator)
  | name (n : Name)
  | int (text : String)
  | float (text : String)
  | string (value : String)
deriving DecidableEq

end TypeFootprint
