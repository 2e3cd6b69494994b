import TypeFootprint.Text.Escape

/-!
# Quoted strings

Between the two quotes of a quoted string a backslash starts an escape: `\"`, `\\`, `\/`, `\b`,
`\f`, `\n`, `\r` and `\t` stand for one character each, `\u` with four hexadecimal digits and
`\u{…}` with any number of them stand for a code point.  Two four-digit escapes may together write
one code point as a surrogate pair; a surrogate that stands alone is refused.

* `Quoted.encode` escapes the quote, the backslash and the newline, and nothing else.
* `Quoted.decode` reads what stands between the quotes.
-/

set_option autoImplicit false

namespace TypeFootprint.Quoted

open Escape

/-- Escapes a backslash, a quote and a newline; every other character stands for itself. -/
def encode : List Char → List Char
  | [] => []
  | c :: cs =>
    if c = '\\' then '\\' :: '\\' :: encode cs
    else if c = '"' then '\\' :: '"' :: encode cs
    else if c = '\n' then '\\' :: 'n' :: encode cs
    else c :: encode cs

mutual

/-- Reads the text between two quotes; `none` if an escape in it is malformed. -/
def decode : List Char → Option (List Char)
  | [] => some []
  | '\\' :: 'u' :: '{' :: cs => decodeBraced none cs
  | '\\' :: 'u' :: a :: b :: c :: d :: '\\' :: 'u' :: e :: f :: g :: h :: cs => do
    let m ← hex4? a b c d
    if isLeading m then
      let n ← hex4? e f g h
      if isTrailing n then
        let x ← scalar? (pairValue m n)
        let rest ← decode cs
        some (x :: rest)
      else none
    else
      let x ← scalar? m
      let rest ← decode ('\\' :: 'u' :: e :: f :: g :: h :: cs)
      some (x :: rest)
  | '\\' :: 'u' :: a :: b :: c :: d :: cs => do
    let x ← scalar? (← hex4? a b c d)
    let rest ← decode cs
    some (x :: rest)
  | '\\' :: c :: cs => do
    let x ← letter? c
    let rest ← decode cs
    some (x :: rest)
  | ['\\'] => none
  | c :: cs => do
    let rest ← decode cs
    some (c :: rest)
termination_by structural cs => cs

/-- Reads the digits of a braced escape up to the closing brace, then the rest of the text.  The
number read so far is `none` before the first digit. -/
def decodeBraced (value : Option Nat) : List Char → Option (List Char)
  | [] => none
  | c :: cs =>
    if c = '}' then do
      let x ← scalar? (← value)
      let rest ← decode cs
      some (x :: rest)
    else do
      let digit ← hexDigit? c
      decodeBraced (some (value.getD 0 * 16 + digit)) cs
termination_by structural cs => cs

end

end TypeFootprint.Quoted
