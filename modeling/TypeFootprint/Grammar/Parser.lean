import TypeFootprint.Token

/-!
# Parsers over tokens

A `Parser` takes tokens from the front of a list, and fails without saying why.  Commas in front of
a token are passed over, except where `noComma` forbids them.  The repetitions
below hand their item the tokens that are left; each item of the grammar takes at least one token,
so a repetition that may run once for every token left never stops early.
-/

set_option autoImplicit false

namespace TypeFootprint

/-- Takes tokens from the front of a list and makes a result of them, or fails. -/
abbrev Parser (α : Type) := StateT (List Token) Option α

namespace Parser

/-- The tokens from the first one on that is no comma. -/
def pastCommas (ts : List Token) : List Token := ts.dropWhile fun t ↦ t == .comma

/-- Whether a comma comes next. -/
def commaNext : Parser Bool := fun ts ↦ some (ts.head? == some .comma, ts)

/-- Fails if a comma comes next. -/
def noComma : Parser Unit := do if ← commaNext then failure

/-- The next token, which stays where it is. -/
def peek : Parser (Option Token) := fun ts ↦ some ((pastCommas ts).head?, pastCommas ts)

/-- The next token. -/
def next : Parser Token := fun ts ↦
  match pastCommas ts with
  | [] => none
  | t :: ts => some (t, ts)

/-- Takes the next token if it passes a test. -/
def takeIf (p : Token → Bool) : Parser Bool := fun ts ↦
  match pastCommas ts with
  | [] => some (false, [])
  | t :: ts => if p t then some (true, ts) else some (false, t :: ts)

/-- Takes the next token, and fails if it does not pass a test. -/
def expectIf (p : Token → Bool) : Parser Unit := do if ← takeIf p then return () else failure

/-- Takes a punctuator if it comes next. -/
def takeMark (p : Punctuator) : Parser Bool := takeIf (· == .punctuator p)

/-- Takes a punctuator. -/
def mark (p : Punctuator) : Parser Unit := expectIf (· == .punctuator p)

/-- Takes a name. -/
def name : Parser Name := do
  match ← next with
  | .name n => return n
  | _ => failure

/-- Whether a token is a name with this text. -/
def isKeyword (text : String) : Token → Bool
  | .name n => n.text == text
  | _ => false

/-- Takes a name with this text, if it comes next. -/
def takeKeyword (text : String) : Parser Bool := takeIf (isKeyword text)

/-- Takes a name with this text. -/
def keyword (text : String) : Parser Unit := expectIf (isKeyword text)

/-- Takes a string, if one comes next. -/
def takeString : Parser (Option String) := fun ts ↦
  match pastCommas ts with
  | .string s :: ts => some (some s, ts)
  | ts => some (none, ts)

/-- `n` items at most, up to a closing punctuator. -/
def itemsUpTo {α : Type} (close : Punctuator) (item : Parser α) : Nat → Parser (List α)
  | 0 => failure
  | n + 1 => do
    if ← takeMark close then return []
    let x ← item
    let xs ← itemsUpTo close item n
    return x :: xs

/-- Items up to a closing punctuator. -/
def itemsTill {α : Type} (close : Punctuator) (item : Parser α) : Parser (List α) :=
  fun ts ↦ itemsUpTo close item ts.length ts

/-- One item or more up to a closing punctuator. -/
def someTill {α : Type} (close : Punctuator) (item : Parser α) : Parser (List α) := do
  let x ← item
  let xs ← itemsTill close item
  return x :: xs

/-- One item or more between two punctuators, or nothing at all. -/
def optionalGroup {α : Type} (opening close : Punctuator) (item : Parser α) :
    Parser (List α) := do
  if ← takeMark opening then someTill close item else return []

/-- `n` more items at most, each behind a punctuator. -/
def moreUpTo {α : Type} (separator : Punctuator) (item : Parser α) : Nat → Parser (List α)
  | 0 => pure []
  | n + 1 => do
    if ← takeMark separator then
      let x ← item
      let xs ← moreUpTo separator item n
      return x :: xs
    else return []

/-- One item or more with a punctuator between each two, and perhaps one before the first. -/
def separated {α : Type} (separator : Punctuator) (item : Parser α) : Parser (List α) := do
  let _ ← takeMark separator
  let x ← item
  let xs ← fun ts ↦ moreUpTo separator item ts.length ts
  return x :: xs

/-- `n` items at most, as long as this punctuator starts the next one. -/
def whileUpTo {α : Type} (opening : Punctuator) (item : Parser α) : Nat → Parser (List α)
  | 0 => pure []
  | n + 1 => do
    if (← peek) = some (.punctuator opening) then
      let x ← item
      let xs ← whileUpTo opening item n
      return x :: xs
    else return []

/-- Items, as long as this punctuator starts the next one. -/
def whileStarts {α : Type} (opening : Punctuator) (item : Parser α) : Parser (List α) :=
  fun ts ↦ whileUpTo opening item ts.length ts

/-- `n` items at most, up to the end. -/
def allUpTo {α : Type} (item : Parser α) : Nat → Parser (List α)
  | 0 => pure []
  | n + 1 => do
    match ← peek with
    | none => return []
    | some _ =>
      let x ← item
      let xs ← allUpTo item n
      return x :: xs

/-- One item or more up to the end. -/
def someToEnd {α : Type} (item : Parser α) (ts : List Token) : Option (List α) :=
  match allUpTo item ts.length ts with
  | some (x :: xs, []) => some (x :: xs)
  | _ => none

end Parser
end TypeFootprint
