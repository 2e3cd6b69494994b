import TypeFootprint.Token
import TypeFootprint.Token.Number
import TypeFootprint.Text.Quoted
import TypeFootprint.Text.Block

/-!
# From characters to tokens

The scanner is a transducer: it reads one character at a time, and a `Mode` holds what it has read
of the token that is not finished yet.  Each step returns the tokens that the character completed
and the next mode, so a run over a text that is put together from two parts is a run over the one
followed by a run over the other (`run_append`).

Blanks, line ends, byte order marks and comments separate tokens and are dropped.  Commas separate
tokens too, but are kept.  A number takes every letter, digit, underscore and point that follows it,
because the grammar forbids them behind a number; the text is then checked as a whole.
-/

set_option autoImplicit false

namespace TypeFootprint
namespace Token

/-- What a block string has just read, as far as it decides where the string ends. -/
inductive BlockEnd where
  | plain
  | backslash
  | escapedQuotes (two : Bool)
  | quotes (two : Bool)
deriving DecidableEq

/-- The unfinished token.  Characters are kept last first. -/
inductive Mode where
  | between
  | comment
  | dots (two : Bool)
  | name (read : List Char)
  | number (read : List Char)
  | quotes (two : Bool)
  | quoted (escaped : Bool) (read : List Char)
  | block (ending : BlockEnd) (read : List Char)

/-- Characters that separate tokens and mean nothing else. -/
def isIgnored (c : Char) : Bool :=
  c == ' ' || c == '\t' || c == '\n' || c == '\r' || c == '\uFEFF'

/-- The ends of a line, where comments stop and quoted strings may not go. -/
def isLineEnd (c : Char) : Bool := c == '\n' || c == '\r'

/-- The token of a name that has been read, last character first. -/
def ofName? (read : List Char) : Option Token :=
  (Name.ofText? (String.ofList read.reverse)).map Token.name

/-- The token of a number that has been read, last character first. -/
def ofNumber? (read : List Char) : Option Token :=
  match NumberForm.ofChars? read.reverse with
  | some .int => some (int (String.ofList read.reverse))
  | some .float => some (float (String.ofList read.reverse))
  | none => none

/-- The token of a quoted string that has been read, last character first. -/
def ofQuoted? (read : List Char) : Option Token :=
  (Quoted.decode read.reverse).map fun value ↦ string (String.ofList value)

/-- The token of a block string that has been read, last character first. -/
def ofBlock (read : List Char) : Token := string (String.ofList (Block.value read.reverse))

/-- Whether a number goes on with this character; a sign goes on only behind the letter of an
exponent. -/
def continuesNumber (read : List Char) (c : Char) : Bool :=
  isNameContinue c || c == '.' ||
    ((c == '+' || c == '-') && (read.head?.map NumberForm.isExponentMark).getD false)

/-- The mode after a character between two tokens, with the token that the character is by itself,
if it is one. -/
def start (c : Char) : Option (List Token × Mode) :=
  if isIgnored c then some ([], .between)
  else if c = ',' then some ([comma], .between)
  else if c = '#' then some ([], .comment)
  else if c = '.' then some ([], .dots false)
  else if c = '"' then some ([], .quotes false)
  else if isNameStart c then some ([], .name [c])
  else if c.isDigit || c = '-' then some ([], .number [c])
  else match Punctuator.ofChar? c with
    | some p => some ([punctuator p], .between)
    | none => none

/-- Ends the token `t` and goes on with the character after it. -/
def endWith (t : Option Token) (c : Char) : Option (List Token × Mode) := do
  let t ← t
  let (ts, m) ← start c
  some (t :: ts, m)

/-- A step inside a quoted string. -/
def stepQuoted (escaped : Bool) (read : List Char) (c : Char) : Option (List Token × Mode) :=
  if isLineEnd c then none
  else if escaped then some ([], .quoted false (c :: read))
  else if c = '"' then (ofQuoted? read).map fun t ↦ ([t], .between)
  else some ([], .quoted (c = '\\') (c :: read))

/-- How a character that is not a quote changes what a block string has just read. -/
def BlockEnd.after (c : Char) : BlockEnd := if c = '\\' then .backslash else .plain

/-- A step inside a block string. -/
def stepBlock (ending : BlockEnd) (read : List Char) (c : Char) : List Token × Mode :=
  if c = '"' then
    match ending with
    | .plain => ([], .block (.quotes false) (c :: read))
    | .quotes false => ([], .block (.quotes true) (c :: read))
    | .quotes true => ([ofBlock (read.drop 2)], .between)
    | .backslash => ([], .block (.escapedQuotes false) (c :: read))
    | .escapedQuotes false => ([], .block (.escapedQuotes true) (c :: read))
    | .escapedQuotes true => ([], .block .plain (c :: read))
  else ([], .block (.after c) (c :: read))

/-- One step: the tokens that the character completes, and the mode after it. -/
def step : Mode → Char → Option (List Token × Mode)
  | .between, c => start c
  | .comment, c => some ([], if isLineEnd c then .between else .comment)
  | .dots false, c => if c = '.' then some ([], .dots true) else none
  | .dots true, c => if c = '.' then some ([punctuator .spread], .between) else none
  | .name read, c =>
    if isNameContinue c then some ([], .name (c :: read)) else endWith (ofName? read) c
  | .number read, c =>
    if continuesNumber read c then some ([], .number (c :: read)) else endWith (ofNumber? read) c
  | .quotes false, c =>
    if c = '"' then some ([], .quotes true) else stepQuoted false [] c
  | .quotes true, c =>
    if c = '"' then some ([], .block .plain []) else endWith (ofQuoted? []) c
  | .quoted escaped read, c => stepQuoted escaped read c
  | .block ending read, c => some (stepBlock ending read c)

/-- The tokens that the end of the text completes. -/
def finish : Mode → Option (List Token)
  | .between => some []
  | .comment => some []
  | .name read => (ofName? read).map fun t ↦ [t]
  | .number read => (ofNumber? read).map fun t ↦ [t]
  | .quotes true => (ofQuoted? []).map fun t ↦ [t]
  | _ => none

/-- Steps through a text: the tokens completed on the way, and the mode at the end. -/
def run : Mode → List Char → Option (List Token × Mode)
  | m, [] => some ([], m)
  | m, c :: cs => do
    let (ts, m) ← step m c
    let (us, m) ← run m cs
    some (ts ++ us, m)

/-- The tokens of a text, or `none` if some part of it is no token. -/
def scan (cs : List Char) : Option (List Token) := do
  let (ts, m) ← run .between cs
  let us ← finish m
  some (ts ++ us)

/-- A run over two texts, one after the other, is the two runs one after the other. -/
theorem run_append (m : Mode) (cs ds : List Char) :
    run m (cs ++ ds) = (do
      let (ts, m) ← run m cs
      let (us, m) ← run m ds
      some (ts ++ us, m)) := by
  induction cs generalizing m with
  | nil =>
    cases h : run m ds <;> simp [run, h]
  | cons c cs ih =>
    rw [List.cons_append, run, run]
    cases hs : step m c with
    | none => rfl
    | some r =>
      obtain ⟨ts, m₁⟩ := r
      simp only [Option.bind_eq_bind, Option.bind_some]
      rw [ih]
      cases hc : run m₁ cs with
      | none => rfl
      | some r =>
        obtain ⟨us, m₂⟩ := r
        simp only [Option.bind_eq_bind, Option.bind_some]
        cases run m₂ ds <;> simp

end Token
end TypeFootprint
