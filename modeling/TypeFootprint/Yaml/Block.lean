import TypeFootprint.Yaml.Cursor

/-!
# Block scalars

The lines of a block scalar stand below its header, and are indented further than what is around it.
Behind a bar each line stays a line.  Behind an angle bracket lines are folded: a single end of a
line is a space unless one of the two lines starts with a blank.

The header may say by how many columns the lines are indented; otherwise the first line with text
says it.  It may also say what becomes of the end of the last line and of empty lines behind it.
-/

set_option autoImplicit false

namespace TypeFootprint.Yaml.Block

/-- What becomes of the ends of lines at the end: only the first stays, or none, or all. -/
inductive Chomping where
  | clip
  | strip
  | keep
deriving DecidableEq

/-- The header of a block scalar.  An `increment` of zero is one that is left out. -/
structure Header where
  chomping : Chomping
  increment : Nat

/-- The chomping that an indicator asks for. -/
def chomping? (c : Char) : Option Chomping :=
  if c = '-' then some .strip else if c = '+' then some .keep else none

/-- The increment that a digit stands for. -/
def increment? (c : Char) : Option Nat :=
  if c.isDigit && c != '0' then some (c.toNat - '0'.toNat) else none

/-- Whether a character may be an indicator in a header. -/
def isIndicator (c : Char) : Bool := c == '+' || c == '-' || c.isDigit

/-- Reads the indicators of a header: at most one of each kind, in either order. -/
def header? : List Char → Option Header
  | [] => some ⟨.clip, 0⟩
  | [c] =>
    match chomping? c with
    | some chomping => some ⟨chomping, 0⟩
    | none => (increment? c).map (Header.mk .clip)
  | [c, d] =>
    match chomping? c with
    | some chomping => (increment? d).map (Header.mk chomping)
    | none => do some ⟨← chomping? d, ← increment? c⟩
  | _ => none

/-- How many blanks stand in front of the first line with text, or of an empty line before it if
that has more. -/
def leadingBlanks : (column most : Nat) → List Char → Nat
  | column, most, [] => max column most
  | column, most, c :: cs =>
    if c = ' ' then leadingBlanks (column + 1) most cs
    else if isBreak c then leadingBlanks 0 (max column most) cs
    else max column most

/-- The column of the lines of a block scalar, where `outer` is the indentation around it. -/
def column (header : Header) (outer : Int) (text : List Char) : Nat :=
  if header.increment = 0 then max (leadingBlanks 0 0 text) (outer + 1).toNat
  else (max outer 0).toNat + header.increment

/-- What has been read of a block scalar, last character first: whether a line with text has just
ended, how many empty lines came then, and whether the line with text starts with a blank. -/
structure Reading where
  read : List Char
  hasBreak : Bool
  emptyLines : Nat
  isIndented : Bool

namespace Reading

/-- Nothing has been read. -/
def start : Reading := ⟨[], false, 0, false⟩

/-- The ends of the empty lines. -/
def emptyText (r : Reading) : List Char := List.replicate r.emptyLines '\n'

/-- The end of the line with text. -/
def breakText (r : Reading) : List Char := if r.hasBreak then ['\n'] else []

/-- The next line with text starts with this character. -/
def openLine (isFolded : Bool) (c : Char) (r : Reading) : Reading :=
  let gap :=
    if isFolded && r.hasBreak && !r.isIndented && !isSpace c then
      if r.emptyLines = 0 then [' '] else r.emptyText
    else r.breakText ++ r.emptyText
  ⟨c :: (gap ++ r.read), false, 0, isSpace c⟩

/-- One more character of a line with text. -/
def add (c : Char) (r : Reading) : Reading := { r with read := c :: r.read }

end Reading

/-- Reads the lines at a column.  `inText` says that the text of a line has begun.  A line that is
indented less ends the scalar, and in the first column a mark of a document does. -/
def readFrom (isFolded : Bool) (indent : Nat) : (inText : Bool) → (r : Reading) →
    (line column : Nat) → List Char → Reading × Cursor
  | inText, r, line, column, [] => (r, ⟨[], line, column, !inText⟩)
  | true, r, line, column, c :: cs =>
    if isBreak c then readFrom isFolded indent false { r with hasBreak := true } (line + 1) 0 cs
    else readFrom isFolded indent true (r.add c) line (column + 1) cs
  | false, r, line, column, c :: cs =>
    if c = ' ' && decide (column < indent) then
      readFrom isFolded indent false r line (column + 1) cs
    else if isBreak c then
      readFrom isFolded indent false { r with emptyLines := r.emptyLines + 1 } (line + 1) 0 cs
    else if column = indent && !(indent = 0 && documentMarkNext (c :: cs)) then
      readFrom isFolded indent true (r.openLine isFolded c) line (column + 1) cs
    else (r, ⟨c :: cs, line, column, true⟩)

/-- The ends of lines that stay at the end, last first.  At the end of a text the last line need not
have one of its own; `headerLine` is the line of the header. -/
def tail (chomping : Chomping) (indent headerLine : Nat) (r : Reading) (p : Cursor) : List Char :=
  match chomping with
  | .strip => []
  | .clip | .keep =>
    let last :=
      if p.rest.isEmpty && r.read.isEmpty then
        if p.line = headerLine || (chomping = .keep && r.emptyLines ≠ 0) then [] else ['\n']
      else if p.rest.isEmpty && decide (max indent 1 ≤ p.column) then '\n' :: r.breakText
      else r.breakText
    if chomping = .keep then r.emptyText ++ last else last

/-- Reads the block scalar at a place, where `outer` is the indentation around it: its text, and the
place behind it.  Its lines must not start with a tab, and the first one must not be indented by
too little. -/
def read? (isFolded : Bool) (outer : Int) (p : Cursor) : Option (String × Cursor) := do
  let indicators := (p.rest.drop 1).takeWhile isIndicator
  let header ← header? indicators
  let q ← (p.past (1 + indicators.length)).skipBlanks?
  let text := q.rest.drop 1
  if !lineEnds q.rest || text.head? == some '\t' then none
  let indent := column header outer text
  let (r, end_) := if q.rest.isEmpty then (.start, q)
    else readFrom isFolded indent false .start (q.line + 1) 0 text
  let isAstray := r.read.isEmpty && !end_.rest.isEmpty && decide (end_.column < indent) &&
    decide (outer < end_.column)
  if isAstray then none
  some (String.ofList (tail header.chomping indent q.line r end_ ++ r.read).reverse, end_)

end TypeFootprint.Yaml.Block
