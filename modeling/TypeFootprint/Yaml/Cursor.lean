/-!
# Places in a YAML text

A cursor is what is left of a text, with the place where that starts.  YAML asks of a place how far
to the right it is, and whether anything but blanks stands before it on its line.

* `Cursor.skipBlanks?` goes to the next character on the line, past blanks and a comment.
* `Cursor.toToken?` goes to the next character of a token, past lines without any.
-/

set_option autoImplicit false

namespace TypeFootprint.Yaml

/-! ## Characters -/

/-- A blank inside a line. -/
def isSpace (c : Char) : Bool := c == ' ' || c == '\t'

/-- The end of a line; a carriage return before it has been removed. -/
def isBreak (c : Char) : Bool := c == '\n'

/-- A blank or the end of a line. -/
def isGap (c : Char) : Bool := isSpace c || isBreak c

/-- Whether a blank, the end of the line or nothing comes next. -/
def gapNext (cs : List Char) : Bool := cs.head?.all isGap

/-- Whether nothing comes next on the line. -/
def lineEnds (cs : List Char) : Bool := cs.head?.all isBreak

/-- The marks of collections in flow style. -/
def isFlowMark (c : Char) : Bool := c == ',' || c == '[' || c == ']' || c == '{' || c == '}'

/-- Whether such a mark comes next. -/
def flowMarkNext (cs : List Char) : Bool := cs.head?.any isFlowMark

/-- Whether three such characters come next, with a gap behind them. -/
def isTriple (mark : Char) (cs : List Char) : Bool :=
  cs.take 3 == [mark, mark, mark] && gapNext (cs.drop 3)

/-- Whether the mark of the start or the end of a document comes next. -/
def documentMarkNext (cs : List Char) : Bool := isTriple '-' cs || isTriple '.' cs

/-! ## Cursors -/

/-- What is left of a text, and where it starts.  `isIndent` says that nothing but blanks comes
before it on its line. -/
structure Cursor where
  rest : List Char
  line : Nat
  column : Nat
  isIndent : Bool

namespace Cursor

/-- The start of a text. -/
def start (text : List Char) : Cursor := ⟨text, 0, 0, true⟩

/-- The next character. -/
def head? (p : Cursor) : Option Char := p.rest.head?

/-- The place behind so many characters of a token, all on one line. -/
def past (p : Cursor) (count : Nat) : Cursor :=
  ⟨p.rest.drop count, p.line, p.column + count, false⟩

/-- Whether a place is further left than a column. -/
def isLeftOf (column : Nat) (indent : Int) : Bool := decide ((column : Int) < indent)

/-- Goes past blanks, and past a comment if there is a blank in front of it; a comment without one
is refused. -/
def skipBlanks? (p : Cursor) : Option Cursor :=
  let blanks := p.rest.takeWhile isSpace
  let rest := p.rest.dropWhile isSpace
  let q := { p with rest := rest, column := p.column + blanks.length }
  if rest.head? == some '#' then
    if blanks.isEmpty then none
    else some { q with rest := rest.dropWhile fun c ↦ !isBreak c }
  else some q

/-- What may come next on a line without a token so far: anything, no token because of a tab, or
the rest of a comment. -/
inductive Skip where
  | blanks
  | tabbed
  | comment
deriving DecidableEq

/-- Goes to the next character of a token.  A tab left of the column `indent` must not indent a
token. -/
def toTokenFrom (indent : Int) : Skip → (line column : Nat) → (isIndent : Bool) → List Char →
    Option Cursor
  | _, line, column, isIndent, [] => some ⟨[], line, column, isIndent⟩
  | skip, line, column, isIndent, c :: cs =>
    if isBreak c then toTokenFrom indent .blanks (line + 1) 0 true cs
    else if skip = .comment then toTokenFrom indent .comment line (column + 1) isIndent cs
    else if c = '\t' && isIndent && isLeftOf column indent then
      toTokenFrom indent .tabbed line (column + 1) isIndent cs
    else if isSpace c then toTokenFrom indent skip line (column + 1) isIndent cs
    else if c = '#' then toTokenFrom indent .comment line (column + 1) isIndent cs
    else if skip = .tabbed then none
    else some ⟨c :: cs, line, column, isIndent⟩

/-- Goes to the next character of a token, where lines have to be indented to the column
`indent`. -/
def toToken? (indent : Int) (p : Cursor) : Option Cursor :=
  toTokenFrom indent .blanks p.line p.column p.isIndent p.rest

/-- Goes past spaces, ends of lines and comments, but not past a tab. -/
def skipSpacesFrom : (inComment : Bool) → (line column : Nat) → (isIndent : Bool) → List Char →
    Cursor
  | _, line, column, isIndent, [] => ⟨[], line, column, isIndent⟩
  | inComment, line, column, isIndent, c :: cs =>
    if isBreak c then skipSpacesFrom false (line + 1) 0 true cs
    else if inComment || c = ' ' || c = '#' then
      skipSpacesFrom (inComment || c = '#') line (column + 1) isIndent cs
    else ⟨c :: cs, line, column, isIndent⟩

/-- Goes to the next character of a token or to a tab in front of it. -/
def skipSpaces (p : Cursor) : Cursor := skipSpacesFrom false p.line p.column p.isIndent p.rest

end Cursor

/-! ## Gaps inside scalars -/

/-- What separates two parts of a scalar: blanks on a line, last first, or the end of a line and so
many more.  The first of these may be escaped, and then stands for nothing. -/
inductive Gap where
  | blanks (read : List Char)
  | lines (escaped : Bool) (more : Nat)

namespace Gap

/-- No gap. -/
def none : Gap := blanks []

/-- Whether nothing separates the parts. -/
def isNone : Gap → Bool
  | blanks read => read.isEmpty
  | lines _ _ => false

/-- Whether the next part is on another line. -/
def hasLines : Gap → Bool
  | blanks _ => false
  | lines _ _ => true

/-- The gap with one more blank; at the start of a line it means nothing. -/
def addBlank (c : Char) : Gap → Gap
  | blanks read => blanks (c :: read)
  | lines escaped more => lines escaped more

/-- The gap with one more end of a line; blanks in front of it mean nothing. -/
def addLine : Gap → Gap
  | blanks _ => lines false 0
  | lines escaped more => lines escaped (more + 1)

/-- What a gap stands for, last character first: a single end of a line is a space, and of several
all but the first stay. -/
def text : Gap → List Char
  | blanks read => read
  | lines false 0 => [' ']
  | lines _ more => List.replicate more '\n'

end Gap
end TypeFootprint.Yaml
