/-!
# Block strings

A block string stands between two triple quotes and may run over several lines.  A triple quote
inside it is written `\"""`; nothing else is escaped.  Its value is found line by line: the
indentation that all lines but the first have in common is removed from them, and so are the
blank lines at the start and at the end.

* `Block.encode` writes each triple quote of a text as `\"""`.
* `Block.value` computes the value of what stands between the triple quotes.
-/

set_option autoImplicit false

namespace TypeFootprint.Block

/-- Writes a backslash before each triple quote. -/
def encode : List Char → List Char
  | [] => []
  | '"' :: '"' :: '"' :: cs => '\\' :: '"' :: '"' :: '"' :: encode cs
  | c :: cs => c :: encode cs

/-- Removes the backslash before each triple quote. -/
def unescape : List Char → List Char
  | [] => []
  | '\\' :: '"' :: '"' :: '"' :: cs => '"' :: '"' :: '"' :: unescape cs
  | c :: cs => c :: unescape cs

/-- Puts a character at the start of the first line. -/
def consFirst (c : Char) : List (List Char) → List (List Char)
  | [] => [[c]]
  | line :: lines => (c :: line) :: lines

/-- The lines of a text.  A line ends at a newline, at a carriage return, or at the two of them
together; the last line may be empty. -/
def lines : List Char → List (List Char)
  | [] => [[]]
  | '\r' :: '\n' :: cs => [] :: lines cs
  | '\r' :: cs => [] :: lines cs
  | '\n' :: cs => [] :: lines cs
  | c :: cs => consFirst c (lines cs)

/-- A space or a tab: what indentation is made of. -/
def isIndent (c : Char) : Bool := c == ' ' || c == '\t'

/-- How far a line is indented; `none` if there is nothing else on it. -/
def indent? (line : List Char) : Option Nat :=
  if line.all isIndent then none else some (line.takeWhile isIndent).length

/-- The indentation that all these lines share, blank lines not counted. -/
def commonIndent (lines : List (List Char)) : Nat := (lines.filterMap indent?).min?.getD 0

/-- A line with nothing on it but indentation. -/
def isBlank (line : List Char) : Bool := line.all isIndent

/-- Drops the blank lines at both ends. -/
def trimBlank (lines : List (List Char)) : List (List Char) :=
  ((lines.dropWhile isBlank).reverse.dropWhile isBlank).reverse

/-- Removes the common indentation from every line but the first. -/
def dedent : List (List Char) → List (List Char)
  | [] => []
  | first :: rest => first :: rest.map (List.drop (commonIndent rest))

/-- Puts a newline between each two lines. -/
def unlines : List (List Char) → List Char
  | [] => []
  | [line] => line
  | line :: next :: rest => line ++ '\n' :: unlines (next :: rest)

/-- The value of the text between the triple quotes. -/
def value (raw : List Char) : List Char :=
  unlines (trimBlank (dedent (lines (unescape raw))))

end TypeFootprint.Block
