import TypeFootprint.Yaml.Cursor

/-!
# Plain scalars

A plain scalar has no quotes.  It ends before a comment, before the colon behind a key, in flow
style before the mark of a collection, and in block style before a line that is not indented enough;
otherwise it goes on over the ends of lines, whatever the next line starts with.
-/

set_option autoImplicit false

namespace TypeFootprint.Yaml.Plain

/-- Whether a character may be part of a plain scalar. -/
def mayContain (inFlow : Bool) (c : Char) (rest : List Char) : Bool :=
  if c == ':' then !(gapNext rest || (inFlow && flowMarkNext rest))
  else !(inFlow && isFlowMark c)

/-- Whether a plain scalar ends before a character that is the first one behind a gap. -/
def endsBefore (inFlow : Bool) (indent : Int) (column : Nat) (c : Char) (rest : List Char) : Bool :=
  (!inFlow && Cursor.isLeftOf column indent) || (column = 0 && documentMarkNext (c :: rest)) ||
    c == '#'

/-- Reads on after a gap.  `skip` says whether a tab forbids more text on this line, or a comment
hides it. -/
def readFrom (inFlow : Bool) (indent : Int) : (skip : Cursor.Skip) → (gap : Gap) →
    (read : List Char) → (line column : Nat) → List Char → Option (List Char × Cursor)
  | _, gap, read, line, column, [] => some (read, ⟨[], line, column, gap.hasLines⟩)
  | skip, gap, read, line, column, c :: cs =>
    let here : Option (List Char × Cursor) := some (read, ⟨c :: cs, line, column, gap.hasLines⟩)
    let isFirst := read.isEmpty || !gap.isNone
    if isBreak c then readFrom inFlow indent .blanks gap.addLine read (line + 1) 0 cs
    else if skip = .comment then readFrom inFlow indent .comment gap read line (column + 1) cs
    else if isSpace c then
      let tab := c == '\t' && gap.hasLines && Cursor.isLeftOf column indent
      readFrom inFlow indent (if tab then .tabbed else skip) (gap.addBlank c) read line (column + 1)
        cs
    else if skip = .tabbed then
      if c = '#' then readFrom inFlow indent .comment gap read line (column + 1) cs else none
    else if isFirst && !read.isEmpty && endsBefore inFlow indent column c cs then here
    else if isFirst && inFlow && c == '-' && flowMarkNext cs then none
    else if mayContain inFlow c cs then
      readFrom inFlow indent .blanks .none (c :: (gap.text ++ read)) line (column + 1) cs
    else here

/-- Reads the plain scalar at a place, indented to the column `indent`: its text, and the place
behind it and the gap that follows. -/
def read? (inFlow : Bool) (indent : Int) (p : Cursor) : Option (String × Cursor) := do
  let (read, q) ← readFrom inFlow indent .blanks .none [] p.line p.column p.rest
  if read.isEmpty then none else some (String.ofList read.reverse, q)

end TypeFootprint.Yaml.Plain
