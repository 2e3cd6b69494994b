import TypeFootprint.Text.Escape
import TypeFootprint.Yaml.Cursor

/-!
# Quoted scalars

Between single quotes a quote is written twice, and everything else stands for itself.  Between
double quotes a backslash starts an escape; behind a backslash the end of a line means nothing.  In
both, the ends of lines and the blanks around them are folded.  In block style the lines behind the
first one have to be indented, unless nothing but the closing quote stands on them.

The text between the quotes is first taken apart into pieces; `Piece.foldFrom` then joins them.
-/

set_option autoImplicit false

namespace TypeFootprint.Yaml

/-- A piece of a quoted scalar: a character that is written in so many, a blank, or the end of a
line, which may be escaped. -/
inductive Piece where
  | letter (c : Char) (width : Nat)
  | blank (c : Char)
  | lineEnd
  | escapedEnd
deriving DecidableEq

namespace Piece

/-- The piece that an unescaped character is. -/
def ofChar (c : Char) : Piece :=
  if isBreak c then lineEnd else if isSpace c then blank c else letter c 1

/-- The character of a one-letter escape. -/
def letter? (c : Char) : Option Char :=
  match c with
  | '0' => some '\x00'
  | 'a' => some '\x07'
  | 'v' => some '\x0b'
  | 'e' => some '\x1b'
  | ' ' => some ' '
  | '\t' => some '\t'
  | 'N' => some '\u0085'
  | '_' => some '\u00a0'
  | 'L' => some '\u2028'
  | 'P' => some '\u2029'
  | c => Escape.letter? c

/-- A piece in front of others. -/
def before (p : Piece) (others : Option (List Piece × List Char)) :
    Option (List Piece × List Char) :=
  others.map fun (ps, rest) ↦ (p :: ps, rest)

/-- The pieces up to a single quote, and what is behind it. -/
def untilSingle : List Char → Option (List Piece × List Char)
  | [] => none
  | '\'' :: '\'' :: cs => before (letter '\'' 2) (untilSingle cs)
  | '\'' :: cs => some ([], cs)
  | c :: cs => before (ofChar c) (untilSingle cs)

/-- The pieces up to a double quote, and what is behind it. -/
def untilDouble : List Char → Option (List Piece × List Char)
  | [] => none
  | '"' :: cs => some ([], cs)
  | '\\' :: 'x' :: a :: b :: cs => do
    let x ← Escape.scalar? (← Escape.hex4? '0' '0' a b)
    before (letter x 4) (untilDouble cs)
  | '\\' :: 'u' :: a :: b :: c :: d :: '\\' :: 'u' :: e :: f :: g :: h :: cs => do
    let m ← Escape.hex4? a b c d
    if Escape.isLeading m then
      let n ← Escape.hex4? e f g h
      if Escape.isTrailing n then
        let x ← Escape.scalar? (Escape.pairValue m n)
        before (letter x 12) (untilDouble cs)
      else none
    else
      let x ← Escape.scalar? m
      before (letter x 6) (untilDouble ('\\' :: 'u' :: e :: f :: g :: h :: cs))
  | '\\' :: 'u' :: a :: b :: c :: d :: cs => do
    let x ← Escape.scalar? (← Escape.hex4? a b c d)
    before (letter x 6) (untilDouble cs)
  | '\\' :: 'U' :: a :: b :: c :: d :: e :: f :: g :: h :: cs => do
    let high ← Escape.hex4? a b c d
    let low ← Escape.hex4? e f g h
    let x ← Escape.scalar? (high * 0x10000 + low)
    before (letter x 10) (untilDouble cs)
  | '\\' :: c :: cs =>
    if isBreak c then before escapedEnd (untilDouble cs)
    else do
      let x ← letter? c
      before (letter x 2) (untilDouble cs)
  | ['\\'] => none
  | c :: cs => before (ofChar c) (untilDouble cs)

/-- Whether three such characters come next, with a gap behind them. -/
def isTriple (mark : Char) (ps : List Piece) : Bool :=
  ps.take 3 == [letter mark 1, letter mark 1, letter mark 1] &&
    match ps[3]? with
    | some (blank _) => true
    | some lineEnd => true
    | _ => false

/-- Whether text may go on here: behind the end of a line it has to be indented in block style, and
must not look like the mark of a document. -/
def mayResume (inFlow : Bool) (indent : Int) (gap : Gap) (column : Nat) (ps : List Piece) : Bool :=
  !gap.hasLines || ((inFlow || !Cursor.isLeftOf column indent) &&
    !(column = 0 && (isTriple '-' ps || isTriple '.' ps)))

/-- Joins pieces to a text, last character first, with the place of the closing quote, which may
stand anywhere.  A tab must not indent a line. -/
def foldFrom (inFlow : Bool) (indent : Int) : (gap : Gap) → (read : List Char) →
    (line column : Nat) → List Piece → Option (List Char × Nat × Nat)
  | gap, read, line, column, [] => some (gap.text ++ read, line, column)
  | gap, read, line, column, p :: ps =>
    match p with
    | lineEnd => foldFrom inFlow indent gap.addLine read (line + 1) 0 ps
    | blank c =>
      if c = '\t' && gap.hasLines && Cursor.isLeftOf column indent then none
      else foldFrom inFlow indent (gap.addBlank c) read line (column + 1) ps
    | escapedEnd =>
      if mayResume inFlow indent gap column (p :: ps) then
        foldFrom inFlow indent (.lines true 0) (gap.text ++ read) (line + 1) 0 ps
      else none
    | letter c width =>
      if mayResume inFlow indent gap column (p :: ps) then
        foldFrom inFlow indent .none (c :: (gap.text ++ read)) line (column + width) ps
      else none

end Piece

/-- Reads the quoted scalar at a place, whose lines are indented to the column `indent`: its text,
and the place behind it. -/
def Quoted.read? (inFlow : Bool) (indent : Int) (p : Cursor) : Option (String × Cursor) := do
  let (pieces, rest) ← match p.rest with
    | '\'' :: cs => Piece.untilSingle cs
    | '"' :: cs => Piece.untilDouble cs
    | _ => none
  let (read, line, column) ← Piece.foldFrom inFlow indent .none [] p.line (p.column + 1) pieces
  some (String.ofList read.reverse, ⟨rest, line, column + 1, false⟩)

end TypeFootprint.Yaml
