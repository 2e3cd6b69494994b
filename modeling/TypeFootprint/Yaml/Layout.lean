import TypeFootprint.Yaml.Cursor
import TypeFootprint.Yaml.Token

/-!
# Indentation and keys

While a text is scanned, the indentation of each open collection has to be known, and which token
may turn out to be a key once a colon follows.  A `Layout` holds both, the tokens found so far, and
the place that has been reached.

* `Layout.rollTo` opens a collection in block style, `Layout.unrollTo` closes those that are
  indented further than a column.
* `Layout.saveKey` remembers the next token as a possible key, `Layout.markKey` makes it one.
* `Layout.ready` are the tokens that no later colon can change.
-/

set_option autoImplicit false

namespace TypeFootprint.Yaml

/-- The indentation around a collection.  `isBlock` tells a collection in block style from the
content of a key or an entry, which has to be indented by one column more. -/
structure Indent where
  column : Int
  isBlock : Bool

/-- A token that may be a key: the number of tokens before it, and its place.  A required one starts
in the column of the mapping around it and cannot be anything else. -/
structure Candidate where
  number : Nat
  line : Nat
  column : Nat
  isRequired : Bool

/-- The state of a scan.  Tokens are kept last first.  `key` is the candidate in the innermost flow
collection, and `outerKeys` has one place for each flow collection that is open.  `isAdjacent` says
that a quoted scalar or a flow collection ends right here. -/
structure Layout where
  cursor : Cursor
  tokens : List Token
  indent : Int
  outer : List Indent
  key : Option Candidate
  outerKeys : List (Option Candidate)
  mayBeKey : Bool
  isAdjacent : Bool

namespace Layout

/-- The layout at the start of a text. -/
def start (text : List Char) : Layout := ⟨.start text, [], -1, [], none, [], true, false⟩

/-- Whether a flow collection is open. -/
def inFlow (l : Layout) : Bool := !l.outerKeys.isEmpty

/-- Whether a collection in block style is the innermost thing that is indented. -/
def inBlock (l : Layout) : Bool := l.outer.head?.any Indent.isBlock

/-- The layout at another place. -/
def moveTo (l : Layout) (p : Cursor) : Layout := { l with cursor := p }

/-- One more token. -/
def push (l : Layout) (t : Token) : Layout := { l with tokens := t :: l.tokens }

/-- One more token, behind so many of the others. -/
def pushAt (l : Layout) (number : Nat) (t : Token) : Layout :=
  { l with tokens := l.tokens.insertIdx (l.tokens.length - number) t }

/-! ## Indentation -/

/-- Drops the indentation of the content of keys and entries. -/
def dropContent (indent : Int) : List Indent → Int × List Indent
  | [] => (indent, [])
  | i :: is => if i.isBlock then (indent, i :: is) else dropContent i.column is

/-- The layout without the indentation of the content of keys and entries. -/
def unrollContent (l : Layout) : Layout :=
  let (indent, outer) := dropContent l.indent l.outer
  { l with indent := indent, outer := outer }

/-- The layout where the content of a key or an entry has to be indented. -/
def rollContent (l : Layout) : Layout :=
  if l.inBlock && !l.inFlow then
    { l with indent := l.indent + 1, outer := ⟨l.indent, false⟩ :: l.outer }
  else l

/-- The layout without the innermost indentation, if that is of content at a column that another
collection may take. -/
def yieldContent (column : Nat) (l : Layout) : Layout :=
  match l.outer with
  | ⟨indent, false⟩ :: outer =>
    if l.indent ≤ column then { l with indent := indent, outer := outer } else l
  | _ => l

/-- Opens a collection in block style at a column, unless one is open there already.  Its token
comes behind so many of the others. -/
def rollTo (column number : Nat) (t : Token) (l : Layout) : Layout :=
  if l.inFlow then l
  else
    let l := l.yieldContent column
    if l.indent < column then
      { l.pushAt number t with indent := column, outer := ⟨l.indent, true⟩ :: l.outer }
    else l

/-- The indentations that are left when those right of a column end, and how many collections end
with them. -/
def dropTo (column : Int) (indent : Int) : List Indent → Int × List Indent × Nat
  | [] => (indent, [], 0)
  | i :: is =>
    if column < indent then
      let (indent, outer, ends) := dropTo column i.column is
      (indent, outer, if i.isBlock then ends + 1 else ends)
    else (indent, i :: is, 0)

/-- Closes the collections in block style that are indented further than a column. -/
def unrollTo (column : Int) (l : Layout) : Layout :=
  if l.inFlow then l
  else
    let (indent, outer, ends) := dropTo column l.indent l.outer
    { l with
      indent := indent
      outer := outer
      tokens := List.replicate ends Token.collectionEnd ++ l.tokens }

/-! ## Keys -/

/-- Remembers the token that comes next as a possible key. -/
def saveKey (l : Layout) : Layout :=
  if l.mayBeKey then
    let isRequired := !l.inFlow && l.inBlock && l.indent == l.cursor.column
    { l with key := some ⟨l.tokens.length, l.cursor.line, l.cursor.column, isRequired⟩ }
  else l

/-- Forgets the possible key; a required one must not be forgotten. -/
def dropKey? (l : Layout) : Option Layout :=
  if l.key.any Candidate.isRequired then none else some { l with key := none }

/-- The most characters that a key in block style may be in front of its colon. -/
def keyReach : Nat := 1024

/-- Whether a possible key is on an earlier line or too far behind, which rules it out in block
style. -/
def isStale (l : Layout) : Bool :=
  !l.inFlow && l.key.any fun k ↦
    decide (k.line < l.cursor.line) || decide (k.column + keyReach < l.cursor.column)

/-- Forgets the possible key if it is ruled out. -/
def dropStale? (l : Layout) : Option Layout := if l.isStale then l.dropKey? else some l

/-- Makes the candidate a key, and opens a mapping for it. -/
def markKey (k : Candidate) (l : Layout) : Layout :=
  { (l.pushAt k.number .key).rollTo k.column k.number .mappingStart with
    key := none
    mayBeKey := false }

/-- The candidates that a later colon could still make keys. -/
def openKeys (l : Layout) : List Candidate :=
  ((if l.isStale then none else l.key) :: l.outerKeys).filterMap id

/-- The tokens, the first one first. -/
def allTokens (l : Layout) : List Token := l.tokens.reverse

/-- The tokens in front of all that could still be keys. -/
def ready (l : Layout) : List Token :=
  l.allTokens.take (l.openKeys.foldl (fun n k ↦ min n k.number) l.tokens.length)

end Layout
end TypeFootprint.Yaml
