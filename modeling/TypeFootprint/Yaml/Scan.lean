import TypeFootprint.Yaml.Block
import TypeFootprint.Yaml.Layout
import TypeFootprint.Yaml.Plain
import TypeFootprint.Yaml.Property
import TypeFootprint.Yaml.Quoted

/-!
# From characters to tokens in YAML

A scan goes from token to token.  `Layout.step?` finds the next one, with the starts and ends of
collections in block style that its indentation brings about; it fails where no token can stand.

`scan` goes on to the end of a text, or to where it fails.  In the second case the tokens end
without a `textEnd`, and those that a later colon could have changed are missing.
-/

set_option autoImplicit false

namespace TypeFootprint.Yaml
namespace Layout

/-- The start or the end of a document. -/
def documentMark? (t : Token) (l : Layout) : Option Layout := do
  if l.inFlow then none
  let l ← (l.unrollTo (-1)).dropKey?
  some { (l.moveTo (l.cursor.past 3)).push t with mayBeKey := false }

/-- The end of a document, with nothing else on its line. -/
def documentEnd? (l : Layout) : Option Layout := do
  let l ← l.documentMark? .documentEnd
  let p ← l.cursor.skipBlanks?
  if lineEnds p.rest then some (l.moveTo p) else none

/-- The start of a flow collection, which may be a key. -/
def flowStart? (t : Token) (l : Layout) : Option Layout := do
  let l := l.saveKey.rollContent
  let p ← (l.cursor.past 1).skipBlanks?
  some { (l.moveTo p).push t with
    key := none
    outerKeys := l.key :: l.outerKeys
    mayBeKey := true }

/-- The end of a flow collection. -/
def flowEnd? (t : Token) (l : Layout) : Option Layout := do
  let l ← l.dropKey?
  match l.outerKeys with
  | [] => none
  | key :: outerKeys =>
    let p ← (l.cursor.past 1).skipBlanks?
    some { (l.moveTo p).push t with
      key := key
      outerKeys := outerKeys
      mayBeKey := false
      isAdjacent := !lineEnds p.rest }

/-- The end of an item in a flow collection. -/
def comma? (l : Layout) : Option Layout := do
  let l ← l.dropKey?
  let p ← (l.cursor.past 1).skipBlanks?
  some { (l.moveTo p).push .comma with mayBeKey := true }

/-- Whether a tab is among the blanks that come next. -/
def tabNext (p : Cursor) : Bool := (p.rest.takeWhile isSpace).contains '\t'

/-- An entry of a sequence in block style. -/
def entry? (l : Layout) : Option Layout := do
  if l.inFlow || !l.mayBeKey then none
  let p := l.cursor.past 1
  let l := l.rollTo l.cursor.column l.tokens.length .sequenceStart
  let q ← p.skipBlanks?
  if tabNext p && q.head? == some '-' && gapNext (q.rest.drop 1) then none
  let hasBreak := q.head?.any fun c ↦ isBreak c || isFlowMark c
  let l ← (if hasBreak then (l.moveTo q).rollContent else l.moveTo q).dropKey?
  some { l.push .entry with mayBeKey := true }

/-- The mark of a key that may be any node; no tab may stand between the two. -/
def anyKey? (l : Layout) : Option Layout := do
  if !l.inFlow && !l.mayBeKey then none
  let l ← (l.rollTo l.cursor.column l.tokens.length .mappingStart).dropKey?
  let p := (l.cursor.past 1).skipSpaces
  if p.head? == some '\t' then none
  some { (l.moveTo p).push .key with mayBeKey := !l.inFlow }

/-- Whether a character behind a colon and a tab looks like an entry or a plain scalar. -/
def startsWord (c : Char) : Bool := c.isAlphanum || c == '_' || c == '-'

/-- A tab right behind the colon of a value has to be followed by something else than a word, unless
there are other blanks too. -/
def valuePlace? (p : Cursor) : Option Cursor :=
  if p.head? == some '\t' then do
    let q ← p.skipBlanks?
    let hasSpace := (p.rest.takeWhile isSpace).contains ' '
    if !hasSpace && q.head?.any startsWord then none else some q
  else some p

/-- The mark of a value.  Without a key in front of it, it stands for one that is left out. -/
def value? (l : Layout) : Option Layout := do
  let p ← valuePlace? (l.cursor.past 1)
  match l.key with
  | some k => some (((l.markKey k).rollContent.moveTo p).push .value)
  | none =>
    if !l.inFlow && !l.mayBeKey then none
    let l := l.rollTo l.cursor.column l.tokens.length .mappingStart
    some { (l.rollContent.moveTo p).push .value with mayBeKey := !l.inFlow }

/-- The mark of a value in flow style, with no blank behind it.  A collection has to be behind a
blank unless the key is quoted or a collection itself. -/
def flowValue? (isAdjacent : Bool) (l : Layout) : Option Layout :=
  let next := l.cursor.rest[1]?
  if !isAdjacent && (next == some '[' || next == some '{') then none else l.value?

/-- What may follow a quoted scalar: the end of the line, or what goes on with a collection.  A key
has to be on one line in block style. -/
def mayFollowQuoted (l : Layout) (p : Cursor) : Bool :=
  match p.head? with
  | none => true
  | some c =>
    isBreak c || (if l.inFlow then c == ',' || c == '}' || c == ']' || c == ':'
      else c == ':' && p.line == l.cursor.line)

/-- A quoted scalar. -/
def quoted? (l : Layout) : Option Layout := do
  let l := l.saveKey
  let (text, p) ← Quoted.read? l.inFlow l.indent l.cursor
  let p ← p.skipBlanks?
  if !mayFollowQuoted l p then none
  let q ← p.toToken? (if l.outer.isEmpty then -1 else l.indent)
  some { (l.moveTo q).push (.quoted text) with
    mayBeKey := !l.inFlow && decide (p.line < q.line)
    isAdjacent := true }

/-- A plain scalar. -/
def plain? (l : Layout) : Option Layout := do
  let l := l.saveKey.unrollContent
  if l.inFlow && Cursor.isLeftOf l.cursor.column (l.indent + 1) then none
  let (text, p) ← Plain.read? l.inFlow (l.indent + 1) l.cursor
  some { (l.moveTo p).push (.plain text) with mayBeKey := p.isIndent }

/-- A block scalar.  What comes behind it may be a key. -/
def block? (isFolded : Bool) (l : Layout) : Option Layout := do
  let l := l.saveKey.unrollContent
  let (text, p) ← Block.read? isFolded l.indent l.cursor
  some { (l.moveTo p).push (.block text) with mayBeKey := true }

/-- A token that is read behind its first character, and may be a key or come before one.  `admits`
says what may follow it. -/
def property? {α : Type} (read : List Char → Option (α × List Char)) (token : α → Token)
    (admits : List Char → Bool) (l : Layout) : Option Layout := do
  let l := l.saveKey
  let (found, rest) ← read (l.cursor.rest.drop 1)
  let width := l.cursor.rest.length - rest.length
  if admits rest then
    some { (l.moveTo (l.cursor.past width)).push (token found) with mayBeKey := false }
  else none

/-- What may follow a tag. -/
def mayFollowTag (l : Layout) (rest : List Char) : Bool :=
  gapNext rest || (l.inFlow && flowMarkNext rest)

/-- A directive, with nothing else on its line. -/
def directive? (l : Layout) : Option Layout := do
  if l.inFlow then none
  let l ← (l.unrollTo (-1)).dropKey?
  let (directive, rest) ← Directive.read? (l.cursor.rest.drop 1)
  let p ← (l.cursor.past (l.cursor.rest.length - rest.length)).skipBlanks?
  if lineEnds p.rest then
    some { (l.moveTo p).push (.directive directive) with mayBeKey := false }
  else none

/-- The token that a character starts, where `rest` is what follows it. -/
def token? (c : Char) (rest : List Char) (l : Layout) : Option Layout :=
  let gap := gapNext rest
  let isAdjacent := l.isAdjacent
  let l := { l with isAdjacent := false }
  if c = '[' then l.flowStart? .bracketOpen
  else if c = '{' then l.flowStart? .braceOpen
  else if c = ']' then l.flowEnd? .bracketClose
  else if c = '}' then l.flowEnd? .braceClose
  else if c = ',' then l.comma?
  else if c = '-' && gap then l.entry?
  else if c = '?' && gap then l.anyKey?
  else if c = ':' && gap then l.value?
  else if c = ':' && l.inFlow && (isAdjacent || flowMarkNext rest) then l.flowValue? isAdjacent
  else if c = '\'' || c = '"' then l.quoted?
  else if c = '&' then l.property? name? .anchor fun _ ↦ true
  else if c = '*' then l.property? name? .aliasTo fun _ ↦ true
  else if c = '!' then l.property? Tag.read? .tag l.mayFollowTag
  else if (c = '|' || c = '>') && !l.inFlow then l.block? (c == '>')
  else if "%@`".toList.contains c then none
  else l.plain?

/-- Whether a token may be less indented than the collection around it. -/
def mayStandOut (l : Layout) (c : Char) : Bool := l.inFlow && (c == ']' || c == '}' || c == ',')

/-- Goes to the next token. -/
def advance? (l : Layout) : Option Layout := do
  let p ← l.cursor.toToken? (if l.outer.isEmpty then -1 else l.indent)
  let crossed := decide (l.cursor.line < p.line)
  let l := { l.moveTo p with
    mayBeKey := l.mayBeKey || (crossed && !l.inFlow)
    isAdjacent := l.isAdjacent && !crossed }
  l.dropStale?

/-- The end of a text. -/
def finish? (l : Layout) : Option Layout := do
  if l.inFlow then none
  let l ← (l.unrollTo (-1)).dropKey?
  some (l.push .textEnd)

/-- Finds the next token. -/
def step? (l : Layout) : Option Layout := do
  let l ← l.advance?
  let l := l.unrollTo l.cursor.column
  match l.cursor.rest with
  | [] => l.finish?
  | c :: rest =>
    if l.cursor.column = 0 && c == '%' then l.directive?
    else if l.cursor.column = 0 && isTriple '-' (c :: rest) then l.documentMark? .documentStart
    else if l.cursor.column = 0 && isTriple '.' (c :: rest) then l.documentEnd?
    else if Cursor.isLeftOf l.cursor.column l.indent && !l.mayStandOut c then none
    else l.token? c rest

/-- Whether the end of the text has been found. -/
def isFinished (l : Layout) : Bool := l.tokens.head? = some .textEnd

/-- The tokens that so many steps find. -/
def tokensFrom : (fuel : Nat) → Layout → List Token
  | 0, l => l.ready
  | fuel + 1, l =>
    match l.step? with
    | none => l.ready
    | some m => if m.isFinished then m.allTokens else tokensFrom fuel m

end Layout

/-- A text with one character for the end of a line. -/
def unifyBreaks : List Char → List Char
  | [] => []
  | '\r' :: '\n' :: cs => '\n' :: unifyBreaks cs
  | '\r' :: cs => '\n' :: unifyBreaks cs
  | c :: cs => c :: unifyBreaks cs

/-- A text without the byte order mark that it starts with. -/
def dropByteOrderMark : List Char → List Char
  | '\uFEFF' :: cs => cs
  | cs => cs

/-- The characters of a text that count: up to the first NUL, and behind one byte order mark or
two. -/
def countingPart (text : List Char) : List Char :=
  (dropByteOrderMark (dropByteOrderMark text)).takeWhile fun c ↦ c != '\x00'

/-- The tokens of a text. -/
def scan (text : List Char) : List Token :=
  let counting := unifyBreaks (countingPart text)
  Layout.tokensFrom (counting.length + 1) (.start counting)

end TypeFootprint.Yaml
