import TypeFootprint.Yaml.Scan

/-!
# Documents in YAML

A `Source` is a node as it is written: its aliases still stand for themselves, and names and tags in
front of a node are kept.  A document is one such node, with what its handles stand for.

`Document.read?` reads the tokens of a text with one document, or none: a text without a node is an
empty plain scalar.  What follows the node must not be another document.  It may be anything else:
the node is complete as soon as it ends, and text that belongs to no document is not looked at.
-/

set_option autoImplicit false

namespace TypeFootprint.Yaml

/-- What may stand in front of a node. -/
structure Properties where
  anchor : Option String
  tag : Option Tag
deriving DecidableEq

/-- No properties. -/
def Properties.none : Properties := ⟨.none, .none⟩

/-- A node as it is written.  A plain scalar has neither quotes nor a header. -/
inductive Source where
  | plain (text : String)
  | text (text : String)
  | sequence (items : List Source)
  | mapping (members : List (Source × Source))
  | aliasTo (name : String)
  | withProperties (p : Properties) (s : Source)

namespace Source

/-- The node of what is left out. -/
def absent : Source := plain ""

/-- The properties in front of a node, in either order. -/
def properties : List Token → Properties × List Token
  | .anchor name :: .tag t :: ts => (⟨some name, some t⟩, ts)
  | .tag t :: .anchor name :: ts => (⟨some name, some t⟩, ts)
  | .anchor name :: ts => (⟨some name, none⟩, ts)
  | .tag t :: ts => (⟨none, some t⟩, ts)
  | ts => (.none, ts)

/-- Whether a token starts a node without properties. -/
def startsBare : Token → Bool
  | .plain _ => true
  | .quoted _ => true
  | .block _ => true
  | .bracketOpen => true
  | .braceOpen => true
  | .sequenceStart => true
  | .mappingStart => true
  | _ => false

/-- Whether a token starts a node. -/
def startsNode : Token → Bool
  | .anchor _ => true
  | .aliasTo _ => true
  | .tag _ => true
  | t => startsBare t

/-- A node and the tokens behind it. -/
abbrev Parsed := Option (Source × List Token)

/-- Nodes and the tokens behind them. -/
abbrev ParsedNodes := Option (List Source × List Token)

/-- Keys with their values and the tokens behind them. -/
abbrev ParsedPairs := Option (List (Source × Source) × List Token)

/-- Whether one of these tokens comes next, in place of a node that is left out. -/
def nextIn (ends : List Token) (ts : List Token) : Bool := ts.head?.any ends.contains

/-- What may come in place of a key or a value in a mapping in block style. -/
def memberEnds : List Token := [.key, .value, .collectionEnd]

/-- What may come in place of an entry of a sequence that is indented like the mapping around
it. -/
def entryEnds : List Token := .entry :: memberEnds

/-- What may come in place of a key or a value in flow style. -/
def flowEnds : List Token := [.value, .comma, .bracketClose, .braceClose]

mutual

/-- A node.  The entries of a sequence may start right here where it is the content of a key.  Behind
properties a node may be left out. -/
def read : (fuel : Nat) → (isContent : Bool) → List Token → Parsed
  | 0, _, _ => none
  | _, _, [] => none
  | fuel + 1, isContent, t :: ts =>
    match t with
    | .aliasTo name => some (aliasTo name, ts)
    | _ =>
      let (p, rest) := properties (t :: ts)
      if p = .none then readBare fuel isContent rest
      else
        let isLeftOut := rest.head?.any fun u ↦ !(startsBare u || (isContent && u = .entry))
        let bare := if isLeftOut then some (absent, rest) else readBare fuel isContent rest
        bare.map fun (s, rest) ↦ (withProperties p s, rest)

/-- A node without properties. -/
def readBare : (fuel : Nat) → (isContent : Bool) → List Token → Parsed
  | 0, _, _ => none
  | _, _, [] => none
  | fuel + 1, isContent, t :: ts =>
    match t with
    | .plain s => some (plain s, ts)
    | .quoted s => some (text s, ts)
    | .block s => some (text s, ts)
    | .bracketOpen => (readItems fuel true ts).map fun (items, rest) ↦ (sequence items, rest)
    | .braceOpen => (readPairs fuel true ts).map fun (members, rest) ↦ (mapping members, rest)
    | .sequenceStart => (readEntries fuel ts).map fun (items, rest) ↦ (sequence items, rest)
    | .mappingStart => (readMembers fuel ts).map fun (members, rest) ↦ (mapping members, rest)
    | .entry =>
      if isContent then
        (readContent fuel (t :: ts)).map fun (items, rest) ↦ (sequence items, rest)
      else none
    | _ => none

/-- A node that is left out if one of these tokens comes next. -/
def readUnless : (fuel : Nat) → (ends : List Token) → (isContent : Bool) → List Token → Parsed
  | 0, _, _, _ => none
  | fuel + 1, ends, isContent, ts =>
    if nextIn ends ts then some (absent, ts) else read fuel isContent ts

/-- A value behind its mark; without the mark it is left out. -/
def readValue : (fuel : Nat) → (ends : List Token) → (isContent : Bool) → List Token → Parsed
  | 0, _, _, _ => none
  | _, _, _, [] => none
  | fuel + 1, ends, isContent, t :: ts =>
    if t = .value then readUnless fuel ends isContent ts else some (absent, t :: ts)

/-- The entries of a sequence in block style, and its end. -/
def readEntries : (fuel : Nat) → List Token → ParsedNodes
  | 0, _ => none
  | _, [] => none
  | fuel + 1, t :: ts =>
    match t with
    | .collectionEnd => some ([], ts)
    | .entry => do
      let (item, rest) ← readUnless fuel [.entry, .collectionEnd] false ts
      let (items, rest) ← readEntries fuel rest
      some (item :: items, rest)
    | _ => none

/-- The entries of a sequence that is indented like the mapping around it. -/
def readContent : (fuel : Nat) → List Token → ParsedNodes
  | 0, _ => none
  | _, [] => none
  | fuel + 1, t :: ts =>
    if t = .entry then do
      let (item, rest) ← readUnless fuel entryEnds false ts
      let (items, rest) ← readContent fuel rest
      some (item :: items, rest)
    else some ([], t :: ts)

/-- The members of a mapping in block style, and its end. -/
def readMembers : (fuel : Nat) → List Token → ParsedPairs
  | 0, _ => none
  | _, [] => none
  | fuel + 1, t :: ts =>
    match t with
    | .collectionEnd => some ([], ts)
    | .key => do
      let (k, rest) ← readUnless fuel memberEnds true ts
      let (v, rest) ← readValue fuel memberEnds true rest
      let (members, rest) ← readMembers fuel rest
      some ((k, v) :: members, rest)
    | .value => do
      let (v, rest) ← readValue fuel memberEnds true (t :: ts)
      let (members, rest) ← readMembers fuel rest
      some ((absent, v) :: members, rest)
    | _ => none

/-- The items of a sequence in flow style, and its end.  An item may be a single pair. -/
def readItems : (fuel : Nat) → (isFirst : Bool) → List Token → ParsedNodes
  | 0, _, _ => none
  | _, _, [] => none
  | fuel + 1, isFirst, t :: ts =>
    if t = .bracketClose then some ([], ts)
    else if !isFirst && t ≠ .comma then none
    else
      let us := if isFirst then t :: ts else ts
      if nextIn [.bracketClose] us then some ([], us.drop 1)
      else do
        let (item, rest) ← readItem fuel us
        let (items, rest) ← readItems fuel false rest
        some (item :: items, rest)

/-- An item of a sequence in flow style. -/
def readItem : (fuel : Nat) → List Token → Parsed
  | 0, _ => none
  | fuel + 1, ts =>
    if nextIn [.key] ts || nextIn [.value] ts then do
      let (pair, rest) ← readPair fuel ts
      some (mapping [pair], rest)
    else read fuel false ts

/-- A key in flow style with its value; either may be left out. -/
def readPair : (fuel : Nat) → List Token → Option ((Source × Source) × List Token)
  | 0, _ => none
  | fuel + 1, ts => do
    let us := if nextIn [.key] ts then ts.drop 1 else ts
    let (k, rest) ← readUnless fuel flowEnds false us
    let (v, rest) ← readValue fuel flowEnds false rest
    some ((k, v), rest)

/-- The members of a mapping in flow style, and its end. -/
def readPairs : (fuel : Nat) → (isFirst : Bool) → List Token → ParsedPairs
  | 0, _, _ => none
  | _, _, [] => none
  | fuel + 1, isFirst, t :: ts =>
    if t = .braceClose then some ([], ts)
    else if !isFirst && t ≠ .comma then none
    else
      let us := if isFirst then t :: ts else ts
      if nextIn [.braceClose] us then some ([], us.drop 1)
      else do
        let (pair, rest) ← if nextIn [.comma] us then none else readPair fuel us
        let (members, rest) ← readPairs fuel false rest
        some (pair :: members, rest)

end

end Source

/-- A document: what its handles stand for, and its node. -/
structure Document where
  handles : List (String × String)
  root : Source

namespace Document

/-- What handles stand for by these directives. -/
def handlesOf (directives : List Directive) : List (String × String) :=
  directives.filterMap fun
    | .handle handle meaning => some (handle, meaning)
    | _ => none

/-- Whether there is at most one version and at most one meaning for each handle. -/
def areUnambiguous (directives : List Directive) : Bool :=
  decide (directives.count .version ≤ 1) && decide ((handlesOf directives).map Prod.fst).Nodup

/-- Directives and the tokens behind them. -/
def directives : List Token → List Directive × List Token
  | .directive d :: ts => (d :: (directives ts).1, (directives ts).2)
  | ts => ([], ts)

/-- Whether a token may come in place of the node of a document that is marked. -/
def endsDocument : Token → Bool
  | .directive _ => true
  | .documentStart => true
  | .documentEnd => true
  | .textEnd => true
  | _ => false

/-- Whether another document starts here, behind the end of one. -/
def startsDocument : List Token → Bool
  | .documentStart :: ts => ts.head?.any fun t ↦ endsDocument t || Source.startsNode t
  | _ => false

/-- The tokens behind the marks of the end of a document. -/
def pastEnds (ts : List Token) : List Token := ts.dropWhile fun t ↦ t == .documentEnd

/-- Whether the tokens behind a node are no other document.  Directives have to come behind the mark
of its end. -/
def isLast (ts : List Token) : Bool :=
  match ts with
  | [] => false
  | .directive _ :: _ => false
  | .documentEnd :: ts =>
    let rest := pastEnds ts
    !(startsDocument (directives rest).2 || rest.head?.any Source.startsNode)
  | ts => !startsDocument ts

/-- Reads the node of a document.  Behind directives it has to be marked. -/
def readRoot? (isMarked : Bool) : List Token → Option (Source × List Token)
  | [] => none
  | ts@(.textEnd :: _) => if isMarked then none else some (.absent, ts)
  | .documentStart :: rest =>
    if rest.head?.any endsDocument then some (.absent, rest)
    else Source.read (5 * rest.length + 5) false rest
  | ts => if isMarked then none else Source.read (5 * ts.length + 5) false ts

/-- Reads the tokens of a text with one document. -/
def read? (ts : List Token) : Option Document := do
  let (found, rest) := directives (pastEnds ts)
  let (root, rest) ← readRoot? (!found.isEmpty) rest
  if areUnambiguous found && isLast rest then some ⟨handlesOf found, root⟩ else none

end Document
end TypeFootprint.Yaml
