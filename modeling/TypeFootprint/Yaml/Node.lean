import TypeFootprint.Yaml.Binary
import TypeFootprint.Yaml.Source

/-!
# The nodes of YAML

A node is a scalar, a sequence or a mapping.  Aliases have been replaced by the nodes that they
name, and tags have told what scalars are: a text, null, or neither.

`Node.parse?` reads a text with one document, or none.
-/

set_option autoImplicit false

namespace TypeFootprint.Yaml

/-- A node.  A plain scalar may be null or a number, a text is a text whatever it looks like, and
`typed` is a scalar that its tag forbids to be a text. -/
inductive Node where
  | plain (text : String)
  | text (text : String)
  | typed
  | sequence (items : List Node)
  | mapping (members : List (Node × Node))

namespace Node

/-- The node of what is left out. -/
def absent : Node := plain ""

/-- Whether the text of a plain scalar means null, in any case. -/
def isNullText (text : String) : Bool := ["", "~", "null"].contains text.toLower

/-- Whether a node is null. -/
def isNull : Node → Bool
  | plain s => isNullText s
  | _ => false

/-- The text of a scalar. -/
def text? : Node → Option String
  | plain s => some s
  | text s => some s
  | _ => none

/-! ## Tags -/

/-- What the handle of the tags of YAML itself stands for. -/
def coreHandle : String := "tag:yaml.org,2002:"

/-- A tag in full.  A handle between two exclamation marks has to be known. -/
def fullTag? (handles : List (String × String)) (t : Tag) : Option String :=
  match (handles.find? fun h ↦ h.1 == t.handle).map Prod.snd with
  | some meaning => some (meaning ++ t.suffix)
  | none =>
    if t.handle = "!!" then some (coreHandle ++ t.suffix)
    else if t.handle = "!" || t.handle = "" then some (t.handle ++ t.suffix)
    else none

/-- The tags of scalars that are no texts. -/
def typedTags : List String := ["bool", "int", "float", "seq", "map"].map (coreHandle ++ ·)

/-- What a tag makes of a scalar with this text. -/
def retype (tag : String) (s : String) (untagged : Node) : Node :=
  if tag = "!" || tag = coreHandle ++ "str" then text s
  else if tag = coreHandle ++ "null" then absent
  else if tag = coreHandle ++ "binary" then ((Binary.text? s).map text).getD typed
  else if typedTags.contains tag then typed
  else untagged

/-- A node with a tag.  Those of collections say nothing. -/
def withTag (tag : String) : Node → Node
  | plain s => retype tag s (plain s)
  | text s => retype tag s (text s)
  | n => n

/-! ## Names -/

/-- The anchors so far, the first one first.  There is no node yet while it is being read. -/
abbrev Anchors := List (String × Option Node)

/-- The node of a name: that of the last anchor with this name, which has to be complete. -/
def named? (anchors : Anchors) (name : String) : Option Node :=
  (anchors.reverse.find? fun a ↦ a.1 == name).bind Prod.snd

section Resolving

variable (handles : List (String × String))

/-- The node with the tag that it may have. -/
def tagged? : Option Tag → Node → Option Node
  | none, n => some n
  | some t, n => (fullTag? handles t).map fun tag ↦ withTag tag n

mutual

/-- The node that is written, and the anchors behind it. -/
def resolve (anchors : Anchors) : Source → Option (Node × Anchors)
  | .plain s => some (plain s, anchors)
  | .text s => some (text s, anchors)
  | .sequence items => (resolveAll anchors items).map fun (ns, a) ↦ (sequence ns, a)
  | .mapping members => (resolvePairs anchors members).map fun (ms, a) ↦ (mapping ms, a)
  | .aliasTo name => (named? anchors name).map fun n ↦ (n, anchors)
  | .withProperties p s => do
    let opened := anchors ++ p.anchor.toList.map fun name ↦ (name, none)
    let (n, inner) ← resolve opened s
    let n ← tagged? handles p.tag n
    some (n, match p.anchor with
      | some name => inner.set anchors.length (name, some n)
      | none => inner)

/-- The nodes that are written one after the other. -/
def resolveAll (anchors : Anchors) : List Source → Option (List Node × Anchors)
  | [] => some ([], anchors)
  | s :: rest => do
    let (n, anchors) ← resolve anchors s
    let (ns, anchors) ← resolveAll anchors rest
    some (n :: ns, anchors)

/-- The keys and values that are written. -/
def resolvePairs (anchors : Anchors) :
    List (Source × Source) → Option (List (Node × Node) × Anchors)
  | [] => some ([], anchors)
  | (k, v) :: rest => do
    let (key, anchors) ← resolve anchors k
    let (value, anchors) ← resolve anchors v
    let (members, anchors) ← resolvePairs anchors rest
    some ((key, value) :: members, anchors)

end

end Resolving

/-- Reads a text with one document. -/
def parse? (text : String) : Option Node := do
  let document ← Document.read? (scan text.toList)
  let (node, _) ← resolve document.handles [] document.root
  some node

end Node
end TypeFootprint.Yaml
