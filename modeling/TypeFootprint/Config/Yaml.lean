import TypeFootprint.Config
import TypeFootprint.Yaml.Node

/-!
# Configurations in YAML

A mapping with the keys of a configuration, each at most once and none besides.  What is null is
absent or empty; every other node has to have the shape of its place.

A mapping may also take members from others: those behind the key `<<`, which is a mapping or a
sequence of mappings.  Its own members come first, and of the others the earlier ones.
-/

set_option autoImplicit false

namespace TypeFootprint
namespace Config

/-- A text: a scalar that is not null. -/
def textOf? (node : Yaml.Node) : Option String := if node.isNull then none else node.text?

/-- Whether a key stands for members of other mappings. -/
def isMergeKey : Yaml.Node → Bool
  | .plain s => s == "<<"
  | _ => false

mutual

/-- The members that a mapping takes from a node, by their keys. -/
def mergedOf? : Yaml.Node → Option (List (String × Yaml.Node))
  | .mapping members => do
    let (own, merged) ← splitMembers? members
    some (own ++ merged)
  | .sequence items => mergedOfAll? items
  | node => if node.isNull then some [] else none

/-- The members that a mapping takes from several nodes. -/
def mergedOfAll? : List Yaml.Node → Option (List (String × Yaml.Node))
  | [] => some []
  | node :: rest => do
    let members ← mergedOf? node
    let others ← mergedOfAll? rest
    some (members ++ others)

/-- The members of a mapping by their keys: its own, and those that it takes from others. -/
def splitMembers? : List (Yaml.Node × Yaml.Node) →
    Option (List (String × Yaml.Node) × List (String × Yaml.Node))
  | [] => some ([], [])
  | (key, value) :: rest => do
    let (own, merged) ← splitMembers? rest
    if isMergeKey key then some (own, (← mergedOf? value) ++ merged)
    else some ((← textOf? key, value) :: own, merged)

end

/-- The members of a mapping by their keys: all keys known, none twice among its own.  Null has no
members. -/
def membersOf? (known : List String) : Yaml.Node → Option (List (String × Yaml.Node))
  | .mapping members => do
    let (own, merged) ← splitMembers? members
    let keyed := own ++ merged
    if (keyed.map Prod.fst).all known.contains && decide (own.map Prod.fst).Nodup then some keyed
    else none
  | node => if node.isNull then some [] else none

/-- The value of a key. -/
def valueOf? (members : List (String × Yaml.Node)) (key : String) : Option Yaml.Node :=
  (members.find? fun m ↦ m.1 == key).map Prod.snd

/-- A list of texts; null is the empty list. -/
def textsOf? : Yaml.Node → Option (List String)
  | .sequence items => items.mapM textOf?
  | node => if node.isNull then some [] else none

/-- Reads a value that may be absent or null. -/
def optionalOf? {α : Type} (read : Yaml.Node → Option α) : Option Yaml.Node → Option (Option α)
  | none => some none
  | some node => if node.isNull then some none else (read node).map some

/-- Reads a list that may be absent. -/
def listOf? : Option Yaml.Node → Option (List String)
  | none => some []
  | some node => textsOf? node

/-- Reads a policy. -/
def policyOf? (node : Yaml.Node) : Option PolicyConfig := do
  let members ← membersOf? ["denylist", "forcedInclude"] node
  let denylist ← listOf? (valueOf? members "denylist")
  let forced ← listOf? (valueOf? members "forcedInclude")
  some ⟨denylist, forced⟩

/-- Reads a choice of documents. -/
def documentsOf? (node : Yaml.Node) : Option DocumentsConfig := do
  let members ← membersOf? ["extensions"] node
  let extensions ← optionalOf? textsOf? (valueOf? members "extensions")
  some ⟨extensions⟩

/-- Reads a configuration. -/
def configOf? (node : Yaml.Node) : Option Config := do
  let members ← membersOf? ["policy", "documents"] node
  let policy ← optionalOf? policyOf? (valueOf? members "policy")
  let documents ← optionalOf? documentsOf? (valueOf? members "documents")
  some ⟨policy, documents⟩

/-- Reads a YAML text as a configuration. -/
def parseYaml? (text : String) : Option Config := do
  let node ← Yaml.Node.parse? text
  configOf? node

end Config
end TypeFootprint
