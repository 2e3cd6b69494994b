import TypeFootprint.Json.Fault
import TypeFootprint.Json.Writer
import TypeFootprint.Text.Blank

/-!
# Configurations

A configuration may replace the policy and may list the extensions of document files.  It is valid
if none of its entries is empty: an empty entry could never match anything.

* `Config.validate` finds the first empty entry.
* `Config.documentExtensions` are the extensions without their leading dots, or the usual ones.
* `Config.json` writes a configuration with every key, in a fixed order.
-/

set_option autoImplicit false

namespace TypeFootprint

/-- The names to remove from every result, and the names to add to it. -/
structure PolicyConfig where
  denylist : List String
  forcedInclude : List String
deriving DecidableEq

/-- Which files of a directory are documents. -/
structure DocumentsConfig where
  extensions : Option (List String)
deriving DecidableEq

/-- A configuration.  Every part of it may be absent. -/
structure Config where
  policy : Option PolicyConfig
  documents : Option DocumentsConfig
deriving DecidableEq

/-- What may be wrong with the text of a configuration. -/
inductive ConfigFault where
  | json (fault : JsonFault)
  | yaml
  | emptyTypeName
  | noExtensions
  | emptyExtension
deriving DecidableEq

/-- A fault in words.  The details of a malformed text are left out. -/
def ConfigFault.message : ConfigFault → String
  | json (.shape fault) => "JSON parse error: " ++ fault.message
  | json _ => "JSON parse error"
  | yaml => "YAML parse error"
  | emptyTypeName => "policy contains an empty type name"
  | noExtensions => "documents.extensions is empty"
  | emptyExtension => "documents.extensions contains an empty extension"

namespace Config

/-- The configuration without any part. -/
def empty : Config := ⟨none, none⟩

/-- The extensions that document files have unless others are listed. -/
def defaultExtensions : List String := ["graphql", "gql"]

/-- A text without the dots at its start. -/
def dropDots (cs : List Char) : List Char := cs.dropWhile fun c ↦ c == '.'

/-- The extensions that are listed, if any are. -/
def extensions? (c : Config) : Option (List String) := c.documents.bind DocumentsConfig.extensions

/-- The extensions of document files, without leading dots. -/
def documentExtensions (c : Config) : List String :=
  match c.extensions? with
  | none => defaultExtensions
  | some listed => listed.map fun e ↦ String.ofList (dropDots e.toList)

/-- The names that the policy mentions. -/
def policyNames (c : Config) : List String :=
  match c.policy with
  | none => []
  | some p => p.denylist ++ p.forcedInclude

/-- The first empty entry, if there is one. -/
def fault? (c : Config) : Option ConfigFault :=
  if c.policyNames.any fun n ↦ Text.isBlank n.toList then some .emptyTypeName
  else match c.extensions? with
    | none => none
    | some [] => some .noExtensions
    | some listed =>
      if listed.any fun e ↦ Text.isBlank (dropDots e.toList) then some .emptyExtension else none

/-- The configuration, if it has no empty entry. -/
def validate (c : Config) : Except ConfigFault Config :=
  match c.fault? with
  | some fault => .error fault
  | none => .ok c

/-- A list of texts as a JSON value. -/
def jsonList (texts : List String) : Json := .array (texts.map Json.string)

/-- A part that may be absent as a JSON value. -/
def jsonOption {α : Type} (f : α → Json) : Option α → Json
  | none => .null
  | some a => f a

/-- A policy as a JSON value. -/
def policyJson (p : PolicyConfig) : Json :=
  .object [("denylist", jsonList p.denylist), ("forcedInclude", jsonList p.forcedInclude)]

/-- The choice of documents as a JSON value. -/
def documentsJson (d : DocumentsConfig) : Json :=
  .object [("extensions", jsonOption jsonList d.extensions)]

/-- A configuration as a JSON value. -/
def json (c : Config) : Json :=
  .object [("policy", jsonOption policyJson c.policy),
    ("documents", jsonOption documentsJson c.documents)]

/-- A configuration as the text of a JSON value. -/
def serialize (c : Config) : String := c.json.compact

end Config
end TypeFootprint
