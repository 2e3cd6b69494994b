import TypeFootprint.Config.Json
import TypeFootprint.Config.Yaml
import TypeFootprint.Files.Tree

/-!
# Configuration files

A configuration is written in YAML or in JSON; the extension of its file tells which.  A YAML file
that is blank is the configuration without any part.

* `Config.parse` reads the text of a configuration file, `Config.load` the file itself.
* `Config.nearest?` finds a configuration file in a folder, or in the nearest folder above it.
-/

set_option autoImplicit false

namespace TypeFootprint

/-- Why there is no configuration. -/
inductive ConfigError where
  | unreadable (reason : ReadError)
  | invalid (path : String) (fault : ConfigFault)
  | unsupported (path : String)
deriving DecidableEq

/-- The reason in words. -/
def ConfigError.message : ConfigError → String
  | unreadable reason => "Failed to read config file: " ++ reason.message
  | invalid path fault => "Invalid config in " ++ path ++ ": " ++ fault.message
  | unsupported path => "Unsupported config format: " ++ path

namespace Config

/-- The formats of configuration files. -/
inductive Format where
  | yaml
  | json
deriving DecidableEq

/-- The format that the extension of a path stands for.  Case matters. -/
def Format.ofPath? (path : String) : Option Format :=
  match FilePath.extension? path with
  | some "yml" => some .yaml
  | some "yaml" => some .yaml
  | some "json" => some .json
  | _ => none

/-- Reads a text in a format. -/
def Format.read (text : String) : Format → Except ConfigFault Config
  | yaml =>
    if Text.isBlank text.toList then .ok .empty
    else match parseYaml? text with
      | some c => .ok c
      | none => .error .yaml
  | json => (parseJson text).mapError .json

/-- Reads the text of the configuration file of this path. -/
def parse (text path : String) : Except ConfigError Config :=
  match Format.ofPath? path with
  | none => .error (.unsupported path)
  | some format => (do validate (← format.read text)).mapError (.invalid path)

/-- Reads the configuration file that a path leads to. -/
def load (tree : FileTree) (start : List String) (path : String) : Except ConfigError Config := do
  let text ← (tree.read start path).mapError .unreadable
  parse text path

/-- The names under which a configuration is looked for, the best one first. -/
def fileNames : List String :=
  [".graphql-types.yml", ".graphql-types.yaml", ".graphql-types.json"]

/-- The paths at which a configuration is looked for: all names in one folder before the folder
above it. -/
def candidates (folder : String) : List String :=
  (FilePath.upward folder).flatMap fun path ↦ fileNames.map (FilePath.join path)

/-- The path of the configuration file that is nearest to a folder. -/
def nearest? (tree : FileTree) (start : List String) (folder : String) : Option String :=
  (candidates folder).find? (tree.isFileAt start)

end Config
end TypeFootprint
