import TypeFootprint.CommandLine.Color
import TypeFootprint.CommandLine.ExitCode
import TypeFootprint.Footprint.Report
import TypeFootprint.Footprint.Resolve

/-!
# The program

The program reads its arguments, a configuration, a schema and documents, in this order, and prints
the names of the types that the documents need.  The first of these steps that fails decides how it
ends, and then it prints no names.

* `run` is the result: the names, or the failure.
* `outcome` is what can be seen of it: the exit code and the two outputs.
-/

set_option autoImplicit false

namespace TypeFootprint

/-- Where the program runs: a file tree, and the path of a folder of it. -/
structure Workplace where
  tree : FileTree
  folder : String

/-- The names along the path of the folder that the program runs in. -/
def Workplace.start (w : Workplace) : List String :=
  (FilePath.components w.folder).filterMap fun
    | .name n => some n
    | _ => none

/-- The policy: that of the configuration, or else the standard one unless it is not wanted, and on
top of it the names that the command line denies and includes. -/
def buildPolicy (a : Arguments) (c : Config) : Policy :=
  let base := match c.policy with
    | some p => ⟨.ofList p.denylist, .ofList p.forcedInclude⟩
    | none => if a.noDefaultPolicy then .empty else .standard
  a.includes.foldl Policy.force (a.deny.foldl Policy.deny base)

/-- The paths of the schema and of the documents, both of which have to be given. -/
def positionals (a : Arguments) : Except Failure (String × String) :=
  match a.schema, a.documents with
  | some schema, some documents => .ok (schema, documents)
  | none, _ => .error .missingSchema
  | some _, none => .error .missingDocuments

/-- The configuration: the one that is asked for, or else the nearest one; without any, the
configuration that has no part. -/
def loadConfig (w : Workplace) (explicit : Option String) : Except ConfigError Config :=
  match explicit with
  | some path => Config.load w.tree w.start path
  | none =>
    match Config.nearest? w.tree [] w.folder with
    | some path => Config.load w.tree [] path
    | none => .ok .empty

/-- The names to print for some arguments. -/
def resolveNames (w : Workplace) (a : Arguments) : Except Failure (List String) := do
  let (schemaPath, pattern) ← positionals a
  let config ← (loadConfig w a.config).mapError .config
  let schema ← (loadSchema w.tree w.start schemaPath).mapError .load
  let document ← (loadDocuments w.tree w.start config.documentExtensions pattern).mapError .load
  let names := (resolveTypeNames schema document (buildPolicy a config)).toList
  return if a.sorted then sortNames names else names

/-- The names to print for a command line. -/
def run (w : Workplace) (words : List String) : Except Failure (List String) := do
  let arguments ← (Arguments.parse words).mapError .arguments
  resolveNames w arguments

/-! ## What can be seen -/

/-- The exit code and the two outputs of the program. -/
structure Outcome where
  exitCode : ExitCode
  output : String
  errors : String
deriving DecidableEq

/-- How the program is called, and its version. -/
def versionLine : String := "graphql-types 0.1.0\n"

/-- How the program is used. -/
def usage : String := "Usage: graphql-types [OPTIONS] [SCHEMA] [DOCUMENTS]\n"

/-- Whether messages are coloured, where the command line could be read or not. -/
def isColored (environment : Environment) (terminal : Bool) (words : List String) : Bool :=
  match Arguments.parse words with
  | .ok a => (colorOverride a.color a.noColor environment).getD terminal
  | .error _ => terminal

/-- What can be seen of a result. -/
def Outcome.ofResult (colored : Bool) : Except Failure (List String) → Outcome
  | .ok names => ⟨.success, report names ++ "\n", ""⟩
  | .error (.arguments .help) => ⟨.success, usage, ""⟩
  | .error (.arguments .version) => ⟨.success, versionLine, ""⟩
  | .error failure =>
    ⟨failure.exitCode, "", errorLabel colored ++ " " ++ failure.message ++ "\n"⟩

/-- What can be seen when the program runs.  `terminal` says whether its messages go to a
terminal. -/
def outcome (w : Workplace) (environment : Environment) (terminal : Bool) (words : List String) :
    Outcome :=
  Outcome.ofResult (isColored environment terminal words) (run w words)

end TypeFootprint
