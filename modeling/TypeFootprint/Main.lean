import TypeFootprint.CommandLine.Program

/-!
# The command line

Copies what the program may look at from the file system into a file tree, lets the program run on
it, and prints what can be seen of the outcome.
-/

set_option autoImplicit false

namespace TypeFootprint
namespace CommandLine

/-- The environment variables that the program asks for. -/
def variableNames : List String := ["NO_COLOR", "CLICOLOR_FORCE", "CLICOLOR"]

/-- A path of the file system has at most 4096 bytes, so no file is in more folders than this. -/
def maxDepth : Nat := 2048

/-- A path that the program may look at: how deep it has to be known, whether links that are met on
the way down are followed, and whether it is read even if it is a pipe or the like. -/
structure Errand where
  path : String
  depth : Nat
  followsLinks : Bool
  readsPipes : Bool

/-- The folder that a pattern is matched in. -/
def patternErrands (pattern : String) : List Errand :=
  match Glob.compile pattern with
  | .error _ => []
  | .ok components =>
    let (path, rest) := Glob.literalStart (Glob.startPath pattern) components
    [⟨path, if rest.contains [.anyFolders] then maxDepth else rest.length, true, false⟩]

/-- The paths that the program may look at. -/
def errands (folder : String) (a : Arguments) : List Errand :=
  let documents := match a.documents with
    | some pattern => ⟨pattern, maxDepth, false, false⟩ :: patternErrands pattern
    | none => []
  let configs := match a.config with
    | some path => [path]
    | none => Config.candidates folder
  documents ++ ((a.schema.toList ++ configs).map fun path ↦ ⟨path, 0, false, true⟩)

/-- The reason for a failure of the system. -/
def reasonOf : IO.Error → ReadError
  | .noFileOrDirectory .. => .notFound
  | .permissionDenied .. => .denied
  | error => .other error.toString

/-- What the system gives, or the reason why it gives nothing. -/
def attempt {α : Type} (action : IO α) : IO (Except ReadError α) := do
  try return .ok (← action) catch error => return .error (reasonOf error)

/-- The reason why there is no result. -/
def reason? {α : Type} : Except ReadError α → Option ReadError
  | .ok _ => none
  | .error reason => some reason

/-- Reads the content of the file that a path leads to. -/
def readContent (path : String) : IO (Except ReadError ByteArray) := do
  let place := (← IO.currentDir) / path
  attempt (IO.FS.readBinFile place)

/-- Reads where the link of this path leads to, and notes that this is to be read, too. -/
def readLink (errand : Errand) (path : String) : StateT (List Errand) IO FileTree := do
  let place := (← IO.currentDir) / path
  match ← attempt (IO.FS.realPath place) with
  | .ok target =>
    if errand.followsLinks then
      modify fun noted ↦ { errand with path := target.toString } :: noted
    return .link target.toString
  | .error reason =>
    return .special (← if errand.readsPipes then readContent path else pure (.error reason))

/-- Reads what has this path.  The entries of a folder are read down to the depth of an errand. -/
def readTree (errand : Errand) : (depth : Nat) → (path : String) →
    StateT (List Errand) IO FileTree
  | depth, path => do
    let place := (← IO.currentDir) / path
    match ← attempt place.symlinkMetadata with
    | .error reason => return .file (.error reason)
    | .ok metadata =>
      match metadata.type with
      | .file => return .file (← readContent path)
      | .symlink => readLink { errand with depth } path
      | .other =>
        return .special (← if errand.readsPipes then readContent path else pure (.error .denied))
      | .dir =>
        let listed ← attempt place.readDir
        let passed ← attempt (place / ".").metadata
        let entries ← match depth, listed with
          | depth + 1, .ok entries => entries.toList.mapM fun e ↦ do
            return (e.fileName, ← readTree errand depth (FilePath.join path e.fileName))
          | _, _ => pure []
        return .folder entries ⟨reason? listed, reason? passed⟩

/-- The names along a path from the top, without links. -/
def namesFromTop (path : String) : IO (List String) := do
  let place ← IO.FS.realPath ((← IO.currentDir) / path)
  return Workplace.start ⟨.empty, place.toString⟩

/-- Puts the link of this path into a tree, if it is one. -/
def copyLink (errand : Errand) (tree : FileTree) (path : String) :
    StateT (List Errand) IO FileTree := do
  let folder := ((FilePath.upward path)[1]?).getD ""
  let place := (← IO.currentDir) / path
  match FilePath.fileName? path, ← attempt (namesFromTop folder), ← attempt place.symlinkMetadata with
  | some name, .ok names, .ok metadata =>
    if metadata.type == .symlink then
      return tree.insert (names ++ [name]) (← readLink { errand with depth := 0 } path)
    else return tree
  | _, _, _ => return tree

/-- Puts what a path leads to into a tree.  What is not there is left out, and so is what is out of
reach: the folder that keeps it so says for what reason. -/
def copyPlace (errand : Errand) (tree : FileTree) (path : String) (depth : Nat) :
    StateT (List Errand) IO FileTree := do
  match ← attempt (namesFromTop path) with
  | .ok names =>
    return tree.insert names (← readTree errand depth ("/" ++ "/".intercalate names))
  | .error _ => return tree

/-- Puts what an errand asks for into a tree, with the folders that its path passes through. -/
def copyErrand (tree : FileTree) (errand : Errand) : StateT (List Errand) IO FileTree := do
  let copyPassed (t : FileTree) (path : String) := do
    copyPlace errand (← copyLink errand t path) path 0
  let passed ← ((FilePath.upward errand.path).drop 1).foldlM copyPassed tree
  copyPlace errand (← copyLink errand passed errand.path) errand.path errand.depth

/-- Puts what errands ask for into a tree, and then what the links that have been met lead to. -/
def copyAll : (rounds : Nat) → (done : List Errand) → FileTree → List Errand → IO FileTree
  | 0, _, tree, _ => return tree
  | rounds + 1, done, tree, errands => do
    let (tree, noted) ← (errands.foldlM copyErrand tree).run []
    let done := errands ++ done
    let fresh := noted.filter fun e ↦ !done.any fun d ↦ d.path == e.path && e.depth ≤ d.depth
    copyAll rounds done tree fresh

/-- Runs the program where it is called. -/
def perform (words : List String) : IO Outcome := do
  let folder := (← IO.currentDir).toString
  let wanted := match Arguments.parse words with
    | .ok a => errands folder a
    | .error _ => []
  let top : FileTree := .empty
  let start := top.insert (← namesFromTop folder) .empty
  let tree ← copyAll FileTree.maxLinks [] start wanted
  let values ← variableNames.mapM fun name ↦ do return (name, ← IO.getEnv name)
  let environment : Environment := fun name ↦
    (values.find? fun v ↦ v.1 == name).bind Prod.snd
  let terminal ← (← IO.getStdout).isTty
  return outcome ⟨tree, folder⟩ environment terminal words

end CommandLine
end TypeFootprint

/-- Runs the program and ends with its exit code. -/
def main (words : List String) : IO UInt32 := do
  let seen ← TypeFootprint.CommandLine.perform words
  IO.print seen.output
  IO.eprint seen.errors
  return UInt32.ofNat seen.exitCode.code
