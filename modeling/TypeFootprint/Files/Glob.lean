import TypeFootprint.Files.Pattern
import TypeFootprint.Files.Tree

/-!
# The paths that match a pattern

A pattern is matched component by component.  A component without wildcards is put behind the path
as it is, and has to lead somewhere; another one is compared with the names in the folder.  Two
stars go down through any number of folders, and end at folders only.  Links are followed.

Names are compared as they are, so a star matches a name that starts with a dot, and a pattern that
starts with a dot also matches the folder itself and the folder above it.

A folder whose names have to be compared is listed, and it may turn out that this is not possible.
A search comes to paths and to such faults, and the first fault decides.  Without any, the files
that are found come in the order of their paths.

* `Glob.search` is what a search comes to.
* `Glob.files` are the files that it finds.
-/

set_option autoImplicit false

namespace TypeFootprint
namespace Glob

/-- The components of a pattern that lead on from where it starts. -/
def componentTexts (pattern : List Char) : List (List Char) :=
  let relative := pattern.dropWhile fun c ↦ c == '/'
  let parts := FilePath.splitSlash relative
  if parts.getLast? = some [] then parts.dropLast else parts

/-- Reads the components of a pattern; the pattern as a whole has to be good as well. -/
def compile (pattern : String) : Except PatternError (List (List PatternToken)) := do
  let _ ← Pattern.compile pattern.toList
  (componentTexts pattern.toList).mapM Pattern.compile

/-- Whether a path is the place where relative patterns start. -/
def isStart (path : String) : Bool := FilePath.components path = [.here]

/-- A component behind a path; the place where relative patterns start is left out. -/
def follow (path next : String) : String := if isStart path then next else FilePath.join path next

/-- The names of the folder itself and of the folder above it. -/
def dotNames : List String := [".", ".."]

/-- Whether a pattern may match the folder itself or the folder above it. -/
def startsWithDot (tokens : List PatternToken) : Bool := tokens.head? = some (.char '.')

/-- Where a pattern starts. -/
def startPath (pattern : String) : String := if FilePath.isAbsolute pattern then "/" else "."

/-- The path that components lead to from a path as long as they have no wildcards, and the
components that are left. -/
def literalStart (path : String) : List (List PatternToken) →
    String × List (List PatternToken)
  | [] => (path, [])
  | tokens :: rest =>
    match Pattern.literal? tokens with
    | some text => literalStart (follow path (String.ofList text)) rest
    | none => (path, tokens :: rest)

variable (tree : FileTree) (start : List String)

/-- A path that a pattern has led to, and whether a folder is there. -/
structure Spot where
  path : String
  isFolder : Bool

/-- The spot that a path leads to. -/
def spotAt (path : String) : Spot := ⟨path, tree.isFolderAt start path⟩

/-- The spot of an entry of a folder.  Only a link has to be looked up. -/
def spotOf (path : String) : FileTree → Spot
  | .link _ => spotAt tree start path
  | u => ⟨path, u.isFolder⟩

/-- What a search comes to: a folder that cannot be listed, or a spot with its name. -/
abbrev Step := Except ListingError (String × Spot)

/-- Goes on from each step but the faults. -/
def goOn {α : Type} (steps : List Step) (f : String × Spot → List (Except ListingError α)) :
    List (Except ListingError α) :=
  steps.flatMap fun
    | .error fault => [.error fault]
    | .ok next => f next

/-- The entries of a folder, in the order of their names. -/
def children (spot : Spot) : Except ListingError (List (String × Spot)) :=
  match tree.list start spot.path with
  | .error reason => .error ⟨spot.path, reason⟩
  | .ok entries =>
    .ok ((entries.mergeSort fun d e ↦ decide (d.1 ≤ e.1)).map fun (name, u) ↦
      (name, spotOf tree start (follow spot.path name) u))

/-- What a component without wildcards leads to. -/
def literalSteps (text : String) (spot : Spot) : List Step :=
  let next := follow spot.path text
  let leads := if dotNames.contains text then spot.isFolder else tree.existsAt start next
  if leads then [.ok (text, spotAt tree start next)] else []

/-- What a component with wildcards leads to.  The folder above comes before the folder itself, and
both before the entries. -/
def wildcardSteps (tokens : List PatternToken) (spot : Spot) : List Step :=
  if spot.isFolder then
    match children tree start spot with
    | .error fault => [.error fault]
    | .ok entries =>
      let dots := if startsWithDot tokens then
        dotNames.reverse.map fun d ↦ (d, spotAt tree start (FilePath.join spot.path d)) else []
      ((dots ++ entries).filter fun next ↦ Pattern.isMatch tokens next.1.toList).map .ok
  else []

/-- Everything below a spot, down through so many folders.  An entry comes before what is below
it. -/
def below : (depth : Nat) → Spot → List Step
  | 0, _ => []
  | depth + 1, spot =>
    if spot.isFolder then
      match children tree start spot with
      | .error fault => [.error fault]
      | .ok entries => entries.flatMap fun next ↦ .ok next :: below depth next.2
    else []

/-- What two stars lead to.  The path of a folder that is further down is too long, so that the
search has come to a fault. -/
def deepSteps (spot : Spot) : List Step := below tree start FileTree.maxPathSize spot

/-- What components lead to from a spot.  `deep` says that two stars stand before them. -/
def expand : (deep : Bool) → List (List PatternToken) → Spot → List (Except ListingError String)
  | false, [], spot => [.ok spot.path]
  | true, [], spot =>
    goOn (deepSteps tree start spot) fun next ↦
      if next.2.isFolder then [.ok next.2.path] else []
  | deep, tokens :: rest, spot =>
    if tokens = [.anyFolders] then expand true rest spot
    else if deep then
      goOn (deepSteps tree start spot) fun next ↦
        if Pattern.isMatch tokens next.1.toList then expand false rest next.2 else []
    else
      let steps := match Pattern.literal? tokens with
        | some text => literalSteps tree start (String.ofList text) spot
        | none => wildcardSteps tree start tokens spot
      goOn steps fun next ↦ expand false rest next.2

/-- What a search for a pattern with these components comes to. -/
def search (pattern : String) (components : List (List PatternToken)) :
    List (Except ListingError String) :=
  if components.isEmpty then []
  else expand tree start false components (spotAt tree start (startPath pattern))

/-- Whether a pattern ends in a slash, and so matches folders only. -/
def wantsFolder (pattern : String) : Bool := pattern.toList.getLast? == some '/'

/-- The files that match a pattern with these components, in the order of their paths. -/
def files (pattern : String) (components : List (List PatternToken)) :
    Except ListingError (List String) := do
  let paths ← (search tree start pattern components).mapM id
  let found := paths.filter fun p ↦ tree.isFileAt start p && !wantsFolder pattern
  .ok (found.mergeSort FilePath.le)

end Glob
end TypeFootprint
