import TypeFootprint.Files.Tree

/-!
# Walks

A walk goes through everything at and below a folder: the folder comes first, and its entries in the
order of their names.  It does not follow the links that it meets.

A walk lists each folder by its path when it comes to it.  The first folder that cannot be listed
ends the walk, and then nothing is found.

* `FileTree.visits` are the paths that a walk comes to, with what is there.
* `FileTree.walk` are the files that a walk finds.
-/

set_option autoImplicit false

namespace TypeFootprint
namespace FileTree

/-- Groups in the order of their names, one after the other. -/
def inNameOrder {α : Type} (groups : List (String × List α)) : List α :=
  (groups.mergeSort fun a b ↦ decide (a.1 ≤ b.1)).flatMap Prod.snd

mutual

/-- The paths of everything at and below a tree that has this path itself, with the trees there. -/
def visits (path : String) : FileTree → List (String × FileTree)
  | folder entries barriers =>
    (path, folder entries barriers) :: inNameOrder (visitsByEntry path entries)
  | t => [(path, t)]

/-- What is at and below each entry of a folder. -/
def visitsByEntry (path : String) :
    List (String × FileTree) → List (String × List (String × FileTree))
  | [] => []
  | (name, t) :: rest => (name, visits (FilePath.join path name) t) :: visitsByEntry path rest

end

/-- The paths of the files at and below a tree that has this path. -/
def filesFrom (path : String) (t : FileTree) : List String :=
  ((visits path t).filter fun v ↦ v.2.isFile).map Prod.fst

variable (t : FileTree) (start : List String)

/-- Why the folder of this path cannot be listed, if this is a folder. -/
def fault? (path : String) (u : FileTree) : Option ListingError :=
  if u.isFolder then
    match t.list start path with
    | .ok _ => none
    | .error reason => some ⟨path, reason⟩
  else none

/-- The paths of the files at and below a folder that has this path. -/
def walk (path : String) (folder : FileTree) : Except ListingError (List String) :=
  match (visits path folder).findSome? fun v ↦ t.fault? start v.1 v.2 with
  | some fault => .error fault
  | none => .ok (filesFrom path folder)

end FileTree
end TypeFootprint
