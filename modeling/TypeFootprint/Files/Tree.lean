import TypeFootprint.Files.Path

/-!
# File trees

A file tree is a file, a folder with named entries, or a link to a path.  A path is looked up from a
folder of the tree, segment by segment; each segment needs a folder to start from, and two dots lead
back to the folder above, which for the top is the top itself.  A link gives way to its target.

Some of it may be out of reach: the content of a file is the reason why it cannot be read then, and
a folder has `Barriers`.

* `FileTree.read` is the text of the file at a path, or the reason why there is none.
* `FileTree.list` are the entries of the folder at a path, or the reason why there are none.
-/

set_option autoImplicit false

namespace TypeFootprint

/-- Why a file or a folder cannot be read. -/
inductive ReadError where
  | notFound
  | denied
  | notFolder
  | isFolder
  | nameTooLong
  | tooManyLinks
  | nulInName
  | notText
  | other (text : String)
deriving DecidableEq

/-- A reason in words, with the number under which the system knows it. -/
def ReadError.message : ReadError → String
  | notFound => "No such file or directory (os error 2)"
  | denied => "Permission denied (os error 13)"
  | notFolder => "Not a directory (os error 20)"
  | isFolder => "Is a directory (os error 21)"
  | nameTooLong => "File name too long (os error 36)"
  | tooManyLinks => "Too many levels of symbolic links (os error 40)"
  | nulInName => "file name contained an unexpected NUL byte"
  | notText => "stream did not contain valid UTF-8"
  | other text => text

/-- What keeps a folder from being opened, and paths from leading through it. -/
structure Barriers where
  opening : Option ReadError
  passing : Option ReadError
deriving DecidableEq

/-- A folder that is open to everything. -/
def Barriers.none : Barriers := ⟨.none, .none⟩

/-- A file with its bytes, or the reason why it cannot be read; something else that is read like a
file, such as a pipe; a folder with entries; or a link. -/
inductive FileTree where
  | file (content : Except ReadError ByteArray)
  | special (content : Except ReadError ByteArray)
  | folder (entries : List (String × FileTree)) (barriers : Barriers)
  | link (target : String)

namespace FileTree

/-- The tree without files. -/
def empty : FileTree := folder [] .none

/-- The entries of a folder; nothing else has any. -/
def entries : FileTree → List (String × FileTree)
  | folder es _ => es
  | _ => []

/-- What keeps a folder from being used. -/
def barriers : FileTree → Barriers
  | folder _ b => b
  | _ => .none

/-- The entry of this name. -/
def entry? (t : FileTree) (name : String) : Option FileTree :=
  (t.entries.find? fun e ↦ e.1 == name).map Prod.snd

/-- Whether this is a file. -/
def isFile : FileTree → Bool
  | file _ => true
  | _ => false

/-- Whether this is a folder. -/
def isFolder : FileTree → Bool
  | folder _ _ => true
  | _ => false

/-! ## Building a tree -/

/-- Sets the entry of a name; new entries go to the end. -/
def setEntry (name : String) (t : FileTree) : List (String × FileTree) → List (String × FileTree)
  | [] => [(name, t)]
  | (n, u) :: rest => if n = name then (n, t) :: rest else (n, u) :: setEntry name t rest

mutual

/-- Puts a tree in the place of another one.  A folder keeps the entries that the new one does not
have. -/
def merge (old : FileTree) : (new : FileTree) → FileTree
  | folder es b => folder (mergeEntries old.entries es) b
  | new => new

/-- Puts entries to those that are there. -/
def mergeEntries (old : List (String × FileTree)) :
    (new : List (String × FileTree)) → List (String × FileTree)
  | [] => old
  | (name, t) :: rest =>
    let there := (FileTree.entry? (folder old .none) name).getD empty
    mergeEntries (setEntry name (merge there t) old) rest

end

/-- Puts a tree at a place given by names, with the folders above it. -/
def insert (t : FileTree) : (names : List String) → (new : FileTree) → FileTree
  | [], new => merge t new
  | name :: names, new =>
    folder (setEntry name (insert ((t.entry? name).getD empty) names new) t.entries) t.barriers

/-! ## Looking up -/

/-- How many bytes a name may have. -/
def maxNameSize : Nat := 255

/-- How many bytes a path may have. -/
def maxPathSize : Nat := 4095

/-- How many links a path may lead through. -/
def maxLinks : Nat := 40

/-- The tree at a place given by names. -/
def at? (t : FileTree) : List String → Option FileTree
  | [] => some t
  | name :: names => (t.entry? name).bind fun u ↦ u.at? names

/-- Where segments lead from a place, both given by names.  A place is listed from the top.  From a
link on `follow` decides, with the segments of the target in front of those that are left. -/
def walkSegments (t : FileTree)
    (follow : (place segments : List String) → Except ReadError (List String)) :
    (place : List String) → (segments : List String) → Except ReadError (List String)
  | place, [] => .ok place
  | place, segment :: rest =>
    match t.at? place with
    | none => .error .notFound
    | some (folder _ barriers) =>
      if segment = "" then t.walkSegments follow place rest
      else match barriers.passing with
        | some reason => .error reason
        | none =>
          if segment = "." then t.walkSegments follow place rest
          else if segment = ".." then t.walkSegments follow place.dropLast rest
          else if maxNameSize < segment.utf8ByteSize then .error .nameTooLong
          else match t.at? (place ++ [segment]) with
            | none => .error .notFound
            | some (link target) =>
              if target.isEmpty then .error .notFound
              else follow (if FilePath.isAbsolute target then [] else place)
                (FilePath.segments target ++ rest)
            | some _ => t.walkSegments follow (place ++ [segment]) rest
    | some _ => .error .notFolder

/-- Where segments lead from a place through at most so many links. -/
def walkLinks (t : FileTree) : (links : Nat) → (place segments : List String) →
    Except ReadError (List String)
  | 0 => t.walkSegments fun _ _ ↦ .error .tooManyLinks
  | links + 1 => t.walkSegments (t.walkLinks links)

/-- The place that a path leads to from another place. -/
def place? (t : FileTree) (start : List String) (path : String) : Except ReadError (List String) :=
  if path.toList.contains '\x00' then .error .nulInName
  else if path.isEmpty then .error .notFound
  else if maxPathSize < path.utf8ByteSize then .error .nameTooLong
  else t.walkLinks maxLinks (if FilePath.isAbsolute path then [] else start)
    (FilePath.segments path)

/-- The tree that a path leads to. -/
def find (t : FileTree) (start : List String) (path : String) : Except ReadError FileTree := do
  let place ← t.place? start path
  match t.at? place with
  | some u => .ok u
  | none => .error .notFound

/-- Whether a path leads to a file. -/
def isFileAt (t : FileTree) (start : List String) (path : String) : Bool :=
  match t.find start path with
  | .ok u => u.isFile
  | .error _ => false

/-- Whether a path leads to a folder. -/
def isFolderAt (t : FileTree) (start : List String) (path : String) : Bool :=
  match t.find start path with
  | .ok u => u.isFolder
  | .error _ => false

/-- Whether a path leads anywhere. -/
def existsAt (t : FileTree) (start : List String) (path : String) : Bool :=
  match t.find start path with
  | .ok _ => true
  | .error _ => false

/-! ## Reading -/

/-- The text of some bytes. -/
def textOfBytes (bytes : ByteArray) : Except ReadError String :=
  match String.fromUTF8? bytes with
  | some s => .ok s
  | none => .error .notText

/-- The text of a file.  A folder can be opened like a file, but not read. -/
def text : FileTree → Except ReadError String
  | file content => content.bind textOfBytes
  | special content => content.bind textOfBytes
  | folder _ barriers => .error (barriers.opening.getD .isFolder)
  | link _ => .error .notFound

/-- The text of the file that a path leads to. -/
def read (t : FileTree) (start : List String) (path : String) : Except ReadError String := do
  let u ← t.find start path
  u.text

/-- The entries of the folder that a path leads to. -/
def list (t : FileTree) (start : List String) (path : String) :
    Except ReadError (List (String × FileTree)) := do
  match ← t.find start path with
  | folder entries barriers =>
    match barriers.opening with
    | some reason => .error reason
    | none => .ok entries
  | _ => .error .notFolder

end FileTree

/-- The path of a folder that cannot be listed, and the reason. -/
structure ListingError where
  path : String
  reason : ReadError
deriving DecidableEq

end TypeFootprint
