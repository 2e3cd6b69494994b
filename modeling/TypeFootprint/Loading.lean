import TypeFootprint.Files.Glob
import TypeFootprint.Files.Walk
import TypeFootprint.Grammar.Document
import TypeFootprint.Introspection.Decode
import TypeFootprint.Introspection.Sdl
import TypeFootprint.Schema.Build
import TypeFootprint.Text.Blank

/-!
# Loading schemas and documents

A schema file is written in the schema definition language, or is an introspection result if its
extension is `json` in any case.

Documents are given by one text.  It is the path of a folder, which stands for the files below it
that have one of the extensions for documents; or the path of a file, whatever its extension; or
else a pattern.  If one of the folders that have to be listed for this cannot be listed, nothing is
loaded.  The files are read one after the other, and the first that cannot be read or parsed decides;
blank files are passed over.

* `loadSchema` and `loadDocuments` are the two entry points.
* `documentFiles` are the files that documents are read from, in this order.
-/

set_option autoImplicit false

namespace TypeFootprint

/-- Why a schema or the documents could not be loaded. -/
inductive LoadError where
  | unreadableSchema (path : String) (reason : ReadError)
  | invalidIntrospection (path : String) (error : Introspection.DecodeError)
  | invalidSchema (path : String)
  | invalidPattern (pattern : String) (error : PatternError)
  | unfinishedMatch (fault : ListingError)
  | unfinishedWalk (fault : ListingError)
  | unreadableDocument (path : String) (reason : ReadError)
  | invalidDocument (path : String)

/-- The reason in words.  Where a text does not follow its grammar, this is the headline. -/
def LoadError.message : LoadError → String
  | unreadableSchema path reason => "Failed to read schema " ++ path ++ ": " ++ reason.message
  | invalidIntrospection path error =>
    "Invalid introspection result in " ++ path ++ ": " ++ error.message
  | invalidSchema path => "Invalid schema " ++ path ++ ":"
  | invalidPattern pattern error =>
    "Invalid document pattern '" ++ pattern ++ "': " ++ error.message
  | unfinishedMatch fault =>
    "Failed to match documents: attempting to read `" ++ fault.path ++
      "` resulted in an error: " ++ fault.reason.message
  | unfinishedWalk fault =>
    "Failed to walk document directory: IO error for operation on " ++ fault.path ++ ": " ++
      fault.reason.message
  | unreadableDocument path reason => "Failed to read " ++ path ++ ": " ++ reason.message
  | invalidDocument path => "Failed to parse " ++ path ++ ":"

/-- Whether a file is an introspection result. -/
def isIntrospection (path : String) : Bool :=
  (FilePath.extension? path).any fun e ↦ e.toLower == "json"

/-- The schema definition that a schema file holds or stands for. -/
def schemaText (path text : String) : Except LoadError String :=
  if isIntrospection path then
    ((Introspection.parse text).map Introspection.Result.sdl).mapError (.invalidIntrospection path)
  else .ok text

variable (tree : FileTree) (start : List String)

/-- Loads the schema from the file that a path leads to. -/
def loadSchema (path : String) : Except LoadError Schema := do
  let text ← (tree.read start path).mapError (.unreadableSchema path)
  match Schema.parse? (← schemaText path text) with
  | some schema => .ok schema
  | none => .error (.invalidSchema path)

/-- Whether the extension of a path is one of these. -/
def hasExtension (extensions : List String) (path : String) : Bool :=
  (FilePath.extension? path).any extensions.contains

/-- The files that match a pattern. -/
def matchingFiles (pattern : String) : Except LoadError (List String) := do
  let components ← (Glob.compile pattern).mapError (.invalidPattern pattern)
  (Glob.files tree start pattern components).mapError .unfinishedMatch

/-- The files that documents are read from, in order. -/
def documentFiles (extensions : List String) (pattern : String) :
    Except LoadError (List String) :=
  match tree.find start pattern with
  | .ok (.folder entries barriers) =>
    ((tree.walk start pattern (.folder entries barriers)).map
      (List.filter (hasExtension extensions))).mapError .unfinishedWalk
  | .ok (.file _) => .ok [pattern]
  | _ => matchingFiles tree start pattern

section

variable {tree start} {extensions : List String} {pattern : String}

theorem documentFiles_of_folder {entries : List (String × FileTree)} {barriers : Barriers}
    (h : tree.find start pattern = .ok (.folder entries barriers)) :
    documentFiles tree start extensions pattern =
      ((tree.walk start pattern (.folder entries barriers)).map
        (List.filter (hasExtension extensions))).mapError .unfinishedWalk := by
  rw [documentFiles, h]

theorem documentFiles_of_file {content : Except ReadError ByteArray}
    (h : tree.find start pattern = .ok (.file content)) :
    documentFiles tree start extensions pattern = .ok [pattern] := by
  rw [documentFiles, h]

theorem documentFiles_of_neither (hfolder : tree.isFolderAt start pattern = false)
    (hfile : tree.isFileAt start pattern = false) :
    documentFiles tree start extensions pattern = matchingFiles tree start pattern := by
  rw [documentFiles]
  split
  · next h => simp [FileTree.isFolderAt, h, FileTree.isFolder] at hfolder
  · next h => simp [FileTree.isFileAt, h, FileTree.isFile] at hfile
  · rfl

end

/-- The definitions of the file that a path leads to. -/
def loadFile (path : String) : Except LoadError Document := do
  let text ← (tree.read start path).mapError (.unreadableDocument path)
  if Text.isBlank text.toList then .ok []
  else match Document.parse? text with
    | some document => .ok document
    | none => .error (.invalidDocument path)

/-- The definitions of all files that documents are read from, in the order of the files. -/
def loadDocuments (extensions : List String) (pattern : String) : Except LoadError Document := do
  let files ← documentFiles tree start extensions pattern
  let documents ← files.mapM (loadFile tree start)
  .ok documents.flatten

end TypeFootprint
