import Mathlib.Data.List.Forall2
import TypeFootprint.CommandLine.ExitCode

/-!
# What loading makes of its files

`FileLoads` and `FileFails` say of one file what it loads as, or with which exit code it fails;
every file does one or the other.  `LocatingFails` says with which exit code the files cannot even
be found: the pattern is none, or a folder cannot be listed.  Once they are found, the first that
fails decides, whatever is wrong with those behind it: `DocumentsFail` says so, and
`loadDocuments_eq_error_iff` and `loadDocuments_eq_ok_iff` say that nothing else happens.

A schema that cannot be loaded has one exit code, for whatever reason.
-/

set_option autoImplicit false

namespace TypeFootprint

/-! ## The first error -/

section FirstError

variable {ε α β : Type} {f : α → Except ε β}

theorem mapM_eq_ok_iff {l : List α} {bs : List β} :
    l.mapM f = .ok bs ↔ List.Forall₂ (fun a b ↦ f a = .ok b) l bs := by
  induction l generalizing bs with
  | nil => cases bs <;> simp [pure, Except.pure]
  | cons a l ih =>
    rw [List.mapM_cons, List.forall₂_cons_left_iff]
    cases ha : f a with
    | error e => simp [bind, Except.bind]
    | ok b =>
      cases hl : l.mapM f with
      | error e => simp [bind, Except.bind, ← ih, hl]
      | ok bs' => simp [bind, Except.bind, pure, Except.pure, ← ih, hl, eq_comm]

theorem mapM_eq_error {before after : List α} {a : α} {e : ε}
    (hbefore : ∀ x ∈ before, ∃ b, f x = .ok b) (ha : f a = .error e) :
    (before ++ a :: after).mapM f = .error e := by
  induction before with
  | nil => simp [ha, bind, Except.bind]
  | cons x before ih =>
    obtain ⟨b, hb⟩ := hbefore x (.head _)
    have htail := ih fun y hy ↦ hbefore y (.tail _ hy)
    rw [List.cons_append, List.mapM_cons, hb, htail]
    rfl

/-- Either a function has a result for all elements of a list, or there is a first one for which it
has none. -/
theorem exists_results_or_firstError (f : α → Except ε β) (l : List α) :
    (∃ bs, List.Forall₂ (fun a b ↦ f a = .ok b) l bs) ∨
      ∃ before a after e, l = before ++ a :: after ∧ (∀ x ∈ before, ∃ b, f x = .ok b) ∧
        f a = .error e := by
  induction l with
  | nil => exact .inl ⟨[], .nil⟩
  | cons a l ih =>
    cases ha : f a with
    | error e => exact .inr ⟨[], a, l, e, rfl, by simp, ha⟩
    | ok b =>
      rcases ih with ⟨bs, hbs⟩ | ⟨before, a', after, e, rfl, hbefore, ha'⟩
      · exact .inl ⟨b :: bs, .cons ha hbs⟩
      · refine .inr ⟨a :: before, a', after, e, rfl, ?_, ha'⟩
        exact List.forall_mem_cons.2 ⟨⟨b, ha⟩, hbefore⟩

/-- A list of results has a first error exactly if it has an error. -/
theorem exists_mapM_id_eq_error_iff {l : List (Except ε α)} :
    (∃ e, l.mapM id = .error e) ↔ ∃ e, .error e ∈ l := by
  induction l with
  | nil => simp [pure, Except.pure]
  | cons r l ih =>
    cases r with
    | error e => simp [bind, Except.bind]
    | ok a => cases hl : l.mapM id <;> simp [bind, Except.bind, pure, Except.pure, ← ih, hl]

end FirstError

variable {tree : FileTree} {start : List String} {path : String}

/-! ## Schemas -/

theorem exitCode_of_schemaText {text : String} {e : LoadError}
    (h : schemaText path text = .error e) : e.exitCode = .schemaError := by
  rw [schemaText] at h
  split at h
  · cases hparse : Introspection.parse text with
    | error fault =>
      rw [hparse] at h
      cases h
      rfl
    | ok result =>
      rw [hparse] at h
      cases h
  · cases h

/-- Whatever is wrong with a schema, the exit code is that for schemas. -/
theorem exitCode_of_loadSchema {e : LoadError} (h : loadSchema tree start path = .error e) :
    e.exitCode = .schemaError := by
  rw [loadSchema] at h
  cases hread : tree.read start path with
  | error reason =>
    rw [hread] at h
    cases h
    rfl
  | ok text =>
    cases htext : schemaText path text with
    | error fault =>
      simp only [hread, htext, Except.mapError, bind, Except.bind, Except.error.injEq] at h
      exact h ▸ exitCode_of_schemaText htext
    | ok sdl =>
      simp only [hread, htext, Except.mapError, bind, Except.bind] at h
      split at h
      · cases h
      · cases h
        rfl

/-! ## Single files -/

/-- The definitions that a file is read as: none if it is blank. -/
inductive FileLoads (tree : FileTree) (start : List String) (path : String) : Document → Prop
  | blank {text : String} (hread : tree.read start path = .ok text)
      (hblank : Text.isBlank text.toList = true) : FileLoads tree start path []
  | definitions {text : String} {document : Document} (hread : tree.read start path = .ok text)
      (hblank : Text.isBlank text.toList = false) (hparse : Document.parse? text = some document) :
      FileLoads tree start path document

/-- The exit code for a file that is no document. -/
inductive FileFails (tree : FileTree) (start : List String) (path : String) : ExitCode → Prop
  | unreadable {reason : ReadError} (hread : tree.read start path = .error reason) :
      FileFails tree start path .ioError
  | malformed {text : String} (hread : tree.read start path = .ok text)
      (hblank : Text.isBlank text.toList = false) (hparse : Document.parse? text = none) :
      FileFails tree start path .parseError

theorem loadFile_of_error {reason : ReadError} (h : tree.read start path = .error reason) :
    loadFile tree start path = .error (.unreadableDocument path reason) := by
  rw [loadFile, h]
  rfl

theorem loadFile_of_ok {text : String} (h : tree.read start path = .ok text) :
    loadFile tree start path =
      if Text.isBlank text.toList then .ok []
      else match Document.parse? text with
        | some document => .ok document
        | none => .error (.invalidDocument path) := by
  rw [loadFile, h]
  rfl

theorem loadFile_eq_ok_iff {document : Document} :
    loadFile tree start path = .ok document ↔ FileLoads tree start path document := by
  constructor
  · intro h
    cases hread : tree.read start path with
    | error reason =>
      rw [loadFile_of_error hread] at h
      cases h
    | ok text =>
      rw [loadFile_of_ok hread] at h
      split at h
      · next hblank =>
        cases h
        exact .blank hread hblank
      · next hblank =>
        split at h
        · next hparse =>
          cases h
          exact .definitions hread (Bool.eq_false_iff.2 hblank) hparse
        · cases h
  · rintro (⟨hread, hblank⟩ | ⟨hread, hblank, hparse⟩)
    · rw [loadFile_of_ok hread, if_pos hblank]
    · rw [loadFile_of_ok hread, if_neg (Bool.eq_false_iff.1 hblank), hparse]

theorem loadFile_eq_error_iff {code : ExitCode} :
    (∃ e, loadFile tree start path = .error e ∧ e.exitCode = code) ↔
      FileFails tree start path code := by
  constructor
  · rintro ⟨e, h, rfl⟩
    cases hread : tree.read start path with
    | error reason =>
      rw [loadFile_of_error hread] at h
      cases h
      exact .unreadable hread
    | ok text =>
      rw [loadFile_of_ok hread] at h
      split at h
      · cases h
      · next hblank =>
        split at h
        · cases h
        · next hparse =>
          cases h
          exact .malformed hread (Bool.eq_false_iff.2 hblank) hparse
  · rintro (⟨hread⟩ | ⟨hread, hblank, hparse⟩)
    · exact ⟨_, loadFile_of_error hread, rfl⟩
    · refine ⟨.invalidDocument path, ?_, rfl⟩
      rw [loadFile_of_ok hread, if_neg (Bool.eq_false_iff.1 hblank), hparse]

/-! ## The files -/

/-- The exit code if the files that documents are read from cannot be found.  The last two rules are
about what leads neither to a folder nor to a file. -/
inductive LocatingFails (tree : FileTree) (start : List String) (pattern : String) : ExitCode → Prop
  | walk {entries : List (String × FileTree)} {barriers : Barriers} {v : String × FileTree}
      {reason : ReadError} (hfind : tree.find start pattern = .ok (.folder entries barriers))
      (hvisit : v ∈ FileTree.visits pattern (.folder entries barriers))
      (hfolder : v.2.isFolder = true) (hlist : tree.list start v.1 = .error reason) :
      LocatingFails tree start pattern .ioError
  | pattern {e : PatternError} (hfolder : tree.isFolderAt start pattern = false)
      (hfile : tree.isFileAt start pattern = false) (h : Glob.compile pattern = .error e) :
      LocatingFails tree start pattern .usageError
  | search {components : List (List PatternToken)} {fault : ListingError}
      (hfolder : tree.isFolderAt start pattern = false)
      (hfile : tree.isFileAt start pattern = false) (h : Glob.compile pattern = .ok components)
      (hfault : .error fault ∈ Glob.search tree start pattern components) :
      LocatingFails tree start pattern .ioError

variable {extensions : List String} {pattern : String}

/-- A walk fails exactly if it comes to a folder that cannot be listed. -/
theorem exists_walk_eq_error_iff {t : FileTree} :
    (∃ fault, tree.walk start path t = .error fault) ↔
      ∃ v ∈ FileTree.visits path t, v.2.isFolder = true ∧
        ∃ reason, tree.list start v.1 = .error reason := by
  have hfault (v : String × FileTree) : tree.fault? start v.1 v.2 ≠ none ↔
      v.2.isFolder = true ∧ ∃ reason, tree.list start v.1 = .error reason := by
    rw [FileTree.fault?]
    cases tree.list start v.1 <;> simp
  simp only [← hfault, FileTree.walk]
  cases hfirst : (FileTree.visits path t).findSome? fun v ↦ tree.fault? start v.1 v.2 with
  | none =>
    rw [List.findSome?_eq_none_iff] at hfirst
    simpa using hfirst
  | some fault =>
    obtain ⟨v, hv, hfault⟩ := List.exists_of_findSome?_eq_some hfirst
    exact ⟨fun _ ↦ ⟨v, hv, by rw [hfault]; nofun⟩, fun _ ↦ ⟨fault, rfl⟩⟩

/-- A search fails exactly if it comes to a folder that cannot be listed. -/
theorem exists_files_eq_error_iff {components : List (List PatternToken)} :
    (∃ fault, Glob.files tree start pattern components = .error fault) ↔
      ∃ fault, .error fault ∈ Glob.search tree start pattern components := by
  rw [← exists_mapM_id_eq_error_iff, Glob.files]
  cases (Glob.search tree start pattern components).mapM id <;> simp [bind, Except.bind]

/-- What leads neither to a folder nor to a file fails as a pattern, or while it is matched. -/
theorem locatingFails_of_matchingFiles (hfolder : tree.isFolderAt start pattern = false)
    (hfile : tree.isFileAt start pattern = false) {e : LoadError}
    (h : matchingFiles tree start pattern = .error e) :
    LocatingFails tree start pattern e.exitCode := by
  rw [matchingFiles] at h
  cases hcompile : Glob.compile pattern with
  | error fault =>
    rw [hcompile] at h
    cases h
    exact .pattern hfolder hfile hcompile
  | ok components =>
    rw [hcompile] at h
    cases hfiles : Glob.files tree start pattern components with
    | error fault =>
      obtain ⟨fault', hmem⟩ := exists_files_eq_error_iff.1 ⟨fault, hfiles⟩
      simp only [hfiles, Except.mapError, bind, Except.bind, Except.error.injEq] at h
      exact h ▸ .search hfolder hfile hcompile hmem
    | ok files => simp [hfiles, Except.mapError, bind, Except.bind] at h

/-- If the files cannot be found, one of the rules says so. -/
theorem locatingFails_of_documentFiles {e : LoadError}
    (h : documentFiles tree start extensions pattern = .error e) :
    LocatingFails tree start pattern e.exitCode := by
  have hneither (hfolder : tree.isFolderAt start pattern = false)
      (hfile : tree.isFileAt start pattern = false) : LocatingFails tree start pattern e.exitCode :=
    locatingFails_of_matchingFiles hfolder hfile (documentFiles_of_neither hfolder hfile ▸ h)
  cases hfind : tree.find start pattern with
  | error reason =>
    exact hneither (by rw [FileTree.isFolderAt, hfind]) (by rw [FileTree.isFileAt, hfind])
  | ok u =>
    cases u with
    | folder entries barriers =>
      rw [documentFiles_of_folder hfind] at h
      cases hwalk : tree.walk start pattern (.folder entries barriers) with
      | error fault =>
        obtain ⟨v, hvisit, hfolder, reason, hlist⟩ := exists_walk_eq_error_iff.1 ⟨fault, hwalk⟩
        rw [hwalk] at h
        cases h
        exact .walk hfind hvisit hfolder hlist
      | ok files =>
        rw [hwalk] at h
        cases h
    | file content =>
      rw [documentFiles_of_file hfind] at h
      cases h
    | special | link =>
      exact hneither (by rw [FileTree.isFolderAt, hfind]; rfl)
        (by rw [FileTree.isFileAt, hfind]; rfl)

/-- **The rules say with which exit code the files cannot be found.** -/
theorem documentFiles_eq_error_iff {code : ExitCode} :
    (∃ e, documentFiles tree start extensions pattern = .error e ∧ e.exitCode = code) ↔
      LocatingFails tree start pattern code := by
  constructor
  · rintro ⟨e, h, rfl⟩
    exact locatingFails_of_documentFiles h
  · rintro (⟨hfind, hvisit, hfolder, hlist⟩ | @⟨error, hfolder, hfile, h⟩ |
      ⟨hfolder, hfile, h, hfault⟩)
    · obtain ⟨fault, hwalk⟩ := exists_walk_eq_error_iff.2 ⟨_, hvisit, hfolder, _, hlist⟩
      refine ⟨.unfinishedWalk fault, ?_, rfl⟩
      rw [documentFiles_of_folder hfind, hwalk]
      rfl
    · refine ⟨.invalidPattern pattern error, ?_, rfl⟩
      rw [documentFiles_of_neither hfolder hfile, matchingFiles, h]
      rfl
    · obtain ⟨fault, hfiles⟩ := exists_files_eq_error_iff.2 ⟨_, hfault⟩
      refine ⟨.unfinishedMatch fault, ?_, rfl⟩
      rw [documentFiles_of_neither hfolder hfile, matchingFiles, h]
      simp [hfiles, Except.mapError, bind, Except.bind]

/-! ## All files -/

/-- The exit code for documents that cannot be loaded: their files cannot be found, or one of them
fails and those before it do not. -/
inductive DocumentsFail (tree : FileTree) (start : List String) (extensions : List String)
    (pattern : String) : ExitCode → Prop
  | locating {code : ExitCode} (h : LocatingFails tree start pattern code) :
      DocumentsFail tree start extensions pattern code
  | file {before after : List String} {path : String} {code : ExitCode}
      (hfiles : documentFiles tree start extensions pattern = .ok (before ++ path :: after))
      (hbefore : ∀ p ∈ before, ∃ document, FileLoads tree start p document)
      (h : FileFails tree start path code) : DocumentsFail tree start extensions pattern code

theorem loadDocuments_of_error {e : LoadError}
    (h : documentFiles tree start extensions pattern = .error e) :
    loadDocuments tree start extensions pattern = .error e := by
  rw [loadDocuments, h]
  rfl

theorem loadDocuments_of_ok {files : List String}
    (h : documentFiles tree start extensions pattern = .ok files) :
    loadDocuments tree start extensions pattern =
      (files.mapM (loadFile tree start)).map List.flatten := by
  rw [loadDocuments, h]
  cases hdocuments : files.mapM (loadFile tree start) <;>
    simp only [bind, Except.bind, Except.map, hdocuments]

/-- What is loaded is what the files hold, one after the other. -/
theorem loadDocuments_eq_ok_iff {document : Document} :
    loadDocuments tree start extensions pattern = .ok document ↔
      ∃ files documents, documentFiles tree start extensions pattern = .ok files ∧
        List.Forall₂ (FileLoads tree start) files documents ∧ documents.flatten = document := by
  have hloads (files : List String) (documents : List Document) :
      List.Forall₂ (FileLoads tree start) files documents ↔
        files.mapM (loadFile tree start) = .ok documents := by
    simp only [mapM_eq_ok_iff, loadFile_eq_ok_iff]
  cases hfiles : documentFiles tree start extensions pattern with
  | error e => simp [loadDocuments_of_error hfiles]
  | ok files =>
    rw [loadDocuments_of_ok hfiles]
    cases hdocuments : files.mapM (loadFile tree start) <;>
      simp [hloads, hdocuments, Except.map]

/-- **The first file that fails decides.** -/
theorem loadDocuments_eq_error_iff {code : ExitCode} :
    (∃ e, loadDocuments tree start extensions pattern = .error e ∧ e.exitCode = code) ↔
      DocumentsFail tree start extensions pattern code := by
  constructor
  · rintro ⟨e, h, rfl⟩
    cases hfiles : documentFiles tree start extensions pattern with
    | error fault =>
      rw [loadDocuments_of_error hfiles] at h
      cases h
      exact .locating (documentFiles_eq_error_iff.1 ⟨_, hfiles, rfl⟩)
    | ok files =>
      rw [loadDocuments_of_ok hfiles] at h
      rcases exists_results_or_firstError (loadFile tree start) files with
        ⟨documents, hdocuments⟩ | ⟨before, path, after, fault, rfl, hbefore, hpath⟩
      · rw [mapM_eq_ok_iff.2 hdocuments] at h
        cases h
      · rw [mapM_eq_error hbefore hpath] at h
        cases h
        simp only [loadFile_eq_ok_iff] at hbefore
        exact .file hfiles hbefore (loadFile_eq_error_iff.1 ⟨_, hpath, rfl⟩)
  · rintro (⟨h⟩ | ⟨hfiles, hbefore, h⟩)
    · obtain ⟨e, hfiles, rfl⟩ := documentFiles_eq_error_iff.2 h
      exact ⟨e, loadDocuments_of_error hfiles, rfl⟩
    · obtain ⟨e, hpath, rfl⟩ := loadFile_eq_error_iff.2 h
      simp only [← loadFile_eq_ok_iff] at hbefore
      refine ⟨e, ?_, rfl⟩
      rw [loadDocuments_of_ok hfiles, mapM_eq_error hbefore hpath]
      rfl

end TypeFootprint
