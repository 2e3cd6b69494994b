import TypeFootprint.Config.File
import TypeFootprint.Proofs.Files.Upward

/-!
# The nearest configuration

A configuration is looked for in a folder and then in those above it, and in each of them under
three names.  The two orders of preference are nested: the nearer folder wins whatever the names
are, and only within one folder the better name does.

`nearest?_wins` says this of every file tree and every path to start from, where the paths above a
path are those that popping its components as text leads to (`FilePath.IsAbove`).  Of these the
nearest one is the longest.
-/

set_option autoImplicit false

namespace TypeFootprint.Config

open FilePath (IsAbove Pops upward)

variable {tree : FileTree} {start : List String} {folder d n found : String}

/-- A file stands in a folder under a name, whether or not it can be read.  Another folder of this
name does not count. -/
def IsFileIn (tree : FileTree) (start : List String) (folder n : String) : Prop :=
  ∃ content, tree.find start (FilePath.join folder n) = .ok (.file content)

/-- A folder has a configuration file, under whichever name. -/
def HasFile (tree : FileTree) (start : List String) (folder : String) : Prop :=
  ∃ n ∈ fileNames, IsFileIn tree start folder n

/-- The best name under which a configuration file stands in a folder. -/
structure IsBestIn (tree : FileTree) (start : List String) (folder n : String) : Prop where
  isFileIn : IsFileIn tree start folder n
  best : ∃ better worse, fileNames = better ++ n :: worse ∧
    ∀ m ∈ better, ¬ IsFileIn tree start folder m

/-- The nearest path at or above a folder that has a configuration file: the longest one. -/
structure IsNearest (tree : FileTree) (start : List String) (folder d : String) : Prop where
  isAbove : IsAbove folder d
  hasFile : HasFile tree start d
  longest : ∀ e, IsAbove folder e → HasFile tree start e → e.length ≤ d.length

/-! ## One folder -/

theorem isFileAt_join_iff :
    tree.isFileAt start (FilePath.join folder n) = true ↔ IsFileIn tree start folder n := by
  rw [FileTree.isFileAt, IsFileIn]
  cases tree.find start (FilePath.join folder n) with
  | error e => simp
  | ok t => cases t <;> simp [FileTree.isFile]

/-- The path of the configuration file in a folder. -/
def fileIn? (tree : FileTree) (start : List String) (folder : String) : Option String :=
  (fileNames.map (FilePath.join folder)).find? (tree.isFileAt start)

theorem fileIn?_eq_some_iff :
    fileIn? tree start d = some found ↔
      ∃ n, IsBestIn tree start d n ∧ found = FilePath.join d n := by
  rw [fileIn?, List.find?_map, Option.map_eq_some_iff]
  constructor
  · rintro ⟨n, hn, rfl⟩
    obtain ⟨hfile, better, worse, hnames, hbetter⟩ := List.find?_eq_some_iff_append.1 hn
    refine ⟨n, ⟨isFileAt_join_iff.1 hfile, better, worse, hnames, fun m hm hfile ↦ ?_⟩, rfl⟩
    have hnot := hbetter m hm
    rw [Function.comp_apply, isFileAt_join_iff.2 hfile] at hnot
    cases hnot
  · rintro ⟨n, ⟨hfile, better, worse, hnames, hbetter⟩, rfl⟩
    refine ⟨n, List.find?_eq_some_iff_append.2 ⟨isFileAt_join_iff.2 hfile, better, worse, hnames,
      fun m hm ↦ ?_⟩, rfl⟩
    rw [Function.comp_apply, Bool.not_eq_true', Bool.eq_false_iff]
    exact mt isFileAt_join_iff.1 (hbetter m hm)

theorem fileIn?_eq_none_iff : fileIn? tree start d = none ↔ ¬ HasFile tree start d := by
  rw [fileIn?, List.find?_eq_none, List.forall_mem_map, HasFile]
  simp only [isFileAt_join_iff, not_exists, not_and]

/-! ## All folders -/

theorem nearest?_eq_findSome? :
    nearest? tree start folder = (upward folder).findSome? (fileIn? tree start) := by
  rw [nearest?, candidates, List.find?_flatMap]
  rfl

/-- Of the folders from below, the first one that has a configuration file is the nearest. -/
theorem isNearest_iff :
    IsNearest tree start folder d ↔
      HasFile tree start d ∧ ∃ below above, upward folder = below ++ d :: above ∧
        ∀ e ∈ below, ¬ HasFile tree start e := by
  constructor
  · rintro ⟨habove, hfile, hlongest⟩
    obtain ⟨below, above, hsplit⟩ := List.append_of_mem (FilePath.mem_upward_iff.2 habove)
    refine ⟨hfile, below, above, hsplit, fun e he hefile ↦ ?_⟩
    have hpairwise := FilePath.pairwise_upward folder
    rw [hsplit, List.pairwise_append] at hpairwise
    have hlt := hpairwise.2.2 e he d (.head _)
    have hmem : e ∈ upward folder := hsplit ▸ List.mem_append_left _ he
    exact absurd (hlongest e (FilePath.mem_upward_iff.1 hmem) hefile) (not_le_of_gt hlt)
  · rintro ⟨hfile, below, above, hsplit, hbelow⟩
    have hmem : d ∈ upward folder := hsplit ▸ List.mem_append_right _ (.head _)
    refine ⟨FilePath.mem_upward_iff.1 hmem, hfile, fun e he hefile ↦ ?_⟩
    have hpairwise := FilePath.pairwise_upward folder
    rw [hsplit, List.pairwise_append, List.pairwise_cons] at hpairwise
    have hmem := FilePath.mem_upward_iff.2 he
    rw [hsplit, List.mem_append, List.mem_cons] at hmem
    rcases hmem with hmem | rfl | hmem
    · exact absurd hefile (hbelow e hmem)
    · exact le_rfl
    · exact (hpairwise.2.1.1 e hmem).le

/-- **The nearest configuration wins.**  The configuration that is found stands in the longest of
the paths from the folder upwards that have a configuration file, under the best name that stands
there; and none is found exactly if none of these paths has one.  There are only finitely many of
them, because popping makes a path shorter, and from a relative path they go down to the empty
one. -/
theorem nearest?_wins (tree : FileTree) (start : List String) (folder : String) :
    (∀ found, nearest? tree start folder = some found ↔
      ∃ d n, IsNearest tree start folder d ∧ IsBestIn tree start d n ∧
        found = FilePath.join d n) ∧
    (nearest? tree start folder = none ↔ ∀ d, IsAbove folder d → ¬ HasFile tree start d) ∧
    (WellFounded fun q p ↦ Pops p q) ∧
    (FilePath.isAbsolute folder = false → IsAbove folder "") := by
  refine ⟨fun found ↦ ?_, ?_, FilePath.wellFounded_pops, FilePath.isAbove_empty⟩
  · rw [nearest?_eq_findSome?, List.findSome?_eq_some_iff]
    constructor
    · rintro ⟨below, d, above, hsplit, hd, hbelow⟩
      obtain ⟨n, hbest, rfl⟩ := fileIn?_eq_some_iff.1 hd
      obtain ⟨better, worse, hnames, -⟩ := hbest.best
      have hn : n ∈ fileNames := hnames ▸ List.mem_append_right _ (.head _)
      exact ⟨d, n, isNearest_iff.2 ⟨⟨n, hn, hbest.isFileIn⟩, below, above, hsplit,
        fun e he ↦ fileIn?_eq_none_iff.1 (hbelow e he)⟩, hbest, rfl⟩
    · rintro ⟨d, n, hnearest, hbest, rfl⟩
      obtain ⟨-, below, above, hsplit, hbelow⟩ := isNearest_iff.1 hnearest
      exact ⟨below, d, above, hsplit, fileIn?_eq_some_iff.2 ⟨n, hbest, rfl⟩,
        fun e he ↦ fileIn?_eq_none_iff.2 (hbelow e he)⟩
  · rw [nearest?_eq_findSome?, List.findSome?_eq_none_iff]
    simp only [fileIn?_eq_none_iff, FilePath.mem_upward_iff]

/-- A tree in which the top folder has the best name, and the folder `a` only the last one: a folder
of the best name does not count. -/
def worseNameNearer : FileTree :=
  .folder [("a", .folder [("b", .empty), (".graphql-types.yml", .empty),
    (".graphql-types.json", .file (.ok "{}".toUTF8))] .none),
    (".graphql-types.yml", .file (.ok "{}".toUTF8))] .none

theorem nearest?_wins_worseNameNearer :
    (∃ d n, IsNearest worseNameNearer [] "a/b/.." d ∧ IsBestIn worseNameNearer [] d n ∧
      "a/b/../.graphql-types.json" = FilePath.join d n) ∧ IsAbove "a/b/.." "" :=
  have h := nearest?_wins worseNameNearer [] "a/b/.."
  ⟨(h.1 _).1 (by decide +kernel), h.2.2.2 (by decide +kernel)⟩

end TypeFootprint.Config
