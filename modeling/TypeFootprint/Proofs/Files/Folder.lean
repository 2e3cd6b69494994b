import TypeFootprint.Loading
import TypeFootprint.Proofs.Files.Lookup

/-!
# The files of a folder

The files below a folder are found by going down, with the entries of each folder in the order of
their names.  They could as well be listed in whatever order and sorted by their paths then, which
is how the files that match a pattern are put in order.  The two come to the same
(`documentFiles_folder`), although a folder gives way to its files where a path is compared with
all other paths: names behind a common path are compared before what stands behind them, so also
where one name is the beginning of another or sorts between files.

`FileTree.IsNamed` is what file systems promise about the names in a tree, and
`Visits t path visited` says that `visited` is everything at and below `t`, in the order of paths,
if `t` has this path.  `CanWalk` says that none of the folders there is out of reach.  Folders
without barriers are not, as long as their names and paths are short enough (`canWalk_of_open`).
-/

set_option autoImplicit false

namespace TypeFootprint

namespace FileTree

open FilePath (IsEntryName sortKey join)

/-- The entries of every folder of a tree have names that are fit for entries, no two the same. -/
inductive IsNamed : FileTree → Prop
  | file (content : Except ReadError ByteArray) : IsNamed (.file content)
  | special (content : Except ReadError ByteArray) : IsNamed (.special content)
  | link (target : String) : IsNamed (.link target)
  | folder {entries : List (String × FileTree)} {barriers : Barriers}
      (distinct : (entries.map Prod.fst).Nodup) (names : ∀ e ∈ entries, IsEntryName e.1)
      (below : ∀ e ∈ entries, IsNamed e.2) : IsNamed (.folder entries barriers)

/-- Everything at and below a tree that has this path, each path once, in the order of paths. -/
structure Visits (t : FileTree) (path : String) (visited : List (String × FileTree)) : Prop where
  mem_iff : ∀ p u, (p, u) ∈ visited ↔ ∃ names, t.at? names = some u ∧ p = names.foldl join path
  increasing : visited.Pairwise fun v w ↦ sortKey v.1 < sortKey w.1

/-- Each folder at or below a part of a tree can be listed, if this part has this path. -/
def CanWalk (tree : FileTree) (start : List String) (path : String) (t : FileTree) : Prop :=
  ∀ names entries barriers, t.at? names = some (.folder entries barriers) →
    ∃ listed, tree.list start (names.foldl join path) = .ok listed

theorem visitsByEntry_eq (path : String) (entries : List (String × FileTree)) :
    visitsByEntry path entries = entries.map fun e ↦ (e.1, visits (join path e.1) e.2) := by
  induction entries with
  | nil => rfl
  | cons e entries ih => rw [visitsByEntry, ih, List.map_cons]

theorem entry_folder_eq_some_iff {entries : List (String × FileTree)} {barriers : Barriers}
    (h : (entries.map Prod.fst).Nodup) {name : String} {t : FileTree} :
    FileTree.entry? (folder entries barriers) name = some t ↔ (name, t) ∈ entries :=
  find?_map_eq_some_iff h

/-- All names on the way to an entry are names of entries. -/
theorem IsNamed.isEntryName_of_at? {t u : FileTree} (h : t.IsNamed) {names : List String}
    (hat : t.at? names = some u) : ∀ n ∈ names, IsEntryName n := by
  induction names generalizing t with
  | nil => simp
  | cons name names ih =>
    obtain ⟨v, hv, hrest⟩ := Option.bind_eq_some_iff.1 hat
    cases h with
    | file | special | link => cases hv
    | folder distinct hnames hbelow =>
      have hmem := (entry_folder_eq_some_iff distinct).1 hv
      exact List.forall_mem_cons.2 ⟨hnames _ hmem, ih (hbelow _ hmem) hrest⟩

theorem sortKey_foldl_join {path name : String} {names : List String} (hname : IsEntryName name)
    (hnames : ∀ n ∈ names, IsEntryName n) :
    sortKey (names.foldl join (join path name)) =
      sortKey path ++ FilePath.Component.sortKey (.name name) ::
        names.map fun n ↦ FilePath.Component.sortKey (.name n) := by
  rw [sortKey, FilePath.components_foldl_join _ hnames, FilePath.components_join _ hname]
  simp [sortKey]

/-- Paths of different entries are in the order of the names of these entries. -/
theorem sortKey_lt_of_lt {path m n : String} {ms ns : List String} (hlt : m < n)
    (hm : IsEntryName m) (hn : IsEntryName n) (hms : ∀ n ∈ ms, IsEntryName n)
    (hns : ∀ n ∈ ns, IsEntryName n) :
    sortKey (ms.foldl join (join path m)) < sortKey (ns.foldl join (join path n)) := by
  rw [sortKey_foldl_join hm hms, sortKey_foldl_join hn hns]
  exact List.append_left_lt (List.cons_lt_cons_iff.2 (.inl (FilePath.Component.lt_iff.1
    (decide_eq_true hlt))))

/-- A path comes before the paths below it. -/
theorem sortKey_lt_foldl_join {path name : String} {names : List String} (hname : IsEntryName name)
    (hnames : ∀ n ∈ names, IsEntryName n) :
    sortKey path < sortKey (names.foldl join (join path name)) := by
  rw [sortKey_foldl_join hname hnames]
  conv_lhs => rw [← List.append_nil (sortKey path)]
  exact List.append_left_lt (List.nil_lt_cons _ _)

theorem mem_visits_folder {path : String} {entries : List (String × FileTree)}
    {barriers : Barriers} {v : String × FileTree} :
    v ∈ visits path (folder entries barriers) ↔
      v = (path, folder entries barriers) ∨ ∃ e ∈ entries, v ∈ visits (join path e.1) e.2 := by
  rw [visits, List.mem_cons, visitsByEntry_eq, inNameOrder, List.mem_flatMap]
  simp only [(List.mergeSort_perm _ _).mem_iff, List.mem_map, exists_exists_and_eq_and]

/-- Paths in a list that goes up in the order of paths are known by their places in this order. -/
theorem eq_of_sortKey_eq {files : List String}
    (h : files.Pairwise fun p q ↦ sortKey p < sortKey q) {p q : String} (hp : p ∈ files)
    (hq : q ∈ files) (heq : sortKey p = sortKey q) : p = q :=
  List.inj_on_of_nodup_map (List.pairwise_map.2 (h.imp ne_of_lt)) hp hq heq

/-- With distinct names, groups in the order of their names are in order altogether, if each group is
and if names decide between groups. -/
theorem pairwise_inNameOrder {α : Type} {groups : List (String × List α)} {R : α → α → Prop}
    (distinct : (groups.map Prod.fst).Nodup) (hwithin : ∀ g ∈ groups, g.2.Pairwise R)
    (hbetween : ∀ g ∈ groups, ∀ g' ∈ groups, g.1 < g'.1 → ∀ p ∈ g.2, ∀ q ∈ g'.2, R p q) :
    (inNameOrder groups).Pairwise R := by
  have hperm : (groups.mergeSort fun a b ↦ decide (a.1 ≤ b.1)).Perm groups :=
    List.mergeSort_perm _ _
  have hle : (groups.mergeSort fun a b ↦ decide (a.1 ≤ b.1)).Pairwise
      fun a b ↦ decide (a.1 ≤ b.1) = true :=
    List.pairwise_mergeSort
      (fun a b c hab hbc ↦ decide_eq_true ((of_decide_eq_true hab).trans (of_decide_eq_true hbc)))
      (fun a b ↦ by simpa using le_total a.1 b.1) groups
  have hne : (groups.mergeSort fun a b ↦ decide (a.1 ≤ b.1)).Pairwise fun a b ↦ a.1 ≠ b.1 :=
    List.pairwise_map.1 ((hperm.map Prod.fst).nodup_iff.2 distinct)
  refine List.pairwise_flatMap.2 ⟨fun g hg ↦ hwithin g (hperm.mem_iff.1 hg), ?_⟩
  refine (hle.and hne).imp_of_mem fun {g g'} hg hg' ⟨hle, hne⟩ ↦ ?_
  exact hbetween g (hperm.mem_iff.1 hg) g' (hperm.mem_iff.1 hg')
    ((of_decide_eq_true hle).lt_of_ne hne)

/-- There is nothing below what has no entries. -/
theorem visits_leaf {t : FileTree} (path : String) (hentries : t.entries = []) :
    Visits t path [(path, t)] := by
  refine ⟨fun p u ↦ List.mem_singleton.trans ⟨?_, ?_⟩, List.pairwise_singleton _ _⟩
  · intro h
    obtain ⟨rfl, rfl⟩ := Prod.mk.inj h
    exact ⟨[], rfl, rfl⟩
  · rintro ⟨_ | ⟨name, names⟩, hat, rfl⟩
    · cases hat
      rfl
    · rw [at?, entry?, hentries] at hat
      cases hat

/-- If a walk comes to everything in the entries of a folder, it comes to everything in it. -/
theorem visits_folder {path : String} {entries : List (String × FileTree)} {barriers : Barriers}
    (h : (folder entries barriers).IsNamed)
    (hvisits : ∀ e ∈ entries, Visits e.2 (join path e.1) (visits (join path e.1) e.2)) :
    Visits (folder entries barriers) path (visits path (folder entries barriers)) := by
  obtain - | - | - | ⟨distinct, hnames, hbelow⟩ := h
  refine ⟨fun p u ↦ mem_visits_folder.trans ⟨?_, ?_⟩, ?_⟩
  · rintro (heq | ⟨⟨name, t⟩, he, hv⟩)
    · obtain ⟨rfl, rfl⟩ := Prod.mk.inj heq
      exact ⟨[], rfl, rfl⟩
    · obtain ⟨names, hat, rfl⟩ := ((hvisits _ he).mem_iff p u).1 hv
      refine ⟨name :: names, ?_, rfl⟩
      rw [at?, (entry_folder_eq_some_iff distinct).2 he, Option.bind_some, hat]
  · rintro ⟨_ | ⟨name, names⟩, hat, rfl⟩
    · cases hat
      exact .inl rfl
    · obtain ⟨t, ht, hrest⟩ := Option.bind_eq_some_iff.1 hat
      have he := (entry_folder_eq_some_iff distinct).1 ht
      exact .inr ⟨_, he, ((hvisits _ he).mem_iff _ _).2 ⟨names, hrest, rfl⟩⟩
  · rw [visits, visitsByEntry_eq, List.pairwise_cons]
    constructor
    · intro v hv
      simp only [inNameOrder, List.mem_flatMap, (List.mergeSort_perm _ _).mem_iff, List.mem_map,
        exists_exists_and_eq_and] at hv
      obtain ⟨e, he, hv⟩ := hv
      obtain ⟨names, hat, hpath⟩ := ((hvisits e he).mem_iff _ _).1 hv
      rw [hpath]
      exact sortKey_lt_foldl_join (hnames e he) ((hbelow e he).isEntryName_of_at? hat)
    refine pairwise_inNameOrder ?_ ?_ ?_
    · rwa [List.map_map]
    · intro g hg
      obtain ⟨e, he, rfl⟩ := List.mem_map.1 hg
      exact (hvisits e he).increasing
    · intro g hg g' hg' hlt v hv w hw
      obtain ⟨e, he, rfl⟩ := List.mem_map.1 hg
      obtain ⟨e', he', rfl⟩ := List.mem_map.1 hg'
      obtain ⟨names, hat, hpath⟩ := ((hvisits e he).mem_iff _ _).1 hv
      obtain ⟨names', hat', hpath'⟩ := ((hvisits e' he').mem_iff _ _).1 hw
      rw [hpath, hpath']
      exact sortKey_lt_of_lt hlt (hnames e he) (hnames e' he')
        ((hbelow e he).isEntryName_of_at? hat) ((hbelow e' he').isEntryName_of_at? hat')

/-- **A walk comes to everything, in the order of paths.** -/
theorem IsNamed.visits {t : FileTree} (h : t.IsNamed) (path : String) :
    Visits t path (visits path t) := by
  induction h generalizing path with
  | file | special | link => exact visits_leaf path rfl
  | folder distinct hnames hbelow ih =>
    exact visits_folder (.folder distinct hnames hbelow) fun e he ↦ ih e he _

section Walk

variable {tree t : FileTree} {start : List String} {path : String}

theorem fault?_eq_none_iff {u : FileTree} :
    tree.fault? start path u = none ↔
      ∀ entries barriers, u = .folder entries barriers →
        ∃ listed, tree.list start path = .ok listed := by
  cases u with
  | file | special | link => simp [fault?, isFolder]
  | folder entries barriers => cases h : tree.list start path <;> simp [fault?, isFolder, h]

/-- A walk comes to no fault exactly if every folder can be listed. -/
theorem canWalk_iff (h : t.IsNamed) :
    CanWalk tree start path t ↔
      ((visits path t).findSome? fun v ↦ tree.fault? start v.1 v.2) = none := by
  simp only [List.findSome?_eq_none_iff, Prod.forall, (h.visits path).mem_iff, fault?_eq_none_iff,
    CanWalk]
  constructor
  · rintro hlist p u ⟨names, hat, rfl⟩ entries barriers rfl
    exact hlist names entries barriers hat
  · exact fun hlist names entries barriers hat ↦ hlist _ _ ⟨names, hat, rfl⟩ _ _ rfl

/-- A folder can be walked if it can be listed and each entry can be walked. -/
theorem canWalk_folder {entries : List (String × FileTree)} {barriers : Barriers}
    (hlist : ∃ listed, tree.list start path = .ok listed)
    (hentries : ∀ e ∈ entries, CanWalk tree start (join path e.1) e.2) :
    CanWalk tree start path (.folder entries barriers) := by
  rintro (_ | ⟨name, names⟩) es b hat
  · exact hlist
  · obtain ⟨u, hu, hrest⟩ := Option.bind_eq_some_iff.1 hat
    obtain ⟨e, he, rfl⟩ := Option.map_eq_some_iff.1 hu
    obtain rfl : e.1 = name := by simpa using List.find?_some he
    exact hentries e (List.mem_of_find?_eq_some he) names es b hrest

theorem canWalk_file (content : Except ReadError ByteArray) :
    CanWalk tree start path (.file content) := by
  rintro (_ | ⟨name, names⟩) es b hat <;> cases hat

/-- Names lead to folders from folders only. -/
theorem exists_folder_of_at? {names : List String} {entries : List (String × FileTree)}
    {barriers : Barriers} (h : t.at? names = some (.folder entries barriers)) :
    ∃ es b, t = .folder es b := by
  cases t with
  | folder es b => exact ⟨es, b, rfl⟩
  | file | special | link => cases names <;> cases h

/-- **Open folders can be walked.**  A walk from a folder that is found gets everywhere if none of
the folders has barriers, and if the names and the paths of the folders are not too long. -/
theorem canWalk_of_open (hfind : tree.find start path = .ok t) (hnamed : t.IsNamed)
    (hopen : ∀ names entries barriers, t.at? names = some (.folder entries barriers) →
      barriers = .none ∧ (∀ n ∈ names, IsShortName n) ∧
        (names.foldl join path).utf8ByteSize ≤ maxPathSize) :
    CanWalk tree start path t := by
  intro names
  induction names generalizing t path with
  | nil =>
    intro entries barriers hat
    obtain rfl := Option.some.inj hat
    obtain ⟨rfl, -, -⟩ := hopen [] entries barriers rfl
    exact ⟨entries, by rw [list, List.foldl_nil, hfind]; rfl⟩
  | cons name names ih =>
    intro entries barriers hat
    obtain ⟨es, b, rfl⟩ := exists_folder_of_at? hat
    obtain ⟨u, hu, hrest⟩ := Option.bind_eq_some_iff.1 hat
    obtain ⟨es', b', rfl⟩ := exists_folder_of_at? hrest
    obtain - | - | - | ⟨distinct, hnames, hbelow⟩ := hnamed
    have hmem := (entry_folder_eq_some_iff distinct).1 hu
    have hchild : (folder es b).at? [name] = some (.folder es' b') := by
      rw [at?, hu]
      rfl
    obtain ⟨rfl, -, -⟩ := hopen [] es b rfl
    obtain ⟨-, hshort, hsize⟩ := hopen [name] es' b' hchild
    have hfind' : tree.find start (join path name) = .ok (.folder es' b') :=
      find_join hfind rfl (hnames _ hmem) (hshort name (.head _)) hsize hu (by simp)
    refine ih hfind' (hbelow _ hmem) (fun ns entries barriers hat ↦ ?_) entries barriers hrest
    have hdeeper : (folder es .none).at? (name :: ns) = some (.folder entries barriers) := by
      rw [at?, hu]
      exact hat
    obtain ⟨hbarriers, hns, hsize⟩ := hopen (name :: ns) entries barriers hdeeper
    exact ⟨hbarriers, fun n hn ↦ hns n (.tail _ hn), hsize⟩

theorem walk_of_canWalk (h : t.IsNamed) (hwalk : CanWalk tree start path t) :
    tree.walk start path t = .ok (filesFrom path t) := by
  rw [walk, (canWalk_iff h).1 hwalk]

theorem walk_of_not_canWalk (h : t.IsNamed) (hwalk : ¬ CanWalk tree start path t) :
    ∃ fault, tree.walk start path t = .error fault := by
  obtain ⟨fault, hfault⟩ := Option.ne_none_iff_exists'.1 (mt (canWalk_iff h).2 hwalk)
  exact ⟨fault, by rw [walk, hfault]⟩

theorem mem_filesFrom_iff (h : t.IsNamed) {p : String} :
    p ∈ filesFrom path t ↔
      ∃ names content, t.at? names = some (.file content) ∧ p = names.foldl join path := by
  constructor
  · intro hp
    obtain ⟨⟨_, u⟩, hv, rfl⟩ := List.mem_map.1 hp
    obtain ⟨hvisit, hfile⟩ := List.mem_filter.1 hv
    obtain ⟨names, hat, hpath⟩ := ((h.visits path).mem_iff _ u).1 hvisit
    cases u with
    | file content => exact ⟨names, content, hat, hpath⟩
    | special | folder | link => cases hfile
  · rintro ⟨names, content, hat, hpath⟩
    have hvisit := ((h.visits path).mem_iff p _).2 ⟨names, hat, hpath⟩
    exact List.mem_map.2 ⟨_, List.mem_filter.2 ⟨hvisit, rfl⟩, rfl⟩

theorem pairwise_filesFrom (h : t.IsNamed) :
    (filesFrom path t).Pairwise fun p q ↦ sortKey p < sortKey q :=
  List.pairwise_map.2 ((h.visits path).increasing.filter _)

end Walk

/-- Sorting the files of a tree by their paths gives their list. -/
theorem mergeSort_eq_of_perm {found files : List String}
    (h : files.Pairwise fun p q ↦ sortKey p < sortKey q) (hperm : found.Perm files) :
    found.mergeSort FilePath.le = files := by
  have htrans (p q r : String) (hpq : FilePath.le p q = true) (hqr : FilePath.le q r = true) :
      FilePath.le p r = true :=
    FilePath.le_iff.2 ((FilePath.le_iff.1 hpq).trans (FilePath.le_iff.1 hqr))
  have htotal (p q : String) : (FilePath.le p q || FilePath.le q p) = true := by
    rw [Bool.or_eq_true, FilePath.le_iff, FilePath.le_iff]
    exact le_total _ _
  have hsorted := List.pairwise_mergeSort htrans htotal found
  have hfiles : files.Pairwise fun p q ↦ FilePath.le p q = true :=
    h.imp fun hlt ↦ FilePath.le_iff.2 hlt.le
  have hall : (found.mergeSort FilePath.le).Perm files := (List.mergeSort_perm _ _).trans hperm
  refine hall.eq_of_pairwise (fun p q hp hq hpq hqp ↦ ?_) hsorted hfiles
  exact eq_of_sortKey_eq h (hall.mem_iff.1 hp) hq
    ((FilePath.le_iff.1 hpq).antisymm (FilePath.le_iff.1 hqp))

end FileTree

theorem hasExtension_iff {extensions : List String} {path : String} :
    hasExtension extensions path = true ↔
      ∃ e ∈ extensions, FilePath.extension? path = some e := by
  simp [hasExtension, Option.any_eq_true, and_comm]

/-- **A folder stands for the files below it, in the order of their paths.**  The files are those
at any depth that have one of the extensions, each once, whether or not they can be read.  They are
what sorting by paths makes of them, in whatever order they are found.  They are found if every
folder on the way can be listed, as open folders can (`canWalk_of_open`); otherwise nothing is. -/
theorem documentFiles_folder {tree : FileTree} {start : List String} (extensions : List String)
    {path : String} {entries : List (String × FileTree)} {barriers : Barriers}
    (hfind : tree.find start path = .ok (.folder entries barriers))
    (hnamed : (FileTree.folder entries barriers).IsNamed) :
    ∃ files,
      (FileTree.CanWalk tree start path (.folder entries barriers) →
        documentFiles tree start extensions path = .ok files) ∧
      (¬ FileTree.CanWalk tree start path (.folder entries barriers) →
        ∃ fault, documentFiles tree start extensions path = .error (.unfinishedWalk fault)) ∧
      (∀ p, p ∈ files ↔
        (∃ names content, (FileTree.folder entries barriers).at? names = some (.file content) ∧
          p = names.foldl FilePath.join path) ∧
        ∃ e ∈ extensions, FilePath.extension? p = some e) ∧
      files.Nodup ∧
      (files.Pairwise fun p q ↦ FilePath.sortKey p < FilePath.sortKey q) ∧
      ∀ found : List String, found.Perm files → found.mergeSort FilePath.le = files := by
  have hincreasing : ((FileTree.filesFrom path (.folder entries barriers)).filter
      (hasExtension extensions)).Pairwise _ :=
    (FileTree.pairwise_filesFrom hnamed).filter _
  refine ⟨_, fun hwalk ↦ ?_, fun hwalk ↦ ?_, fun p ↦ ?_, ?_, hincreasing, ?_⟩
  · rw [documentFiles_of_folder hfind, FileTree.walk_of_canWalk hnamed hwalk]
    rfl
  · obtain ⟨fault, hfault⟩ := FileTree.walk_of_not_canWalk hnamed hwalk
    exact ⟨fault, by rw [documentFiles_of_folder hfind, hfault]; rfl⟩
  · rw [List.mem_filter, hasExtension_iff]
    exact and_congr_left' (FileTree.mem_filesFrom_iff hnamed)
  · refine hincreasing.imp fun {p q} hlt heq ↦ ?_
    exact lt_irrefl _ (heq ▸ hlt)
  · exact fun found hperm ↦ FileTree.mergeSort_eq_of_perm hincreasing hperm

/-- A folder whose name is the beginning of a file's name: its file comes first, although a slash
comes after a dot.  It makes no difference that the other file cannot be read. -/
theorem documentFiles_folder_before_file :
    let entries : List (String × FileTree) :=
      [("a.graphql", .file (.error .denied)),
        ("a", .folder [("z.txt", .file (.ok ⟨#[]⟩)), ("z.graphql", .file (.ok ⟨#[]⟩))] .none)]
    let tree : FileTree := .folder [("docs", .folder entries .none)] .none
    tree.find [] "docs" = .ok (.folder entries .none) ∧
      (FileTree.folder entries .none).IsNamed ∧
      ∃ files, documentFiles tree [] ["graphql"] "docs" = .ok files ∧
        "docs/a.graphql" ∈ files ∧ "docs/a/z.graphql" ∈ files ∧ "docs/a/z.txt" ∉ files ∧
        files.Pairwise (FilePath.sortKey · < FilePath.sortKey ·) ∧
        FilePath.sortKey "docs/a/z.graphql" < FilePath.sortKey "docs/a.graphql" := by
  intro entries tree
  have hfind : tree.find [] "docs" = .ok (.folder entries .none) := by
    rfl
  have hinner : (FileTree.folder [("z.txt", .file (.ok ⟨#[]⟩)), ("z.graphql", .file (.ok ⟨#[]⟩))]
      .none).IsNamed :=
    .folder (by decide) (by decide)
      (List.forall_mem_cons.2 ⟨.file _, List.forall_mem_singleton.2 (.file _)⟩)
  have hnamed : (FileTree.folder entries .none).IsNamed :=
    .folder (by decide) (by decide)
      (List.forall_mem_cons.2 ⟨.file _, List.forall_mem_singleton.2 hinner⟩)
  obtain ⟨files, hfiles, -, hmem, -, hincreasing, -⟩ :=
    documentFiles_folder ["graphql"] hfind hnamed
  have hwalk : tree.CanWalk [] "docs" (.folder entries .none) :=
    FileTree.canWalk_folder ⟨_, rfl⟩ (List.forall_mem_cons.2 ⟨FileTree.canWalk_file _,
      List.forall_mem_singleton.2 (FileTree.canWalk_folder ⟨_, rfl⟩
        (List.forall_mem_cons.2 ⟨FileTree.canWalk_file _,
          List.forall_mem_singleton.2 (FileTree.canWalk_file _)⟩))⟩)
  refine ⟨hfind, hnamed, files, hfiles hwalk, ?_, ?_, ?_, hincreasing, by decide +kernel⟩
  · exact (hmem _).2 ⟨⟨["a.graphql"], _, rfl, by decide +kernel⟩, "graphql", .head _,
      by decide +kernel⟩
  · exact (hmem _).2 ⟨⟨["a", "z.graphql"], _, rfl, by decide +kernel⟩, "graphql", .head _,
      by decide +kernel⟩
  · intro h
    obtain ⟨-, e, he, hext⟩ := (hmem _).1 h
    obtain rfl := List.mem_singleton.1 he
    exact absurd hext (by decide +kernel)

end TypeFootprint
