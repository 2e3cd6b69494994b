import TypeFootprint.Files.Tree
import TypeFootprint.Proofs.Files.Paths

/-!
# Going one name further

Where a path leads to a folder, a name behind it leads to the entry of this name (`find_join`), as
far as the folder lets paths through and the name and the path are not too long.  The entry must not
be a link, which would lead on to somewhere else.

Links on the way to the folder make no difference: what stands behind them is not looked at before
they have been followed (`walkLinks_append`).
-/

set_option autoImplicit false

namespace TypeFootprint.FileTree

open FilePath (IsEntryName join segments)

/-- A name that is not too long, and that the system can be asked for. -/
structure IsShortName (name : String) : Prop where
  size_le : name.utf8ByteSize ≤ maxNameSize
  nul_not_mem : '\x00' ∉ name.toList

variable {t u : FileTree} {place : List String} {path name : String}
  {entries : List (String × FileTree)} {barriers : Barriers}

theorem at?_concat (h : t.at? place = some u) : t.at? (place ++ [name]) = u.entry? name := by
  induction place generalizing t with
  | nil =>
    obtain rfl := Option.some.inj h
    simp [at?]
  | cons n place ih =>
    obtain ⟨v, hv, hrest⟩ := Option.bind_eq_some_iff.1 h
    rw [List.cons_append, at?, hv, Option.bind_some, ih hrest]

/-! ## Segment by segment -/

section

variable {follow : List String → List String → Except ReadError (List String)}

/-- A segment leads nowhere, or to a place, or to a link; the segments behind it do not matter. -/
theorem walkSegments_cons (t : FileTree) (place : List String) (segment : String) :
    (∃ reason, ∀ follow rest, t.walkSegments follow place (segment :: rest) = .error reason) ∨
    (∃ next, ∀ follow rest,
      t.walkSegments follow place (segment :: rest) = t.walkSegments follow next rest) ∨
    ∃ next target, ∀ follow rest,
      t.walkSegments follow place (segment :: rest) = follow next (target ++ rest) := by
  cases hat : t.at? place with
  | none => exact .inl ⟨.notFound, fun _ _ ↦ by simp only [walkSegments, hat]⟩
  | some u =>
    cases u with
    | file | special | link => exact .inl ⟨.notFolder, fun _ _ ↦ by simp only [walkSegments, hat]⟩
    | folder entries barriers =>
      by_cases hempty : segment = ""
      · exact .inr (.inl ⟨place, fun _ _ ↦ by simp only [walkSegments, hat, if_pos hempty]⟩)
      cases hpass : barriers.passing with
      | some reason =>
        exact .inl ⟨reason, fun _ _ ↦ by simp only [walkSegments, hat, if_neg hempty, hpass]⟩
      | none =>
        simp only [walkSegments, hat, if_neg hempty, hpass]
        by_cases hdot : segment = "."
        · exact .inr (.inl ⟨place, fun _ _ ↦ by rw [if_pos hdot]⟩)
        by_cases hup : segment = ".."
        · exact .inr (.inl ⟨place.dropLast, fun _ _ ↦ by rw [if_neg hdot, if_pos hup]⟩)
        simp only [if_neg hdot, if_neg hup]
        by_cases hsize : maxNameSize < segment.utf8ByteSize
        · exact .inl ⟨.nameTooLong, fun _ _ ↦ by rw [if_pos hsize]⟩
        simp only [if_neg hsize]
        cases t.at? (place ++ [segment]) with
        | none => exact .inl ⟨.notFound, fun _ _ ↦ rfl⟩
        | some u =>
          cases u with
          | file | special | folder => exact .inr (.inl ⟨place ++ [segment], fun _ _ ↦ rfl⟩)
          | link target =>
            by_cases htarget : target.isEmpty = true
            · exact .inl ⟨.notFound, fun _ _ ↦ if_pos htarget⟩
            · exact .inr (.inr ⟨_, _, fun _ _ ↦ if_neg htarget⟩)

section

variable {a b target : List String}

/-- If `b` leads to the target wherever `a` leads to the place, then so it does behind other
segments. -/
theorem walkSegments_append
    (hfollow : ∀ p s, follow p (s ++ a) = .ok place → follow p (s ++ b) = .ok target)
    (hlast : ∀ p, t.walkSegments follow p a = .ok place → t.walkSegments follow p b = .ok target)
    {p s : List String} (h : t.walkSegments follow p (s ++ a) = .ok place) :
    t.walkSegments follow p (s ++ b) = .ok target := by
  induction s generalizing p with
  | nil => exact hlast p h
  | cons segment rest ih =>
    rw [List.cons_append] at h ⊢
    obtain ⟨reason, hstep⟩ | ⟨next, hstep⟩ | ⟨next, link, hstep⟩ := t.walkSegments_cons p segment
    · rw [hstep] at h
      cases h
    · rw [hstep] at h ⊢
      exact ih h
    · rw [hstep, ← List.append_assoc] at h ⊢
      exact hfollow _ _ h

/-- The same through links. -/
theorem walkLinks_append
    (hlast : ∀ follow p, t.walkSegments follow p a = .ok place →
      t.walkSegments follow p b = .ok target)
    {links : Nat} {p s : List String} (h : t.walkLinks links p (s ++ a) = .ok place) :
    t.walkLinks links p (s ++ b) = .ok target := by
  induction links generalizing p s with
  | zero => exact walkSegments_append (fun _ _ h ↦ by cases h) (hlast _) h
  | succ links ih => exact walkSegments_append (fun _ _ ↦ ih) (hlast _) h

end

theorem walkSegments_name (hat : t.at? place = some (.folder entries barriers))
    (hpass : barriers.passing = none) (hname : IsEntryName name) (hshort : IsShortName name)
    (hentry : FileTree.entry? (.folder entries barriers) name = some u)
    (hlink : ∀ target, u ≠ .link target) :
    t.walkSegments follow place [name] = .ok (place ++ [name]) := by
  have hidle : ¬ name = "" ∧ ¬ name = "." := by
    simpa [FilePath.isIdle] using hname.not_idle
  simp only [walkSegments, hat, hpass, if_neg hidle.1, if_neg hidle.2, if_neg hname.not_up,
    if_neg hshort.size_le.not_gt, at?_concat hat, hentry]

/-- Nothing, or nothing behind a slash, leads nowhere else. -/
theorem eq_of_walkSegments_idle {p last : List String} (hlast : last = [] ∨ last = [""])
    (h : t.walkSegments follow p last = .ok place) : p = place := by
  obtain rfl | rfl := hlast
  · cases h
    rfl
  · rw [walkSegments] at h
    split at h
    · cases h
    · cases h
      rfl
    · cases h

end

/-! ## A name behind a path -/

/-- The segments of a path with a name behind it.  A slash at the end of the path is not doubled. -/
theorem exists_segments_join (hpath : path ≠ "") (hname : IsEntryName name) :
    ∃ front last, segments path = front ++ last ∧ (last = [] ∨ last = [""]) ∧
      segments (join path name) = front ++ [name] := by
  have hsegments := FilePath.segments_of_slash_not_mem hname.slash_not_mem
  obtain ⟨q, rfl, hjoin⟩ | hjoin := FilePath.join_eq hpath hname
  · refine ⟨segments q, [""], FilePath.segments_slash q, .inr rfl, ?_⟩
    rw [hjoin, FilePath.segments_append_slash, hsegments]
  · refine ⟨segments path, [], (List.append_nil _).symm, .inl rfl, ?_⟩
    rw [hjoin, FilePath.segments_append_slash, hsegments]

theorem place?_eq_ok_iff {start : List String} :
    t.place? start path = .ok place ↔
      '\x00' ∉ path.toList ∧ path ≠ "" ∧ path.utf8ByteSize ≤ maxPathSize ∧
        t.walkLinks maxLinks (if FilePath.isAbsolute path then [] else start) (segments path) =
          .ok place := by
  rw [place?]
  split
  · next hnul => simp [List.contains_iff_mem.1 hnul]
  next hnul =>
  split
  · next hempty => simp [String.isEmpty_iff.1 hempty]
  next hempty =>
  split
  · next hsize => simp [Nat.not_le.2 hsize]
  next hsize =>
  rw [List.contains_iff_mem] at hnul
  rw [String.isEmpty_iff] at hempty
  simp [hnul, hempty, Nat.not_lt.1 hsize]

theorem find_eq_ok_iff {start : List String} :
    t.find start path = .ok u ↔ ∃ place, t.place? start path = .ok place ∧ t.at? place = some u := by
  rw [find]
  cases t.place? start path with
  | error reason => simp [bind, Except.bind]
  | ok place => cases h : t.at? place <;> simp [bind, Except.bind, h]

/-- **A name behind the path of a folder leads to its entry.** -/
theorem find_join {start : List String}
    (hfind : t.find start path = .ok (.folder entries barriers)) (hpass : barriers.passing = none)
    (hname : IsEntryName name) (hshort : IsShortName name)
    (hsize : (join path name).utf8ByteSize ≤ maxPathSize)
    (hentry : FileTree.entry? (.folder entries barriers) name = some u)
    (hlink : ∀ target, u ≠ .link target) :
    t.find start (join path name) = .ok u := by
  obtain ⟨place, hplace, hat⟩ := find_eq_ok_iff.1 hfind
  obtain ⟨hnul, hpath, -, hwalk⟩ := place?_eq_ok_iff.1 hplace
  obtain ⟨front, last, hsegments, hlast, hjoin⟩ := exists_segments_join hpath hname
  refine find_eq_ok_iff.2 ⟨place ++ [name], place?_eq_ok_iff.2 ⟨?_,
    FilePath.join_ne_empty hpath hname, hsize, ?_⟩, ?_⟩
  · intro hmem
    obtain hmem | hslash | hmem := FilePath.mem_join hpath hname hmem
    · exact hnul hmem
    · cases hslash
    · exact hshort.nul_not_mem hmem
  · rw [hjoin, FilePath.isAbsolute_join hpath hname]
    rw [hsegments] at hwalk
    refine walkLinks_append (fun follow p h ↦ ?_) hwalk
    obtain rfl := eq_of_walkSegments_idle hlast h
    exact walkSegments_name hat hpass hname hshort hentry hlink
  · rw [at?_concat hat, hentry]

end TypeFootprint.FileTree
