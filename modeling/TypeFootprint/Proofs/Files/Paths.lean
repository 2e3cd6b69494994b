import Mathlib.Data.List.TakeWhile
import Mathlib.Data.Prod.Lex
import TypeFootprint.Files.Path
import TypeFootprint.Proofs.Lists
import TypeFootprint.Proofs.Text.ByteOrder

/-!
# Paths of entries

The entries of a folder have names of their own: a name is no path of several segments, and none of
the segments that lead elsewhere.  A name behind a path is one component more (`components_join`).

Paths are ordered by their components, and names in them byte by byte.  `sortKey` makes this order
one of lists of numbers, and `le_iff` says that sorting compares by it.

An extension is a text without dots and slashes, and every such text is one
(`exists_extension?_iff`).
-/

set_option autoImplicit false

namespace TypeFootprint.FilePath

/-! ## Segments -/

theorem splitSlash_eq_splitOn (cs : List Char) : splitSlash cs = cs.splitOn '/' := by
  induction cs with
  | nil => rfl
  | cons c cs ih =>
    rw [List.splitOn_cons_eq_if_modifyHead, ← ih, splitSlash]
    by_cases hc : c = '/'
    · rw [if_pos hc, if_pos (by simpa using hc)]
    · rw [if_neg hc, if_neg (by simpa using hc)]
      cases h : splitSlash cs with
      | nil => exact absurd (ih ▸ h) (List.splitOn_ne_nil _ _)
      | cons s ss => rfl

theorem segments_append_slash (p q : String) :
    segments (p ++ "/" ++ q) = segments p ++ segments q := by
  simp only [segments, splitSlash_eq_splitOn, String.toList_append, List.append_assoc]
  rw [show "/".toList ++ q.toList = '/' :: q.toList from rfl, List.splitOn_append_cons_self,
    List.map_append]

theorem segments_slash (p : String) : segments (p ++ "/") = segments p ++ [""] := by
  have h := segments_append_slash p ""
  rwa [String.append_empty] at h

theorem segments_of_slash_not_mem {n : String} (h : '/' ∉ n.toList) : segments n = [n] := by
  rw [segments, splitSlash_eq_splitOn, List.splitOn_eq_singleton h, List.map_singleton,
    String.ofList_toList]

theorem slash_not_mem_of_mem_segments {path s : String} (h : s ∈ segments path) :
    '/' ∉ s.toList := by
  obtain ⟨cs, hcs, rfl⟩ := List.mem_map.1 h
  rw [String.toList_ofList]
  exact not_mem_of_mem_splitOn (splitSlash_eq_splitOn _ ▸ hcs)

theorem segments_ne_nil (path : String) : segments path ≠ [] := by
  rw [segments, splitSlash_eq_splitOn, Ne, List.map_eq_nil_iff]
  exact List.splitOn_ne_nil _ _

/-! ## Names behind paths -/

/-- A text that may be the name of an entry of a folder. -/
structure IsEntryName (n : String) : Prop where
  not_idle : isIdle n = false
  not_up : n ≠ ".."
  slash_not_mem : '/' ∉ n.toList

instance (n : String) : Decidable (IsEntryName n) :=
  decidable_of_iff (isIdle n = false ∧ n ≠ ".." ∧ '/' ∉ n.toList)
    ⟨fun ⟨hidle, hup, hslash⟩ ↦ ⟨hidle, hup, hslash⟩,
      fun h ↦ ⟨h.not_idle, h.not_up, h.slash_not_mem⟩⟩

theorem IsEntryName.component?_eq {n : String} (h : IsEntryName n) :
    component? n = some (.name n) := by
  rw [component?, if_neg (by simp [h.not_idle]), if_neg h.not_up]

theorem components_eq {path first : String} {rest : List String}
    (h : segments path = first :: rest) :
    components path =
      (if isAbsolute path then [.top] else if first = "." then [.here]
        else (component? first).toList) ++ rest.filterMap component? := by
  rw [components, h]

theorem isAbsolute_append {p : String} (h : p ≠ "") (q : String) :
    isAbsolute (p ++ q) = isAbsolute p := by
  obtain ⟨c, cs, hp⟩ := List.exists_cons_of_ne_nil (String.toList_eq_nil_iff.not.2 h)
  simp [isAbsolute, String.toList_append, hp]

/-- Behind a slash, a text without slashes is at most one component more. -/
theorem components_append_of_slash (p : String) {r : String} (hr : '/' ∉ r.toList) :
    components (p ++ "/" ++ r) = components (p ++ "/") ++ (component? r).toList := by
  obtain ⟨first, rest, hp⟩ := List.exists_cons_of_ne_nil (segments_ne_nil p)
  have hslash : segments (p ++ "/") = first :: (rest ++ [""]) := by
    rw [segments_slash, hp, List.cons_append]
  have hname : segments (p ++ "/" ++ r) = first :: (rest ++ [r]) := by
    rw [segments_append_slash, hp, segments_of_slash_not_mem hr, List.cons_append]
  have hempty : component? "" = none := rfl
  rw [components_eq hslash, components_eq hname, isAbsolute_append (by simp), List.filterMap_append,
    List.filterMap_append, List.filterMap_cons_none hempty, List.filterMap_nil, List.append_nil,
    List.append_assoc]
  cases h : component? r <;> simp [h]

theorem components_append_slash {p : String} (h : p ≠ "") :
    components (p ++ "/") = components p := by
  obtain ⟨first, rest, hp⟩ := List.exists_cons_of_ne_nil (segments_ne_nil p)
  have hslash : segments (p ++ "/") = first :: (rest ++ [""]) := by
    rw [segments_slash, hp, List.cons_append]
  rw [components_eq hslash, components_eq hp, isAbsolute_append h, List.filterMap_append]
  simp [component?, isIdle]

theorem exists_eq_append_slash {p : String} (h : p.toList.getLast? = some '/') :
    ∃ q, p = q ++ "/" := by
  obtain ⟨cs, hcs⟩ := List.getLast?_eq_some_iff.1 h
  refine ⟨String.ofList cs, ?_⟩
  rw [← String.toList_inj, hcs, String.toList_append, String.toList_ofList]
  rfl

theorem IsEntryName.not_absolute {n : String} (h : IsEntryName n) : isAbsolute n = false := by
  rw [isAbsolute, beq_eq_false_iff_ne]
  exact fun hhead ↦ h.slash_not_mem (List.mem_of_head? hhead)

theorem join_empty (n : String) : join "" n = n := rfl

/-- Between a path and a name behind it there is one slash. -/
theorem join_eq {path n : String} (hpath : path ≠ "") (h : IsEntryName n) :
    (∃ q, path = q ++ "/" ∧ join path n = q ++ "/" ++ n) ∨ join path n = path ++ "/" ++ n := by
  have hempty : path.isEmpty = false := by
    rw [Bool.eq_false_iff, Ne, String.isEmpty_iff]
    exact hpath
  rw [join, h.not_absolute, hempty, if_neg (by simp)]
  split
  · next hslash =>
    obtain ⟨q, rfl⟩ := exists_eq_append_slash (eq_of_beq hslash)
    exact .inl ⟨q, rfl, rfl⟩
  · exact .inr rfl

theorem mem_join {path n : String} {c : Char} (hpath : path ≠ "") (h : IsEntryName n)
    (hc : c ∈ (join path n).toList) : c ∈ path.toList ∨ c = '/' ∨ c ∈ n.toList := by
  obtain ⟨q, rfl, hjoin⟩ | hjoin := join_eq hpath h <;>
    simpa [hjoin, String.toList_append, or_assoc] using hc

theorem join_ne_empty {path n : String} (hpath : path ≠ "") (h : IsEntryName n) :
    join path n ≠ "" := by
  obtain ⟨q, rfl, hjoin⟩ | hjoin := join_eq hpath h <;>
    simp [hjoin, ← String.toList_eq_nil_iff]

theorem isAbsolute_join {path n : String} (hpath : path ≠ "") (h : IsEntryName n) :
    isAbsolute (join path n) = isAbsolute path := by
  obtain ⟨q, rfl, hjoin⟩ | hjoin := join_eq hpath h
  · rw [hjoin, isAbsolute_append hpath]
  · rw [hjoin, String.append_assoc, isAbsolute_append hpath]

/-- **A name behind a path is one component more.** -/
theorem components_join (path : String) {n : String} (h : IsEntryName n) :
    components (join path n) = components path ++ [.name n] := by
  by_cases hpath : path = ""
  · subst hpath
    have hdot : n ≠ "." := by
      rintro rfl
      exact absurd h.not_idle (by decide)
    rw [join_empty, components_eq (segments_of_slash_not_mem h.slash_not_mem), h.not_absolute,
      if_neg (by simp), if_neg hdot, h.component?_eq]
    rfl
  · obtain ⟨q, rfl, hjoin⟩ | hjoin := join_eq hpath h
    · rw [hjoin, components_append_of_slash q h.slash_not_mem, h.component?_eq, Option.toList_some]
    · rw [hjoin, components_append_of_slash path h.slash_not_mem, components_append_slash hpath,
        h.component?_eq, Option.toList_some]

theorem components_foldl_join (path : String) {names : List String}
    (h : ∀ n ∈ names, IsEntryName n) :
    components (names.foldl join path) = components path ++ names.map .name := by
  induction names generalizing path with
  | nil => rw [List.foldl_nil, List.map_nil, List.append_nil]
  | cons n names ih =>
    obtain ⟨hn, hnames⟩ := List.forall_mem_cons.1 h
    rw [List.foldl_cons, ih _ hnames, components_join path hn, List.append_assoc, List.map_cons,
      List.singleton_append]

/-! ## The order of paths -/

/-- The place of a component in the order of components: its rank, and a name's bytes. -/
def Component.sortKey : Component → Nat ×ₗ List Nat
  | name n => toLex (3, Text.bytes n)
  | c => toLex (c.rank, [])

/-- The place of a path in the order of paths. -/
def sortKey (path : String) : List (Nat ×ₗ List Nat) := (components path).map Component.sortKey

theorem Component.sortKey_injective : Function.Injective Component.sortKey := by
  intro a b h
  cases a <;> cases b <;> simp_all [sortKey, rank]
  exact Text.bytes_inj h

theorem Component.lt_iff {a b : Component} : a.lt b = true ↔ a.sortKey < b.sortKey := by
  cases a <;> cases b <;> simp [lt, sortKey, rank, Prod.Lex.toLex_lt_toLex, Text.bytes_lt_iff]

theorem componentsLe_iff {as bs : List Component} :
    componentsLe as bs = true ↔ as.map Component.sortKey ≤ bs.map Component.sortKey := by
  induction as generalizing bs with
  | nil =>
    rw [← not_lt, List.map_nil]
    simp [componentsLe]
  | cons a as ih =>
    cases bs with
    | nil =>
      rw [← not_lt, List.map_nil, List.map_cons]
      simp [componentsLe]
    | cons b bs =>
      rw [componentsLe, List.map_cons, List.map_cons, ← not_lt, List.cons_lt_cons_iff]
      split
      · next h =>
        subst h
        simp [ih]
      · next h =>
        have hkey : b.sortKey ≠ a.sortKey := fun heq ↦ h (Component.sortKey_injective heq.symm)
        simp [hkey, Component.lt_iff, hkey.symm.le_iff_lt]

/-- **Paths are compared component by component, and names byte by byte.** -/
theorem le_iff {p q : String} : le p q = true ↔ sortKey p ≤ sortKey q := componentsLe_iff

/-! ## Extensions -/

theorem mem_of_extensionOfName? {name e : String} (h : extensionOfName? name = some e) :
    '.' ∉ e.toList ∧ ∀ c ∈ e.toList, c ∈ name.toList := by
  rw [extensionOfName?] at h
  split at h
  · cases h
  · obtain rfl := Option.some.inj h
    refine ⟨fun hdot ↦ ?_, fun c hc ↦ ?_⟩
    · rw [String.toList_ofList, List.mem_reverse] at hdot
      exact absurd (List.mem_takeWhile_imp hdot) (by decide)
    · rw [String.toList_ofList, List.mem_reverse] at hc
      exact List.mem_reverse.1 ((List.takeWhile_sublist _).subset hc)

theorem mem_segments_of_fileName? {path name : String} (h : fileName? path = some name) :
    name ∈ segments path := by
  rw [fileName?] at h
  split at h
  · next n hlast =>
    obtain rfl := Option.some.inj h
    have hmem : Component.name n ∈ components path := List.mem_of_getLast? hlast
    have hname {s : String} (h : component? s = some (.name n)) : s = n := by
      rw [component?] at h
      split at h
      · cases h
      · split at h <;> cases h
        rfl
    obtain ⟨first, rest, hsegments⟩ := List.exists_cons_of_ne_nil (segments_ne_nil path)
    rw [components_eq hsegments, List.mem_append, List.mem_filterMap] at hmem
    rw [hsegments]
    rcases hmem with hfront | ⟨s, hs, hsn⟩
    · split at hfront
      · simp at hfront
      · split at hfront
        · simp at hfront
        · rw [Option.mem_toList] at hfront
          exact hname hfront ▸ .head _
    · exact hname hsn ▸ .tail _ hs
  · cases h

/-- **The extensions of paths are the texts without dots and slashes.** -/
theorem exists_extension?_iff {e : String} :
    (∃ path, extension? path = some e) ↔ '.' ∉ e.toList ∧ '/' ∉ e.toList := by
  constructor
  · rintro ⟨path, h⟩
    obtain ⟨name, hname, he⟩ := Option.bind_eq_some_iff.1 h
    obtain ⟨hdot, hmem⟩ := mem_of_extensionOfName? he
    exact ⟨hdot, fun hslash ↦
      slash_not_mem_of_mem_segments (mem_segments_of_fileName? hname) (hmem _ hslash)⟩
  · rintro ⟨hdot, hslash⟩
    have htoList : ("a." ++ e).toList = 'a' :: '.' :: e.toList := by
      rw [String.toList_append]
      rfl
    have hne {s : String} (h : s.toList.head? ≠ some 'a') : "a." ++ e ≠ s := by
      rintro rfl
      exact h (by rw [htoList]; rfl)
    have hentry : IsEntryName ("a." ++ e) := by
      refine ⟨?_, hne (by decide), ?_⟩
      · rw [isIdle, beq_false_of_ne (hne (by decide)), beq_false_of_ne (hne (by decide)),
          Bool.or_false]
      · rw [htoList]
        simpa using hslash
    have hcomponents : components ("a." ++ e) = [.name ("a." ++ e)] := components_join "" hentry
    have hall : ∀ c ∈ e.toList.reverse, (c != '.') = true := by
      intro c hc
      rw [bne_iff_ne]
      rintro rfl
      exact hdot (List.mem_reverse.1 hc)
    have hreverse : ("a." ++ e).toList.reverse = e.toList.reverse ++ ['.', 'a'] := by
      rw [htoList]
      simp
    refine ⟨"a." ++ e, ?_⟩
    rw [extension?, fileName?, hcomponents, List.getLast?_singleton, Option.bind_some,
      extensionOfName?, hreverse, List.dropWhile_append_of_pos hall,
      List.takeWhile_append_of_pos hall]
    simp

end TypeFootprint.FilePath
