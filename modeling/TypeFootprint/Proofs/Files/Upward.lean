import Mathlib.Data.List.DropRight
import Mathlib.Logic.Relation
import TypeFootprint.Proofs.Files.Paths

/-!
# Paths above a path

A path is a text, and going up from it is done on this text: the last component goes, and with it
whatever says nothing in front of it.  `Pops p q` says what is left without a look at how it is
found: of the texts that `p` starts with and that have all components of `p` but the last, `q` is
the shortest one.  Two dots are a component like any other, so `a/..` lies below `a` here.

* `pops_of_parentSegments?`, `not_pops_of_parentSegments?` — dropping segments is popping;
* `mem_upward_iff` — the paths of `upward` are those that are left by popping, again and again;
* `pairwise_upward` — each of them is shorter than those before it.

A path starts at the top just if its first segment is empty and not the only one.  This is the
invariant `Fits` of the segments that are left, and it carries the argument from one path to the
next.
-/

set_option autoImplicit false

namespace TypeFootprint.FilePath

variable {p q r s t : String} {rest ss tt : List String} {absolute : Bool}

/-! ## Texts along segments -/

theorem intercalate_segments (p : String) : "/".intercalate (segments p) = p := by
  rw [← String.toList_inj, String.toList_intercalate, segments, List.map_map,
    splitSlash_eq_splitOn]
  simp only [Function.comp_def, String.toList_ofList, List.map_id']
  exact List.intercalate_splitOn '/'

theorem eq_of_segments_eq (h : segments p = segments q) : p = q := by
  rw [← intercalate_segments p, h, intercalate_segments]

theorem segments_intercalate (hslash : ∀ s ∈ ss, '/' ∉ s.toList) (hne : ss ≠ []) :
    segments ("/".intercalate ss) = ss := by
  have hsplit : (['/'].intercalate (ss.map String.toList)).splitOn '/' = ss.map String.toList :=
    List.splitOn_intercalate '/' (by simpa using hslash) (by simpa using hne)
  rw [segments, splitSlash_eq_splitOn, String.toList_intercalate]
  exact (congrArg (List.map String.ofList) hsplit).trans (by simp)

theorem intercalate_cons (hne : rest ≠ []) :
    "/".intercalate (s :: rest) = s ++ "/" ++ "/".intercalate rest := by
  obtain ⟨t, rest, rfl⟩ := List.exists_cons_of_ne_nil hne
  rw [← String.toList_inj]
  simp [String.toList_intercalate, List.intercalate]

theorem intercalate_isPrefix (tail : List String) (hne : ss ≠ []) :
    ("/".intercalate ss).toList <+: ("/".intercalate (ss ++ tail)).toList := by
  induction ss with
  | nil => exact absurd rfl hne
  | cons s ss ih =>
    cases ss with
    | nil =>
      cases tail with
      | nil => exact List.prefix_rfl
      | cons t tail =>
        rw [List.singleton_append, intercalate_cons (List.cons_ne_nil t tail)]
        simp [String.toList_append]
    | cons t ss =>
      rw [List.cons_append, intercalate_cons (s := s) (List.cons_ne_nil t ss),
        intercalate_cons (s := s) (List.append_ne_nil_of_left_ne_nil (List.cons_ne_nil t ss) tail)]
      simp only [String.toList_append, List.append_assoc, List.prefix_append_right_inj]
      exact ih (List.cons_ne_nil t ss)

theorem exists_splitSlash_of_isPrefix {rs qs : List Char} (h : rs <+: qs) :
    ∃ front s t rest, splitSlash qs = front ++ s :: rest ∧ splitSlash rs = front ++ [t] ∧
      t <+: s := by
  induction rs generalizing qs with
  | nil =>
    obtain ⟨s, rest, hs⟩ := List.exists_cons_of_ne_nil
      (splitSlash_eq_splitOn qs ▸ List.splitOn_ne_nil '/' qs)
    exact ⟨[], s, [], rest, hs, rfl, List.nil_prefix⟩
  | cons c rs ih =>
    obtain ⟨u, rfl⟩ := h
    obtain ⟨front, s, t, rest, hq, hr, ht⟩ := ih (List.prefix_append rs u)
    by_cases hc : c = '/'
    · exact ⟨[] :: front, s, t, rest, by simp [splitSlash, hc, hq], by simp [splitSlash, hc, hr],
        ht⟩
    cases front with
    | nil =>
      exact ⟨[], c :: s, c :: t, rest, by simp [splitSlash, hc, hq], by simp [splitSlash, hc, hr],
        List.cons_prefix_cons.2 ⟨rfl, ht⟩⟩
    | cons v front =>
      exact ⟨(c :: v) :: front, s, t, rest, by simp [splitSlash, hc, hq],
        by simp [splitSlash, hc, hr], ht⟩

/-- A text that breaks off earlier has fewer segments, and the last one of them breaks off too. -/
theorem exists_segments_of_isPrefix (h : r.toList <+: q.toList) :
    ∃ front s t rest, segments q = front ++ s :: rest ∧ segments r = front ++ [t] ∧
      t.toList <+: s.toList := by
  obtain ⟨front, s, t, rest, hq, hr, ht⟩ := exists_splitSlash_of_isPrefix h
  refine ⟨front.map String.ofList, String.ofList s, String.ofList t, rest.map String.ofList,
    ?_, ?_, ?_⟩
  · rw [segments, hq, List.map_append, List.map_cons]
  · rw [segments, hr, List.map_append, List.map_singleton]
  · rwa [String.toList_ofList, String.toList_ofList]

theorem isAbsolute_intercalate (hslash : ∀ s ∈ ss, '/' ∉ s.toList) :
    isAbsolute ("/".intercalate ss) = (ss.head? == some "" && decide (1 < ss.length)) := by
  cases ss with
  | nil => rfl
  | cons s rest =>
    have hs : s.toList.head? ≠ some '/' :=
      fun hhead ↦ hslash s (.head _) (List.mem_of_head? hhead)
    cases rest with
    | nil => simpa [isAbsolute] using hs
    | cons t rest =>
      rw [intercalate_cons (List.cons_ne_nil t rest)]
      by_cases hempty : s = ""
      · simp [isAbsolute, String.toList_append, hempty]
      · have hne : s.toList ≠ [] := by simpa using hempty
        simp [isAbsolute, String.toList_append, List.head?_append_of_ne_nil _ hne, hs, hempty]

theorem isAbsolute_eq (p : String) :
    isAbsolute p = ((segments p).head? == some "" && decide (1 < (segments p).length)) := by
  rw [← isAbsolute_intercalate fun s hs ↦ slash_not_mem_of_mem_segments hs, intercalate_segments]

/-! ## Components along segments -/

/-- The component that a segment is; a dot is one only in front. -/
def componentAt? (inFront : Bool) (s : String) : Option Component :=
  if inFront = true ∧ s = "." then some .here else component? s

/-- The components along some segments, from the top or from elsewhere. -/
def componentsAlong (absolute : Bool) (ss : List String) : List Component :=
  (if absolute then [.top] else if ss.head? = some "." then [.here] else []) ++
    ss.filterMap component?

theorem componentAt?_eq_none_iff {inFront : Bool} :
    componentAt? inFront s = none ↔ s = "" ∨ inFront = false ∧ s = "." := by
  rw [componentAt?, component?]
  cases inFront <;> by_cases hdot : s = "." <;> by_cases hup : s = ".." <;>
    simp [isIdle, hdot, hup]

theorem eq_of_componentAt?_eq {inFront : Bool} {c : Component}
    (hs : componentAt? inFront s = some c) (ht : componentAt? inFront t = some c) : s = t := by
  have htext {u : String} (hu : componentAt? inFront u = some c) :
      u = "." ∧ c = .here ∨ u = ".." ∧ c = .up ∨ c = .name u := by
    rw [componentAt?, component?] at hu
    split_ifs at hu <;> simp_all
  rcases htext hs with ⟨rfl, rfl⟩ | ⟨rfl, rfl⟩ | rfl <;> simpa [eq_comm] using htext ht

/-- A segment that breaks off earlier is no component if the segment is none. -/
theorem componentAt?_eq_none_of_isPrefix {inFront : Bool} (hs : componentAt? inFront s = none)
    (ht : t.toList <+: s.toList) : componentAt? inFront t = none := by
  rw [componentAt?_eq_none_iff] at hs ⊢
  rcases hs with rfl | ⟨hfront, rfl⟩
  · exact .inl (by simpa using ht)
  · rcases List.prefix_cons_iff.1 ht with hnil | ⟨u, hu, hprefix⟩
    · exact .inl (String.toList_eq_nil_iff.1 hnil)
    · refine .inr ⟨hfront, ?_⟩
      rw [← String.toList_inj, hu, List.prefix_nil.1 hprefix]
      rfl

theorem componentsAlong_append_cons (absolute : Bool) (front : List String) (s : String)
    (rest : List String) :
    componentsAlong absolute (front ++ s :: rest) =
      componentsAlong absolute front ++
        ((componentAt? (front.isEmpty && !absolute) s).toList ++ rest.filterMap component?) := by
  have hcons : (s :: rest).filterMap component? =
      (component? s).toList ++ rest.filterMap component? := by
    cases hs : component? s <;> simp [hs]
  rw [componentsAlong, componentsAlong, List.filterMap_append, hcons]
  cases front with
  | cons u front => simp [componentAt?]
  | nil =>
    cases absolute with
    | true => simp [componentAt?]
    | false => by_cases hdot : s = "." <;> simp [componentAt?, hdot, component?, isIdle]

theorem components_eq_componentsAlong (p : String) :
    components p = componentsAlong (isAbsolute p) (segments p) := by
  obtain ⟨first, rest, hp⟩ := List.exists_cons_of_ne_nil (segments_ne_nil p)
  have habsolute := isAbsolute_eq p
  rw [components_eq hp, componentsAlong]
  rw [hp] at habsolute ⊢
  cases h : isAbsolute p with
  | true =>
    obtain rfl : first = "" := by simp_all
    rfl
  | false =>
    by_cases hdot : first = "."
    · subst hdot
      rfl
    · cases hfirst : component? first <;> simp [hdot, hfirst]

theorem isAbsolute_of_isPrefix (hne : r ≠ "") (h : r.toList <+: q.toList) :
    isAbsolute r = isAbsolute q := by
  obtain ⟨u, hu⟩ := h
  rw [← isAbsolute_append hne (String.ofList u)]
  congr 1
  rw [← String.toList_inj, ← hu, String.toList_append, String.toList_ofList]

/-- Two paths that have some segments in common, and the same components, have the same components
behind these segments. -/
theorem toList_componentAt?_eq {front : List String} (hsq : segments q = front ++ s :: rest)
    (hsr : segments r = front ++ [t]) (habsolute : isAbsolute r = isAbsolute q)
    (hcomponents : components r = components q) :
    (componentAt? (front.isEmpty && !isAbsolute q) t).toList =
      (componentAt? (front.isEmpty && !isAbsolute q) s).toList ++ rest.filterMap component? := by
  have hq := components_eq_componentsAlong q
  have hr := components_eq_componentsAlong r
  rw [hsq, componentsAlong_append_cons] at hq
  rw [habsolute, hsr, componentsAlong_append_cons, hcomponents, hq,
    List.append_cancel_left_eq, List.filterMap_nil, List.append_nil] at hr
  exact hr.symm

/-- A list of segments whose last one is a component. -/
def EndsInComponent (absolute : Bool) (ss : List String) : Prop :=
  ∃ init s c, ss = init ++ [s] ∧ componentAt? (init.isEmpty && !absolute) s = some c

/-- Where the last segment is a component, no text that breaks off earlier has all components. -/
theorem eq_of_prefix_of_components_eq (hq : EndsInComponent (isAbsolute q) (segments q))
    (hr : r.toList <+: q.toList) (hcomponents : components r = components q) : r = q := by
  obtain ⟨front, s, t, rest, hsq, hsr, ht⟩ := exists_segments_of_isPrefix hr
  obtain ⟨init, x, c, hinit, hx⟩ := hq
  have hne : r ≠ "" := by
    rintro rfl
    have hnil : components "" = [] := by decide
    have halong := components_eq_componentsAlong q
    rw [hinit, componentsAlong_append_cons, hx, ← hcomponents, hnil] at halong
    simp at halong
  have hlast := toList_componentAt?_eq hsq hsr (isAbsolute_of_isPrefix hne hr) hcomponents
  rcases List.eq_nil_or_concat rest with rfl | ⟨more, y, rfl⟩
  · obtain ⟨rfl, rfl⟩ : init = front ∧ x = s := by simpa using hinit.symm.trans hsq
    rw [hx, List.filterMap_nil, List.append_nil, Option.toList_some,
      Option.toList_eq_singleton_iff] at hlast
    exact eq_of_segments_eq (by rw [hsr, hsq, eq_of_componentAt?_eq hlast hx])
  · -- Behind `s` there is a component, so `s` would have to be none, and then `t` is none either.
    rw [List.concat_eq_append] at hsq hlast
    rw [hsq, ← List.cons_append, ← List.append_assoc] at hinit
    obtain ⟨rfl, hyx⟩ := List.append_inj' hinit rfl
    obtain rfl : y = x := by simpa using hyx
    have hy : component? y = some c := by simpa [componentAt?] using hx
    rw [List.filterMap_append, List.filterMap_cons_some hy, List.filterMap_nil] at hlast
    cases hs : componentAt? (front.isEmpty && !isAbsolute q) s with
    | none =>
      rw [componentAt?_eq_none_of_isPrefix hs ht] at hlast
      simp at hlast
    | some d =>
      have hlength := congrArg List.length hlast
      have hle := Option.length_toList_le (o := componentAt? (front.isEmpty && !isAbsolute q) t)
      simp only [hs, Option.toList_some, List.length_append, List.length_cons] at hlength
      omega

/-! ## Segments that say nothing -/

theorem filterMap_dropIdle (ss : List String) :
    (dropIdle ss).filterMap component? = ss.filterMap component? := by
  have hdrop (ss : List String) : dropIdle ss = ss.rdropWhile isIdle := rfl
  rw [hdrop]
  induction ss using List.reverseRecOn with
  | nil => rfl
  | append_singleton ss s ih =>
    rw [List.rdropWhile_concat]
    split
    · next h => simp [ih, component?, h]
    · rfl

theorem dropIdleEnd_isPrefix (ss : List String) : dropIdleEnd ss <+: ss := by
  cases ss with
  | nil => exact List.prefix_rfl
  | cons first rest =>
    rw [dropIdleEnd]
    split
    · exact List.nil_prefix
    · exact List.cons_prefix_cons.2 ⟨rfl, List.rdropWhile_prefix isIdle rest⟩

theorem componentsAlong_dropIdleEnd (absolute : Bool) (ss : List String) :
    componentsAlong absolute (dropIdleEnd ss) = componentsAlong absolute ss := by
  cases ss with
  | nil => rfl
  | cons first rest =>
    have hrest := filterMap_dropIdle rest
    rw [dropIdleEnd]
    split
    · next h =>
      obtain ⟨rfl, hnil⟩ : first = "" ∧ dropIdle rest = [] := by simpa using h
      rw [hnil] at hrest
      simp [componentsAlong, component?, isIdle, ← hrest]
    · simp [componentsAlong, List.filterMap_cons, hrest]

theorem exists_dropIdleEnd_eq (hne : dropIdleEnd ss ≠ []) :
    ∃ first rest, ss = first :: rest ∧ dropIdleEnd ss = first :: dropIdle rest ∧
      (first = "" → dropIdle rest ≠ []) := by
  cases ss with
  | nil => exact absurd rfl hne
  | cons first rest =>
    rw [dropIdleEnd] at hne ⊢
    split at hne
    · exact absurd rfl hne
    · next h =>
      rw [if_neg h]
      exact ⟨first, rest, rfl, rfl, by simpa using h⟩

theorem parentSegments?_eq_some_iff :
    parentSegments? ss = some tt ↔
      dropIdleEnd ss ≠ [] ∧ tt = dropIdleEnd (dropIdleEnd ss).dropLast := by
  rw [parentSegments?]
  split
  · next h => simp [h]
  · next h => simp [h, eq_comm]

theorem parentSegments?_eq_none_iff : parentSegments? ss = none ↔ dropIdleEnd ss = [] := by
  rw [parentSegments?]
  split
  · next h => simp [h]
  · next h => simp [h]

/-! ## Segments that fit a path -/

/-- Segments of a path from the top or from elsewhere: the first one is empty just if the path
starts at the top. -/
structure Fits (absolute : Bool) (ss : List String) : Prop where
  slash_not_mem : ∀ s ∈ ss, '/' ∉ s.toList
  first : ∀ s ∈ ss.head?, absolute = true ↔ s = ""

theorem Fits.of_isPrefix (h : Fits absolute ss) (htt : tt <+: ss) : Fits absolute tt := by
  refine ⟨fun s hs ↦ h.slash_not_mem s (htt.subset hs), fun s hs ↦ h.first s ?_⟩
  obtain ⟨tail, rfl⟩ := htt
  cases tt with
  | nil => cases hs
  | cons t tt => exact hs

/-- The segments of a path fit it, if there is more to it than the top. -/
theorem fits_segments (hne : dropIdleEnd (segments p) ≠ []) :
    Fits (isAbsolute p) (segments p) := by
  obtain ⟨first, rest, hp, -, hfirst⟩ := exists_dropIdleEnd_eq hne
  refine ⟨fun s hs ↦ slash_not_mem_of_mem_segments hs, fun s hs ↦ ?_⟩
  obtain rfl : first = s := by simpa [hp] using hs
  rw [isAbsolute_eq, hp]
  constructor
  · intro h
    simp only [List.head?_cons, Bool.and_eq_true, beq_iff_eq, Option.some.injEq] at h
    exact h.1
  · intro hempty
    have hrest : rest ≠ [] := by
      rintro rfl
      exact hfirst hempty rfl
    simp [hempty, List.length_pos_iff.2 hrest]

theorem Fits.endsInComponent (h : Fits absolute ss) (hne : dropIdleEnd ss ≠ []) :
    EndsInComponent absolute (dropIdleEnd ss) := by
  obtain ⟨first, rest, rfl, hdrop, hfirst⟩ := exists_dropIdleEnd_eq hne
  rw [hdrop]
  by_cases hnil : dropIdle rest = []
  · have hempty : first ≠ "" := fun h ↦ hfirst h hnil
    obtain rfl : absolute = false := Bool.eq_false_iff.2 (mt (h.first first rfl).1 hempty)
    have hsome : componentAt? true first ≠ none := by simp [componentAt?_eq_none_iff, hempty]
    obtain ⟨c, hc⟩ := Option.ne_none_iff_exists'.1 hsome
    exact ⟨[], first, c, by rw [hnil]; rfl, hc⟩
  · have hidle : isIdle ((dropIdle rest).getLast hnil) = false :=
      Bool.eq_false_iff.2 (List.rdropWhile_last_not isIdle rest hnil)
    have hsome : componentAt? false ((dropIdle rest).getLast hnil) ≠ none := by
      simpa [componentAt?_eq_none_iff, isIdle] using hidle
    obtain ⟨c, hc⟩ := Option.ne_none_iff_exists'.1 hsome
    refine ⟨first :: (dropIdle rest).dropLast, _, c, ?_, hc⟩
    rw [List.cons_append, List.dropLast_append_getLast hnil]

theorem segments_ofSegments (hslash : ∀ s ∈ ss, '/' ∉ s.toList) (hne : ss ≠ []) :
    segments (ofSegments absolute ss) = ss := by
  rw [ofSegments, if_neg (by simpa using hne), segments_intercalate hslash hne]

theorem Fits.isAbsolute_ofSegments (h : Fits absolute ss) :
    isAbsolute (ofSegments absolute (dropIdleEnd ss)) = absolute := by
  by_cases hne : dropIdleEnd ss = []
  · rw [hne]
    cases absolute <;> rfl
  · have hslash := (h.of_isPrefix (dropIdleEnd_isPrefix ss)).slash_not_mem
    rw [ofSegments, if_neg (by simpa using hne), isAbsolute_intercalate hslash]
    obtain ⟨first, rest, rfl, hdrop, hfirst⟩ := exists_dropIdleEnd_eq hne
    rw [hdrop]
    by_cases hempty : first = ""
    · simp [hempty, (h.first first rfl).2 hempty, List.length_pos_iff.2 (hfirst hempty)]
    · simp [hempty, Bool.eq_false_iff.2 (mt (h.first first rfl).1 hempty)]

theorem Fits.components_ofSegments (h : Fits absolute ss) :
    components (ofSegments absolute (dropIdleEnd ss)) = componentsAlong absolute ss := by
  rw [← componentsAlong_dropIdleEnd]
  by_cases hne : dropIdleEnd ss = []
  · rw [hne]
    cases absolute <;> decide
  · have hslash := (h.of_isPrefix (dropIdleEnd_isPrefix ss)).slash_not_mem
    rw [components_eq_componentsAlong, h.isAbsolute_ofSegments, segments_ofSegments hslash hne]

/-- The text along segments that fit ends where it has to. -/
theorem Fits.eq_ofSegments_of_isPrefix (h : Fits absolute ss)
    (hr : r.toList <+: (ofSegments absolute (dropIdleEnd ss)).toList)
    (hcomponents : components r = components (ofSegments absolute (dropIdleEnd ss))) :
    r = ofSegments absolute (dropIdleEnd ss) := by
  by_cases hne : dropIdleEnd ss = []
  · rw [hne] at hr hcomponents ⊢
    cases absolute with
    | false => exact String.toList_inj.1 (List.prefix_nil.1 hr)
    | true =>
      rcases List.prefix_cons_iff.1 hr with hnil | ⟨cs, hcs, hprefix⟩
      · obtain rfl : r = "" := String.toList_eq_nil_iff.1 hnil
        exact absurd hcomponents (by decide)
      · rw [← String.toList_inj, hcs, List.prefix_nil.1 hprefix]
        rfl
  · have hslash := (h.of_isPrefix (dropIdleEnd_isPrefix ss)).slash_not_mem
    refine eq_of_prefix_of_components_eq ?_ hr hcomponents
    rw [h.isAbsolute_ofSegments, segments_ofSegments hslash hne]
    exact h.endsInComponent hne

theorem ofSegments_isPrefix (hss : ss <+: segments p) :
    (ofSegments (isAbsolute p) ss).toList <+: p.toList := by
  by_cases hnil : ss = []
  · subst hnil
    cases habsolute : isAbsolute p with
    | false => exact List.nil_prefix
    | true =>
      rw [isAbsolute, beq_iff_eq] at habsolute
      obtain ⟨cs, hcs⟩ := List.head?_eq_some_iff.1 habsolute
      rw [hcs]
      exact ⟨cs, rfl⟩
  · obtain ⟨tail, htail⟩ := hss
    have hprefix := intercalate_isPrefix tail hnil
    rw [htail, intercalate_segments] at hprefix
    rwa [ofSegments, if_neg (by simpa using hnil)]

/-! ## Taking off the last component -/

/-- `q` is what is left of `p` when its last component is taken off as text: of the texts that `p`
starts with and that have all components of `p` but the last, it is the shortest one.  The top is
not taken off. -/
structure Pops (p q : String) : Prop where
  exists_last : ∃ c, c ≠ .top ∧ components p = components q ++ [c]
  isPrefix : q.toList <+: p.toList
  shortest : ∀ r : String, r.toList <+: p.toList → components r = components q →
    q.toList <+: r.toList

theorem Pops.unique (h : Pops p q) (h' : Pops p r) : q = r := by
  obtain ⟨c, -, hc⟩ := h.exists_last
  obtain ⟨c', -, hc'⟩ := h'.exists_last
  have heq : components q = components r := (List.append_inj' (hc.symm.trans hc') rfl).1
  have hqr := h.shortest r h'.isPrefix heq.symm
  have hrq := h'.shortest q h.isPrefix heq
  exact String.toList_inj.1 (hqr.eq_of_length_le hrq.length_le)

theorem Pops.length_lt (h : Pops p q) : q.length < p.length := by
  rw [← String.length_toList, ← String.length_toList]
  refine lt_of_le_of_ne h.isPrefix.length_le fun heq ↦ ?_
  obtain ⟨c, -, hc⟩ := h.exists_last
  rw [String.toList_inj.1 (h.isPrefix.eq_of_length heq)] at hc
  simp at hc

theorem Pops.isAbsolute_eq_false (h : Pops p q) (hp : isAbsolute p = false) :
    isAbsolute q = false := by
  by_cases hempty : q = ""
  · rw [hempty]
    rfl
  · rw [isAbsolute_of_isPrefix hempty h.isPrefix, hp]

/-- Popping comes to an end, because the text gets shorter. -/
theorem wellFounded_pops : WellFounded fun q p ↦ Pops p q :=
  Subrelation.wf (fun h ↦ Pops.length_lt h) (measure String.length).wf

/-- **Dropping segments from behind is popping.** -/
theorem pops_of_parentSegments? (h : parentSegments? (segments p) = some ss) :
    Pops p (ofSegments (isAbsolute p) ss) := by
  obtain ⟨hne, rfl⟩ := parentSegments?_eq_some_iff.1 h
  have hfits := fits_segments hne
  obtain ⟨init, s, c, hinit, hs⟩ := hfits.endsInComponent hne
  have hkept : init <+: segments p :=
    (List.prefix_append init [s]).trans (hinit ▸ dropIdleEnd_isPrefix (segments p))
  have hfitsInit := hfits.of_isPrefix hkept
  rw [hinit, List.dropLast_concat]
  have hprefix := ofSegments_isPrefix ((dropIdleEnd_isPrefix init).trans hkept)
  refine ⟨⟨c, ?_, ?_⟩, hprefix, fun r hr hcomponents ↦ ?_⟩
  · rintro rfl
    rw [componentAt?, component?] at hs
    split_ifs at hs <;> simp at hs
  · rw [hfitsInit.components_ofSegments, components_eq_componentsAlong,
      ← componentsAlong_dropIdleEnd, hinit, componentsAlong_append_cons, hs, List.filterMap_nil,
      List.append_nil, Option.toList_some]
  · rcases List.prefix_or_prefix_of_prefix hprefix hr with hle | hle
    · exact hle
    · have heq := hfitsInit.eq_ofSegments_of_isPrefix hle hcomponents
      exact heq ▸ List.prefix_rfl

/-- Where no segment can be dropped, there is no component but the top. -/
theorem not_pops_of_parentSegments? (h : parentSegments? (segments p) = none) : ¬ Pops p q := by
  rintro ⟨⟨c, htop, hc⟩, -, -⟩
  rw [components_eq_componentsAlong, ← componentsAlong_dropIdleEnd,
    parentSegments?_eq_none_iff.1 h] at hc
  cases habsolute : isAbsolute p with
  | false => simp [habsolute, componentsAlong] at hc
  | true =>
    have hlast := congrArg List.getLast? hc
    simp only [habsolute, componentsAlong, if_true, List.filterMap_nil, List.append_nil,
      List.getLast?_singleton, List.getLast?_append, Option.some_or, Option.some.injEq] at hlast
    exact htop hlast.symm

theorem eq_empty_of_parentSegments? (h : parentSegments? (segments p) = none)
    (hp : isAbsolute p = false) : p = "" := by
  obtain ⟨first, rest, hsegments⟩ := List.exists_cons_of_ne_nil (segments_ne_nil p)
  rw [parentSegments?_eq_none_iff, hsegments, dropIdleEnd] at h
  split at h
  · next hidle =>
    obtain ⟨rfl, -⟩ : first = "" ∧ _ := by simpa using hidle
    rw [isAbsolute_eq, hsegments] at hp
    obtain rfl : rest = [] := by simpa using hp
    exact eq_of_segments_eq hsegments
  · cases h

/-! ## All paths above -/

theorem pathsAbove_eq_nil (h : parentSegments? ss = none) : pathsAbove absolute ss = [] := by
  rw [pathsAbove]
  split
  · rfl
  · next heq => cases h.symm.trans heq

theorem pathsAbove_eq_cons (h : parentSegments? ss = some tt) :
    pathsAbove absolute ss = ofSegments absolute tt :: pathsAbove absolute tt := by
  rw [pathsAbove]
  split
  · next heq => cases h.symm.trans heq
  · next heq =>
    obtain rfl := Option.some.inj (h.symm.trans heq)
    rfl

theorem Fits.pathsAbove_ofSegments (h : Fits absolute ss) :
    pathsAbove absolute (segments (ofSegments absolute (dropIdleEnd ss))) =
      pathsAbove absolute (dropIdleEnd ss) := by
  by_cases hne : dropIdleEnd ss = []
  · rw [hne, pathsAbove_eq_nil (by cases absolute <;> decide), pathsAbove_eq_nil rfl]
  · have hslash := (h.of_isPrefix (dropIdleEnd_isPrefix ss)).slash_not_mem
    rw [segments_ofSegments hslash hne]

theorem upward_eq_cons (h : parentSegments? (segments p) = some ss) :
    upward p = p :: upward (ofSegments (isAbsolute p) ss) := by
  obtain ⟨hne, rfl⟩ := parentSegments?_eq_some_iff.1 h
  have hlast := List.dropLast_prefix (dropIdleEnd (segments p))
  have hfits : Fits (isAbsolute p) (dropIdleEnd (segments p)).dropLast :=
    (fits_segments hne).of_isPrefix (hlast.trans (dropIdleEnd_isPrefix _))
  rw [upward, pathsAbove_eq_cons h, upward, hfits.isAbsolute_ofSegments,
    hfits.pathsAbove_ofSegments]

/-- Going up from a path, one step at a time. -/
theorem upward_induction {motive : String → Prop}
    (last : ∀ p, upward p = [p] → (∀ q, ¬ Pops p q) → (isAbsolute p = false → p = "") → motive p)
    (step : ∀ p q, upward p = p :: upward q → Pops p q → motive q → motive p) (p : String) :
    motive p := by
  induction p using wellFounded_pops.induction with
  | _ p ih =>
    cases h : parentSegments? (segments p) with
    | none =>
      exact last p (by rw [upward, pathsAbove_eq_nil h])
        (fun q ↦ not_pops_of_parentSegments? h) (eq_empty_of_parentSegments? h)
    | some ss =>
      have hpops := pops_of_parentSegments? h
      exact step p _ (upward_eq_cons h) hpops (ih _ hpops)

/-- A path is reached from another one by popping components. -/
abbrev IsAbove (p q : String) : Prop := Relation.ReflTransGen Pops p q

/-- **The paths of `upward` are those that are left when components are popped, one after the
other.** -/
theorem mem_upward_iff : q ∈ upward p ↔ IsAbove p q := by
  induction p using upward_induction with
  | last p hp hnot _ =>
    rw [hp, List.mem_singleton]
    refine Iff.trans ?_ Relation.ReflTransGen.cases_head_iff.symm
    constructor
    · exact fun h ↦ .inl h.symm
    · rintro (h | ⟨r, hr, -⟩)
      · exact h.symm
      · exact absurd hr (hnot r)
  | step p r hp hpops ih =>
    rw [hp, List.mem_cons, ih]
    refine Iff.trans ?_ Relation.ReflTransGen.cases_head_iff.symm
    constructor
    · rintro (h | h)
      · exact .inl h.symm
      · exact .inr ⟨r, hpops, h⟩
    · rintro (h | ⟨r', hr', h⟩)
      · exact .inl h.symm
      · exact .inr (hpops.unique hr' ▸ h)

theorem IsAbove.length_le (h : IsAbove p q) : q.length ≤ p.length := by
  induction h with
  | refl => exact le_rfl
  | tail _ hpops ih => exact hpops.length_lt.le.trans ih

/-- **Each of the paths of `upward` is shorter than those before it.** -/
theorem pairwise_upward (p : String) : (upward p).Pairwise fun d e ↦ e.length < d.length := by
  induction p using upward_induction with
  | last p hp _ _ =>
    rw [hp]
    exact List.pairwise_singleton _ p
  | step p q hp hpops ih =>
    rw [hp, List.pairwise_cons]
    exact ⟨fun e he ↦ (mem_upward_iff.1 he).length_le.trans_lt hpops.length_lt, ih⟩

/-- From a path that does not start at the top, popping leads to the empty path. -/
theorem isAbove_empty (h : isAbsolute p = false) : IsAbove p "" := by
  induction p using upward_induction with
  | last p _ _ hempty => rw [hempty h]
  | step p q _ hpops ih => exact .head hpops (ih (hpops.isAbsolute_eq_false h))

end TypeFootprint.FilePath
