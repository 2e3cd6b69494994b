import Mathlib.Data.List.DropRight
import TypeFootprint.Proofs.Lists
import TypeFootprint.Proofs.Token.Strings

/-!
# The value of a block string that has been written

A block string that has been written has its text on lines of its own.  `value_blockText` says what
is read of it: the quotes are as they were, but the text loses the indentation that all its lines
have in common, the first one not excepted, and its blank lines at both ends.  It is `settle` of the
text, wherever the block string stands.

So a text is read back just if it is settled already (`settle_eq_self_iff`).  As blank lines and
indentation are lost for good, no other text is.
-/

set_option autoImplicit false

namespace TypeFootprint
namespace Block

/-- A text without the indentation that all its lines share and without blank lines at its ends. -/
def settle (cs : List Char) : List Char :=
  unlines (trimBlank ((lines cs).map (List.drop (commonIndent (lines cs)))))

/-- A text that starts and ends with a line that is not blank and whose lines share no
indentation. -/
structure IsSettled (cs : List Char) : Prop where
  first : ∀ line ∈ (lines cs).head?, isBlank line = false
  last : ∀ line ∈ (lines cs).getLast?, isBlank line = false
  flush : commonIndent (lines cs) = 0

instance (cs : List Char) : Decidable (IsSettled cs) :=
  decidable_of_iff ((∀ line ∈ (lines cs).head?, isBlank line = false) ∧
      (∀ line ∈ (lines cs).getLast?, isBlank line = false) ∧ commonIndent (lines cs) = 0)
    ⟨fun ⟨a, b, c⟩ ↦ ⟨a, b, c⟩, fun ⟨a, b, c⟩ ↦ ⟨a, b, c⟩⟩

variable {cs ds es : List Char} {ls : List (List Char)}

/-! ## Quotes -/

/-- A quote at the front of what has been written was there before, without two others behind
it. -/
theorem exists_of_encode_append_eq (hd : ds.head? ≠ some '"')
    (h : encode cs ++ ds = '"' :: es) :
    ∃ cs', cs = '"' :: cs' ∧ es = encode cs' ++ ds ∧ ¬['"', '"'] <+: cs' := by
  induction cs using encode.induct with
  | case1 =>
    rw [encode, List.nil_append] at h
    simp [h] at hd
  | case2 cs =>
    rw [encode] at h
    cases h
  | case3 c cs hc =>
    rw [encode.eq_3 c cs hc, List.cons_append] at h
    obtain ⟨rfl, rfl⟩ := List.cons.inj h
    refine ⟨cs, rfl, rfl, ?_⟩
    rintro ⟨rest, rfl⟩
    exact hc rest rfl rfl

/-- What has been written does not start with three quotes. -/
theorem not_prefix_encode_append (hd : ds.head? ≠ some '"') :
    ¬['"', '"', '"'] <+: encode cs ++ ds := by
  rintro ⟨rest, h⟩
  obtain ⟨cs₁, -, h₁, hpre⟩ := exists_of_encode_append_eq hd h.symm
  obtain ⟨cs₂, rfl, h₂, -⟩ := exists_of_encode_append_eq hd h₁.symm
  obtain ⟨cs₃, rfl, -, -⟩ := exists_of_encode_append_eq hd h₂.symm
  exact hpre ⟨cs₃, rfl⟩

/-- What has been written is read back, whatever follows but a quote. -/
theorem unescape_encode_append (hd : ds.head? ≠ some '"') :
    unescape (encode cs ++ ds) = cs ++ unescape ds := by
  induction cs using encode.induct with
  | case1 => rfl
  | case2 cs ih =>
    rw [encode]
    simp only [List.cons_append, unescape, ih]
  | case3 c cs hc ih =>
    -- The backslash of the text does not come to stand in front of three quotes.
    have hplain (rest : List Char) (_ : c = '\\') (h : encode cs ++ ds = '"' :: '"' :: '"' :: rest) :
        False := not_prefix_encode_append hd ⟨rest, h.symm⟩
    rw [encode.eq_3 c cs hc, List.cons_append, unescape.eq_3 c _ hplain, ih, List.cons_append]

theorem unescape_spaces {indent : List Char} (h : ∀ c ∈ indent, c = ' ') :
    unescape indent = indent := by
  induction indent with
  | nil => rfl
  | cons c indent ih =>
    obtain rfl := h c (.head _)
    rw [unescape.eq_3 ' ' indent fun _ hc _ ↦ absurd hc (by decide),
      ih fun d hd ↦ h d (.tail _ hd)]

/-! ## Lines -/

/-- Without carriage returns, lines are what stands between newlines. -/
theorem lines_eq_splitOn (h : '\r' ∉ cs) : lines cs = cs.splitOn '\n' := by
  induction cs with
  | nil => rfl
  | cons c cs ih =>
    have hc : c ≠ '\r' := fun hc ↦ h (hc ▸ .head _)
    rw [List.splitOn_cons_eq_if_modifyHead, ← ih fun hmem ↦ h (.tail _ hmem)]
    by_cases hline : c = '\n'
    · subst hline
      rfl
    · have hne : lines cs ≠ [] := by
        rw [ih fun hmem ↦ h (.tail _ hmem)]
        exact List.splitOn_ne_nil _ _
      obtain ⟨line, rest, hlines⟩ := List.exists_cons_of_ne_nil hne
      rw [if_neg (by simpa using hline)]
      simp [lines, hc, hlines, consFirst]

theorem unlines_eq_intercalate (ls : List (List Char)) : unlines ls = ['\n'].intercalate ls := by
  induction ls using unlines.induct with
  | case1 => rfl
  | case2 line => rw [unlines, List.intercalate_singleton]
  | case3 line next rest ih =>
    rw [unlines, ih, List.intercalate_cons_cons, List.append_assoc, List.singleton_append]

theorem unlines_lines (h : '\r' ∉ cs) : unlines (lines cs) = cs := by
  rw [lines_eq_splitOn h, unlines_eq_intercalate, List.intercalate_splitOn]

/-- A text on lines of its own, between an empty line and a line of spaces. -/
theorem lines_on_lines (h : '\r' ∉ cs) {indent : List Char} (hindent : ∀ c ∈ indent, c = ' ') :
    lines ('\n' :: (cs ++ '\n' :: indent)) = [] :: (lines cs ++ [indent]) := by
  have hne (c : Char) (hc : c ≠ ' ') : c ∉ indent := fun hmem ↦ hc (hindent c hmem)
  have hall : '\r' ∉ cs ++ '\n' :: indent := by
    simp [h, hne '\r' (by decide)]
  have hlast : indent.splitOn '\n' = [indent] :=
    List.splitOn_eq_singleton (hne '\n' (by decide))
  rw [show lines ('\n' :: (cs ++ '\n' :: indent)) = [] :: lines (cs ++ '\n' :: indent) from rfl,
    lines_eq_splitOn hall, List.splitOn_append_cons_self, hlast, lines_eq_splitOn h]

/-! ## Blank lines -/

theorem isBlank_of_spaces {line : List Char} (h : ∀ c ∈ line, c = ' ') : isBlank line = true :=
  List.all_eq_true.2 fun c hc ↦ by rw [h c hc]; rfl

/-- Blank lines do not count for the indentation. -/
theorem commonIndent_append_of_isBlank {line : List Char} (h : isBlank line = true) :
    commonIndent (ls ++ [line]) = commonIndent ls := by
  have hnone : indent? line = none := if_pos h
  rw [commonIndent, List.filterMap_append, List.filterMap_cons_none hnone, List.filterMap_nil,
    List.append_nil, commonIndent]

theorem trimBlank_eq_rdropWhile (ls : List (List Char)) :
    trimBlank ls = (ls.dropWhile isBlank).rdropWhile isBlank := rfl

theorem trimBlank_cons_of_isBlank {line : List Char} (h : isBlank line = true) :
    trimBlank (line :: ls) = trimBlank ls := by
  rw [trimBlank, List.dropWhile_cons_of_pos h, trimBlank]

theorem trimBlank_append_of_isBlank {line : List Char} (h : isBlank line = true) :
    trimBlank (ls ++ [line]) = trimBlank ls := by
  rw [trimBlank_eq_rdropWhile, trimBlank_eq_rdropWhile, List.dropWhile_append]
  split
  · next hnil =>
    rw [List.isEmpty_iff.1 hnil, List.dropWhile_cons_of_pos h]
    rfl
  · exact List.rdropWhile_concat_pos _ _ _ h

theorem trimBlank_isInfix (ls : List (List Char)) : trimBlank ls <:+: ls :=
  (List.rdropWhile_prefix _ _).isInfix.trans (List.dropWhile_suffix _).isInfix

/-- Nothing is trimmed just if there are no blank lines at the ends. -/
theorem trimBlank_eq_self_iff : trimBlank ls = ls ↔
    (∀ line ∈ ls.head?, isBlank line = false) ∧ ∀ line ∈ ls.getLast?, isBlank line = false := by
  have hfirst : ls.dropWhile isBlank = ls ↔ ∀ line ∈ ls.head?, isBlank line = false := by
    cases ls with
    | nil => simp
    | cons line ls => simp [List.dropWhile_eq_self_iff]
  have hlast : ls.rdropWhile isBlank = ls ↔ ∀ line ∈ ls.getLast?, isBlank line = false := by
    rw [List.rdropWhile_eq_self_iff]
    cases ls with
    | nil => simp
    | cons line ls => simp [List.getLast?_eq_some_getLast]
  rw [trimBlank_eq_rdropWhile, ← hfirst, ← hlast]
  constructor
  · intro h
    have hlength : ls.length ≤ (ls.dropWhile isBlank).length := by
      calc ls.length = ((ls.dropWhile isBlank).rdropWhile isBlank).length := by rw [h]
        _ ≤ (ls.dropWhile isBlank).length := (List.rdropWhile_prefix _ _).length_le
    have hdrop := (List.dropWhile_suffix isBlank).eq_of_length_le hlength
    exact ⟨hdrop, by rwa [hdrop] at h⟩
  · rintro ⟨hdrop, hrdrop⟩
    rw [hdrop, hrdrop]

/-! ## The value -/

/-- **A text on lines of its own is settled.**  What is read of a block string that has been written
does not depend on where it stands. -/
theorem value_blockText (h : '\r' ∉ cs) {indent : List Char} (hindent : ∀ c ∈ indent, c = ' ') :
    value (Token.blockText indent cs) = settle cs := by
  have hspaces (n : Nat) : isBlank (indent.drop n) = true :=
    isBlank_of_spaces fun c hc ↦ hindent c (List.mem_of_mem_drop hc)
  have hread : unescape (Token.blockText indent cs) = '\n' :: (cs ++ '\n' :: indent) := by
    have hline (rest : List Char) : unescape ('\n' :: rest) = '\n' :: unescape rest :=
      unescape.eq_3 '\n' rest fun _ hc _ ↦ absurd hc (by decide)
    rw [Token.blockText, hline, unescape_encode_append (by simp), hline, unescape_spaces hindent]
  have hcommon : commonIndent (lines cs ++ [indent]) = commonIndent (lines cs) :=
    commonIndent_append_of_isBlank (hspaces 0)
  have htrim (n : Nat) : trimBlank ([] :: ((lines cs ++ [indent]).map (List.drop n))) =
      trimBlank ((lines cs).map (List.drop n)) := by
    rw [trimBlank_cons_of_isBlank rfl, List.map_append, List.map_singleton,
      trimBlank_append_of_isBlank (hspaces n)]
  rw [value, hread, lines_on_lines h hindent, dedent, hcommon, htrim, settle]

/-- Lines that lose nothing with their common indentation have none. -/
theorem commonIndent_eq_zero_of_map_drop (h : ls.map (List.drop (commonIndent ls)) = ls) :
    commonIndent ls = 0 := by
  by_contra hpos
  have hempty (line : List Char) (hline : line ∈ ls) : line = [] := by
    have hdrop : line.drop (commonIndent ls) = line := by
      have hmap : ls.map (List.drop (commonIndent ls)) = ls.map id := by rw [h, List.map_id]
      exact List.map_inj_left.1 hmap line hline
    have hlength := congrArg List.length hdrop
    rw [List.length_drop] at hlength
    exact List.eq_nil_of_length_eq_zero (by omega)
  have hnone : ls.filterMap indent? = [] := by
    refine List.filterMap_eq_nil_iff.2 fun line hline ↦ ?_
    rw [hempty line hline]
    rfl
  exact hpos (by rw [commonIndent, hnone]; rfl)

/-- The lines of a settled text are those that are left of the text, if any are. -/
theorem splitOn_settle (h : '\r' ∉ cs) (hne : settle cs ≠ []) :
    (settle cs).splitOn '\n' =
      trimBlank ((lines cs).map (List.drop (commonIndent (lines cs)))) := by
  have hnil : trimBlank ((lines cs).map (List.drop (commonIndent (lines cs)))) ≠ [] := by
    intro hnil
    rw [settle, hnil] at hne
    exact hne rfl
  have hlines : ∀ line ∈ trimBlank ((lines cs).map (List.drop (commonIndent (lines cs)))),
      '\n' ∉ line := by
    intro line hline hmem
    obtain ⟨line', hline', rfl⟩ := List.mem_map.1 ((trimBlank_isInfix _).subset hline)
    rw [lines_eq_splitOn h] at hline'
    exact not_mem_of_mem_splitOn hline' (List.mem_of_mem_drop hmem)
  rw [settle, unlines_eq_intercalate, List.splitOn_intercalate '\n' hlines hnil]

/-- **Only settled texts stay as they are.** -/
theorem settle_eq_self_iff (h : '\r' ∉ cs) (hne : cs ≠ []) : settle cs = cs ↔ IsSettled cs := by
  constructor
  · intro hsettle
    have htrim : trimBlank ((lines cs).map (List.drop (commonIndent (lines cs)))) = lines cs := by
      rw [← splitOn_settle h (by rwa [hsettle]), hsettle, lines_eq_splitOn h]
    -- No line may be trimmed, so no line may be shortened either.
    have hmap : (lines cs).map (List.drop (commonIndent (lines cs))) = lines cs := by
      have hlength : ((lines cs).map (List.drop (commonIndent (lines cs)))).length ≤
          (trimBlank ((lines cs).map (List.drop (commonIndent (lines cs))))).length := by
        rw [htrim, List.length_map]
      rw [← (trimBlank_isInfix _).eq_of_length_le hlength, htrim]
    rw [hmap] at htrim
    obtain ⟨hfirst, hlast⟩ := trimBlank_eq_self_iff.1 htrim
    exact ⟨hfirst, hlast, commonIndent_eq_zero_of_map_drop hmap⟩
  · rintro ⟨hfirst, hlast, hflush⟩
    have hmap : (lines cs).map (List.drop 0) = lines cs := List.map_id'' (fun _ ↦ rfl) _
    rw [settle, hflush, hmap, trimBlank_eq_self_iff.2 ⟨hfirst, hlast⟩, unlines_lines h]

end Block
end TypeFootprint
