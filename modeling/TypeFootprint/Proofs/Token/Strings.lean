import TypeFootprint.Proofs.Token.Spelling

/-!
# Strings that have been written

What `Quoted.encode` writes is read back as it was (`decode_encode`), and the quote after it is the
one that ends the string.  What `Block.encode` writes holds no three quotes that would end a block
string: `BlockEnd.Keeps` is the invariant that the scanner and the writer maintain together.
-/

set_option autoImplicit false

namespace TypeFootprint

namespace Quoted

theorem decode_backslash_cons (cs : List Char) :
    decode ('\\' :: '\\' :: cs) = (decode cs).map ('\\' :: ·) := by
  cases h : decode cs <;> simp [decode, Escape.letter?, h]

theorem decode_quote_cons (cs : List Char) :
    decode ('\\' :: '"' :: cs) = (decode cs).map ('"' :: ·) := by
  cases h : decode cs <;> simp [decode, Escape.letter?, h]

theorem decode_newline_cons (cs : List Char) :
    decode ('\\' :: 'n' :: cs) = (decode cs).map ('\n' :: ·) := by
  cases h : decode cs <;> simp [decode, Escape.letter?, h]

theorem decode_cons {c : Char} (hc : c ≠ '\\') (cs : List Char) :
    decode (c :: cs) = (decode cs).map (c :: ·) := by
  cases h : decode cs <;> simp [decode, h, hc]

/-- What has been encoded is read back. -/
theorem decode_encode (cs : List Char) : decode (encode cs) = some cs := by
  induction cs with
  | nil => rfl
  | cons c cs ih =>
    rw [encode]
    split
    · next h => rw [decode_backslash_cons, ih, h, Option.map_some]
    · next h =>
      split
      · next h => rw [decode_quote_cons, ih, h, Option.map_some]
      · split
        · next h => rw [decode_newline_cons, ih, h, Option.map_some]
        · rw [decode_cons h, ih, Option.map_some]

end Quoted

namespace Token

/-- No character of a text ends a line but the newline, which is escaped in quoted strings. -/
def IsQuotable (cs : List Char) : Prop := ∀ c ∈ cs, c ≠ '\r'

theorem stepQuoted_of_ne {c : Char} (hl : isLineEnd c = false) (hq : c ≠ '"') (hb : c ≠ '\\')
    (read : List Char) : stepQuoted false read c = some ([], .quoted false (c :: read)) := by
  simp [stepQuoted, hl, hq, hb]

/-- A quoted string does not end inside what has been encoded. -/
theorem run_encode {cs : List Char} (h : IsQuotable cs) (read : List Char) :
    run (.quoted false read) (Quoted.encode cs) =
      some ([], .quoted false ((Quoted.encode cs).reverse ++ read)) := by
  induction cs generalizing read with
  | nil => rfl
  | cons c cs ih =>
    have ih := ih fun d hd ↦ h d (.tail _ hd)
    rw [Quoted.encode]
    split
    · simp [run, step, stepQuoted, isLineEnd, ih]
    · next hb =>
      split
      · simp [run, step, stepQuoted, isLineEnd, ih]
      · next hq =>
        split
        · simp [run, step, stepQuoted, isLineEnd, ih]
        · next hn =>
          have hl : isLineEnd c = false := by simp [isLineEnd, hn, h c (.head _)]
          simp [run, step, stepQuoted_of_ne hl hq hb, ih]

theorem ofQuoted?_reverse_encode (cs : List Char) :
    ofQuoted? (Quoted.encode cs).reverse = some (.string (String.ofList cs)) := by
  rw [ofQuoted?, List.reverse_reverse, Quoted.decode_encode]
  rfl

/-- Between two quotes, the first character of a text that does not start with a quote is read as
all others are. -/
theorem run_quotes_of_head {cs : List Char} (hne : cs ≠ []) (hq : cs.head? ≠ some '"') :
    run (.quotes false) cs = run (.quoted false []) cs := by
  cases cs with
  | nil => exact absurd rfl hne
  | cons c cs =>
    have hc : c ≠ '"' := by simpa using hq
    rw [run, run, step, step, if_neg hc]

theorem head?_encode_ne_quote (cs : List Char) : (Quoted.encode cs).head? ≠ some '"' := by
  cases cs with
  | nil => simp [Quoted.encode]
  | cons c cs =>
    rw [Quoted.encode]
    split
    · simp
    · split
      · simp
      · next h => split <;> simp [h]

/-- A quoted string that is not empty is finished with its second quote. -/
theorem run_quoted {cs : List Char} (h : IsQuotable cs) (hne : Quoted.encode cs ≠ []) :
    run .between ('"' :: (Quoted.encode cs ++ ['"'])) =
      some ([.string (String.ofList cs)], .between) := by
  have hstart : step .between '"' = some ([], .quotes false) := rfl
  have hrun : run (.quotes false) (Quoted.encode cs) =
      some ([], .quoted false (Quoted.encode cs).reverse) := by
    rw [run_quotes_of_head hne (head?_encode_ne_quote cs), run_encode h, List.append_nil]
  have hend : step (.quoted false (Quoted.encode cs).reverse) '"' =
      some ([.string (String.ofList cs)], .between) := by
    simp [step, stepQuoted, isLineEnd, ofQuoted?_reverse_encode cs]
  simp [run, run_append, hstart, hrun, hend]

/-- A quoted string is one token. -/
theorem scanClosed_quoted {cs : List Char} (h : IsQuotable cs) :
    scanClosed ('"' :: (Quoted.encode cs ++ ['"'])) = some [.string (String.ofList cs)] := by
  by_cases hnil : Quoted.encode cs = []
  · have hd := ofQuoted?_reverse_encode cs
    rw [hnil] at hd ⊢
    simpa [scanClosed, run, step, start, isIgnored, finishClosed, finish] using hd
  · rw [scanClosed, run_quoted h hnil]
    rfl

/-! ## Block strings -/

/-- The quotes that were just read do not become three with those that the text starts with. -/
def BlockEnd.Keeps : BlockEnd → List Char → Prop
  | .quotes false, cs => ¬['"', '"'] <+: cs
  | .quotes true, cs => ¬['"'] <+: cs
  | _, _ => True

theorem run_block_escaped (e : BlockEnd) (read cs : List Char) :
    run (.block e read) ('\\' :: '"' :: '"' :: '"' :: cs) =
      run (.block .plain ('"' :: '"' :: '"' :: '\\' :: read)) cs := by
  simp only [run, step, stepBlock, BlockEnd.after, ↓reduceIte, Option.bind_eq_bind,
    Option.bind_some, Char.reduceEq]
  cases run (.block .plain ('"' :: '"' :: '"' :: '\\' :: read)) cs <;> rfl

/-- A step over one character of a text that does not start with three quotes. -/
theorem stepBlock_keeps {e : BlockEnd} {c : Char} {cs : List Char} (h : e.Keeps (c :: cs))
    (hc : ¬['"', '"', '"'] <+: c :: cs) (read : List Char) :
    ∃ e', stepBlock e read c = ([], .block e' (c :: read)) ∧ e'.Keeps cs := by
  simp only [stepBlock]
  split
  · next hq =>
    subst hq
    simp only [List.cons_prefix_cons, true_and] at hc
    cases e with
    | plain => exact ⟨.quotes false, rfl, hc⟩
    | backslash => exact ⟨.escapedQuotes false, rfl, trivial⟩
    | escapedQuotes two => cases two <;> exact ⟨_, rfl, trivial⟩
    | quotes two =>
      cases two with
      | false => exact ⟨.quotes true, rfl, by simpa [BlockEnd.Keeps, List.cons_prefix_cons] using h⟩
      | true => exact absurd (List.cons_prefix_cons.2 ⟨rfl, List.nil_prefix⟩) h
  · refine ⟨.after c, rfl, ?_⟩
    rw [BlockEnd.after]
    split <;> trivial

/-- A block string does not end inside what has been encoded. -/
theorem run_block_encode {e : BlockEnd} {cs : List Char} (h : e.Keeps cs) (read : List Char) :
    ∃ e', run (.block e read) (Block.encode cs) =
      some ([], .block e' ((Block.encode cs).reverse ++ read)) := by
  -- The writer looks at three characters at once, so the induction follows it and not the list.
  induction cs using Block.encode.induct generalizing e read with
  | case1 => exact ⟨e, rfl⟩
  | case2 cs ih =>
    obtain ⟨e', he'⟩ := ih (e := .plain) trivial ('"' :: '"' :: '"' :: '\\' :: read)
    exact ⟨e', by simp [Block.encode, run_block_escaped, he']⟩
  | case3 c cs hc ih =>
    have hpre : ¬['"', '"', '"'] <+: c :: cs := by
      rintro ⟨ds, hds⟩
      obtain ⟨rfl, rfl⟩ := List.cons.inj hds
      exact hc ds rfl rfl
    obtain ⟨e₁, hstep, hkeeps⟩ := stepBlock_keeps h hpre read
    obtain ⟨e', he'⟩ := ih hkeeps (c :: read)
    refine ⟨e', ?_⟩
    rw [Block.encode.eq_3 c cs hc, run, step, hstep]
    simp [he']

/-- A newline and spaces inside a block string leave nothing unfinished. -/
theorem run_block_line {indent : List Char} (h : ∀ c ∈ indent, c = ' ') (e : BlockEnd)
    (read : List Char) :
    run (.block e read) ('\n' :: indent) =
      some ([], .block .plain (indent.reverse ++ '\n' :: read)) := by
  have spaces (read : List Char) : run (.block .plain read) indent =
      some ([], .block .plain (indent.reverse ++ read)) := by
    induction indent generalizing read with
    | nil => rfl
    | cons c cs ih =>
      obtain rfl := h c (.head _)
      simp [run, step, stepBlock, BlockEnd.after, ih fun d hd ↦ h d (.tail _ hd)]
  simp [run, step, stepBlock, BlockEnd.after, spaces]

/-- What stands between the quotes of a block string that has been written. -/
def blockText (indent cs : List Char) : List Char :=
  '\n' :: (Block.encode cs ++ '\n' :: indent)

/-- A block string on lines of its own is finished with the last of its quotes. -/
theorem run_block {indent : List Char} (h : ∀ c ∈ indent, c = ' ') (cs : List Char) :
    run .between (['"', '"', '"'] ++ blockText indent cs ++ ['"', '"', '"']) =
      some ([.string (String.ofList (Block.value (blockText indent cs)))], .between) := by
  obtain ⟨e, hbody⟩ := run_block_encode (show BlockEnd.plain.Keeps cs from trivial) ['\n']
  have hopen : run .between ['"', '"', '"', '\n'] = some ([], .block .plain ['\n']) := rfl
  have hclose (read : List Char) : run (.block .plain read) ['"', '"', '"'] =
      some ([ofBlock read], .between) := rfl
  have hsplit : ['"', '"', '"'] ++ blockText indent cs ++ ['"', '"', '"'] =
      ['"', '"', '"', '\n'] ++ (Block.encode cs ++ ('\n' :: indent ++ ['"', '"', '"'])) := by
    simp [blockText]
  rw [hsplit, run_append, hopen]
  simp only [run_append, hbody, run_block_line h, hclose, Option.bind_eq_bind, Option.bind_some,
    ofBlock]
  simp [blockText]

/-- A block string on lines of its own is one token. -/
theorem scanClosed_block {indent : List Char} (h : ∀ c ∈ indent, c = ' ') (cs : List Char) :
    scanClosed (['"', '"', '"'] ++ blockText indent cs ++ ['"', '"', '"']) =
      some [.string (String.ofList (Block.value (blockText indent cs)))] := by
  rw [scanClosed, run_block h]
  rfl

end Token
end TypeFootprint
