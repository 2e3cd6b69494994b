import TypeFootprint.Proofs.Token.Strings

/-!
# Texts that have these tokens or none

`ScansOnly cs ts` says that `ts` are the tokens of `cs`, unless no text that starts with `cs` has
tokens at all.  It is what is left of `scanClosed cs = some ts` where a part of the text may be
refused, and it is put together in the same way: if the whole text has tokens, they are those of
its parts (`ScansOnly.eq_of_scan`).

What may be refused is a quoted string that holds a carriage return (`scansOnly_quoted`).
-/

set_option autoImplicit false

namespace TypeFootprint
namespace Token

/-- The tokens of a text that leaves no comment open, unless the text is refused whatever follows
it. -/
def ScansOnly (cs : List Char) (ts : List Token) : Prop :=
  run .between cs = none ∨ scanClosed cs = some ts

theorem scansOnly_of_scanClosed {cs : List Char} {ts : List Token} (h : scanClosed cs = some ts) :
    ScansOnly cs ts := .inr h

/-- A text that has tokens has these. -/
theorem ScansOnly.eq_of_scan {cs : List Char} {ts us : List Token} (h : ScansOnly cs ts)
    (hs : scan cs = some us) : us = ts := by
  obtain hnone | hts := h
  · rw [scan, hnone] at hs
    cases hs
  · rw [scan_of_scanClosed hts] at hs
    exact (Option.some.inj hs).symm

theorem run_append_eq_none {m : Mode} {cs : List Char} (h : run m cs = none) (ds : List Char) :
    run m (cs ++ ds) = none := by
  rw [run_append, h]
  rfl

/-- A text that starts apart is refused behind another one if it is refused by itself. -/
theorem run_append_eq_none_of_right {cs ds : List Char} {ts : List Token}
    (hc : scanClosed cs = some ts) (hd : run .between ds = none) (h : StartsApart ds) :
    run .between (cs ++ ds) = none := by
  simp only [scanClosed, Option.bind_eq_bind, Option.bind_eq_some_iff] at hc
  obtain ⟨⟨ts₁, m⟩, hrun, us, hfin, -⟩ := hc
  cases ds with
  | nil => cases hd
  | cons d ds =>
    rw [run_append, hrun]
    simp only [Option.bind_eq_bind, Option.bind_some, run_of_finishClosed hfin (h d rfl), hd,
      Option.map_none, Option.bind_none]

/-- The tokens of two texts, one after the other, if the second starts apart. -/
theorem ScansOnly.append {cs ds : List Char} {ts us : List Token} (hc : ScansOnly cs ts)
    (hd : ScansOnly ds us) (h : StartsApart ds) : ScansOnly (cs ++ ds) (ts ++ us) := by
  obtain hc | hc := hc
  · exact .inl (run_append_eq_none hc ds)
  · obtain hd | hd := hd
    · exact .inl (run_append_eq_none_of_right hc hd h)
    · exact .inr (scanClosed_append hc hd h)

theorem run_append_eq_none_of_run {cs ds : List Char} {ts : List Token}
    (hc : run .between cs = some (ts, .between)) (hd : run .between ds = none) :
    run .between (cs ++ ds) = none := by
  rw [run_append, hc]
  simp only [hd, Option.bind_eq_bind, Option.bind_some, Option.bind_none]

/-- A text whose last token is finished leaves the rest of the text as it is. -/
theorem ScansOnly.append_of_run {cs ds : List Char} {ts us : List Token} (hd : ScansOnly ds us)
    (hc : run .between cs = some (ts, .between)) : ScansOnly (cs ++ ds) (ts ++ us) := by
  obtain hd | hd := hd
  · exact .inl (run_append_eq_none_of_run hc hd)
  · exact .inr (scanClosed_append_of_run hc hd)

/-- A character that is finished at once leaves the rest of the text as it is. -/
theorem ScansOnly.cons {c : Char} {cs : List Char} {ts us : List Token}
    (hs : ScansOnly cs us) (hc : start c = some (ts, .between)) :
    ScansOnly (c :: cs) (ts ++ us) := hs.append_of_run (run_singleton hc)

/-- A character that is a token by itself. -/
theorem ScansOnly.token_cons {c : Char} {cs : List Char} {t : Token} {us : List Token}
    (hs : ScansOnly cs us) (hc : start c = some ([t], .between)) : ScansOnly (c :: cs) (t :: us) :=
  hs.cons hc

theorem ScansOnly.space_cons {cs : List Char} {ts : List Token} (h : ScansOnly cs ts) :
    ScansOnly (' ' :: cs) ts := by
  have hspace : start ' ' = some ([], .between) := rfl
  exact h.cons hspace

theorem ScansOnly.newline_cons {cs : List Char} {ts : List Token} (h : ScansOnly cs ts) :
    ScansOnly ('\n' :: cs) ts := by
  have hnewline : start '\n' = some ([], .between) := rfl
  exact h.cons hnewline

/-- The tokens of a name and of what stands apart behind it. -/
theorem ScansOnly.name_append {cs : List Char} {ts : List Token} (h : ScansOnly cs ts) (n : Name)
    (hc : StartsApart cs) : ScansOnly (n.toList ++ cs) (.name n :: ts) :=
  (scansOnly_of_scanClosed (scanClosed_name n)).append h hc

/-! ## Quoted strings -/

/-- A carriage return is not escaped, and it may not stand in a quoted string. -/
theorem run_encode_eq_none {cs : List Char} (h : ¬IsQuotable cs) (read : List Char) :
    run (.quoted false read) (Quoted.encode cs) = none := by
  induction cs generalizing read with
  | nil => exact absurd (fun c hc ↦ by cases hc) h
  | cons c cs ih =>
    by_cases hc : c = '\r'
    · subst hc
      rfl
    · have ih := ih fun hcs ↦ h (List.forall_mem_cons.2 ⟨hc, hcs⟩)
      rw [Quoted.encode]
      split
      · simp [run, step, stepQuoted, isLineEnd, ih]
      · next hb =>
        split
        · simp [run, step, stepQuoted, isLineEnd, ih]
        · next hq =>
          split
          · simp [run, step, stepQuoted, isLineEnd, ih]
          · next hn =>
            have hl : isLineEnd c = false := by simp [isLineEnd, hn, hc]
            simp [run, step, stepQuoted_of_ne hl hq hb, ih]

theorem run_quoted_eq_none {cs : List Char} (h : ¬IsQuotable cs) :
    run .between ('"' :: (Quoted.encode cs ++ ['"'])) = none := by
  have hne : Quoted.encode cs ≠ [] := by
    intro hnil
    have := run_encode_eq_none h []
    rw [hnil] at this
    cases this
  have hstart : step .between '"' = some ([], .quotes false) := rfl
  have hrun : run (.quotes false) (Quoted.encode cs) = none := by
    rw [run_quotes_of_head hne (head?_encode_ne_quote cs), run_encode_eq_none h]
  simp only [run, hstart, run_append_eq_none hrun, Option.bind_eq_bind, Option.bind_some,
    Option.bind_none]

/-- A quoted string is one token, or it is refused. -/
theorem scansOnly_quoted (cs : List Char) :
    ScansOnly ('"' :: (Quoted.encode cs ++ ['"'])) [.string (String.ofList cs)] := by
  by_cases h : IsQuotable cs
  · exact .inr (scanClosed_quoted h)
  · exact .inl (run_quoted_eq_none h)

end Token
end TypeFootprint
