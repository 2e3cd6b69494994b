import TypeFootprint.Proofs.Token.Acceptance

/-!
# Texts that are the same tokens in front of every other text

`Spells cs ts` says that `cs` is the tokens `ts`, complete, whatever text stands behind it.  Two such
texts, one after the other, are such a text (`Spells.append`), so a text may be taken to pieces at
the ends of its tokens.  A quoted string is one (`spells_quoted`), and so is a block string
(`spells_block`).
-/

set_option autoImplicit false

namespace TypeFootprint
namespace Token

variable {cs ds : List Char} {ts us : List Token}

/-- The characters `cs` are the tokens `ts`, whatever stands behind them.  A quote may not stand
there: it makes an empty string the start of a block string. -/
def Spells (cs : List Char) (ts : List Token) : Prop :=
  ∀ ds : List Char, ds.head? ≠ some '"' → scan (cs ++ ds) = (scan ds).map (ts ++ ·)

theorem Spells.scan_eq (h : Spells cs ts) : scan cs = some ts := by
  have hnil := h [] (by simp)
  rwa [List.append_nil, show scan [] = some [] from rfl, Option.map_some, List.append_nil] at hnil

/-- The tokens of a text are determined by it. -/
theorem Spells.eq (h : Spells cs ts) (h' : Spells cs us) : ts = us :=
  Option.some.inj (h.scan_eq.symm.trans h'.scan_eq)

/-! ## Texts that are put together -/

theorem map_append_map_append (o : Option (List Token)) :
    (o.map (us ++ ·)).map (ts ++ ·) = o.map (ts ++ us ++ ·) := by
  cases o with
  | none => rfl
  | some vs => simp only [Option.map_some, List.append_assoc]

/-- Behind a text, the next character ends the last token and goes on as if it stood alone. -/
theorem scan_append_of_step {m : Mode} (hrun : run .between cs = some (ts, m))
    (hfinish : finish m = some us)
    (hstep : ∀ d ∈ ds.head?, step m d = (start d).map fun r ↦ (us ++ r.1, r.2)) :
    scan (cs ++ ds) = (scan ds).map (ts ++ us ++ ·) := by
  cases ds with
  | nil =>
    have hnil : scan [] = some [] := rfl
    rw [List.append_nil, hnil, scan, hrun]
    simp only [hfinish, Option.bind_eq_bind, Option.bind_some, Option.map_some, List.append_nil]
  | cons d ds =>
    rw [scan, run_append, hrun, scan]
    simp only [Option.bind_eq_bind, Option.bind_some, run_of_step (hstep d rfl)]
    cases run .between (d :: ds) with
    | none => rfl
    | some r =>
      simp only [Option.map_some, Option.bind_some]
      cases finish r.2 with
      | none => rfl
      | some vs => simp only [Option.bind_some, Option.map_some, List.append_assoc]

/-- A text whose last token is finished with its last character. -/
theorem scan_append_of_run (h : run .between cs = some (ts, .between)) (ds : List Char) :
    scan (cs ++ ds) = (scan ds).map (ts ++ ·) := by
  have hstep (d : Char) : step .between d = (start d).map fun r ↦ ([] ++ r.1, r.2) := by
    rw [step]
    cases start d <;> rfl
  have hfinish : finish .between = some [] := rfl
  rw [scan_append_of_step h hfinish fun d _ ↦ hstep d, List.append_nil]

theorem spells_of_run (h : run .between cs = some (ts, .between)) : Spells cs ts :=
  fun ds _ ↦ scan_append_of_run h ds

theorem Spells.append (hc : Spells cs ts) (hd : Spells ds us) (hq : ds.head? ≠ some '"') :
    Spells (cs ++ ds) (ts ++ us) := by
  intro es hes
  have hq' : (ds ++ es).head? ≠ some '"' := by
    cases ds with
    | nil => exact hes
    | cons d ds => exact hq
  rw [List.append_assoc, hc _ hq', hd _ hes, map_append_map_append]

/-- Behind a text whose last token is finished, a quote may stand, too. -/
theorem Spells.append_of_run (hc : run .between cs = some (ts, .between)) (hd : Spells ds us) :
    Spells (cs ++ ds) (ts ++ us) := by
  intro es hes
  rw [List.append_assoc, scan_append_of_run hc, hd _ hes, map_append_map_append]

/-- A text on a line of its own, indented. -/
theorem Spells.on_line (h : Spells cs ts) {indent : List Char} (hindent : ∀ c ∈ indent, c = ' ') :
    Spells (indent ++ (cs ++ ['\n'])) ts := by
  have hnewline : Spells ['\n'] [] := spells_of_run rfl
  have hline := (h.append hnewline (by decide)).append_of_run (run_spaces hindent)
  rwa [List.nil_append, List.append_nil] at hline

/-! ## Texts that are refused -/

theorem scan_append_eq_none (h : run .between cs = none) (ds : List Char) :
    scan (cs ++ ds) = none := by
  rw [scan, run_append_eq_none h]
  rfl

theorem not_spells_of_run (h : run .between cs = none) : ¬Spells cs ts := by
  intro hs
  have hnone := scan_append_eq_none h []
  rw [List.append_nil, hs.scan_eq] at hnone
  cases hnone

/-! ## Strings -/

/-- Two quotes are an empty string unless a third one follows. -/
theorem spells_quotes : Spells ['"', '"'] [.string ""] := by
  intro ds hds
  have hrun : run .between ['"', '"'] = some ([], .quotes true) := rfl
  have hempty : ofQuoted? [] = some (.string "") := rfl
  have hfinish : finish (.quotes true) = some [.string ""] := rfl
  refine scan_append_of_step hrun hfinish fun d hd ↦ ?_
  have hne : d ≠ '"' := by
    rintro rfl
    exact hds hd
  rw [step, if_neg hne, hempty, endWith]
  cases start d <;> rfl

/-- What has been encoded is one token between two quotes, unless it holds a carriage return. -/
theorem spells_quoted (h : IsQuotable cs) :
    Spells ('"' :: (Quoted.encode cs ++ ['"'])) [.string (String.ofList cs)] := by
  by_cases hnil : Quoted.encode cs = []
  · have hcs : cs = [] := by
      have hdecode := Quoted.decode_encode cs
      rw [hnil] at hdecode
      exact (Option.some.inj hdecode).symm
    subst hcs
    exact spells_quotes
  · exact spells_of_run (run_quoted h hnil)

/-- A block string on lines of its own is one token. -/
theorem spells_block {indent : List Char} (h : ∀ c ∈ indent, c = ' ') (cs : List Char) :
    Spells (['"', '"', '"'] ++ blockText indent cs ++ ['"', '"', '"'])
      [.string (String.ofList (Block.value (blockText indent cs)))] :=
  spells_of_run (run_block h cs)

end Token
end TypeFootprint
