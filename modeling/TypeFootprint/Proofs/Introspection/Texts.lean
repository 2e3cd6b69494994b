import TypeFootprint.Proofs.Introspection.Items
import TypeFootprint.Proofs.Token.BlockValue
import TypeFootprint.Proofs.Token.Prefixes

/-!
# Which texts survive being written and read

`ReadsBack p cs a` says that the characters `cs` are tokens, complete, in front of every other text,
and that the parser `p` reads them as `a`.

* A text between quotes is read back just if it has no carriage return: it is the one character
  that may not stand there and is not escaped (`readsBack_quoted_iff`).  With one the whole schema is
  refused.
* A text of several lines, in a block string, is read back just if it is settled
  (`readsBack_block_iff`).  Indentation that all its lines share and blank lines at its ends are
  taken for those of the block string, and lost with them.
-/

set_option autoImplicit false

namespace TypeFootprint.Introspection

open TypeFootprint.Token TypeFootprint.Parser

/-- The characters `cs` are complete tokens that `p` reads as `a`. -/
def ReadsBack {α : Type} (p : Parser α) (cs : List Char) (a : α) : Prop :=
  ∃ ts, Spells cs ts ∧ Reads endsItem p ts a

variable {α : Type} {p : Parser α} {a : α} {cs pre post indent : List Char} {ts us vs : List Token}
  {text : String}

theorem isQuotable_iff : IsQuotable cs ↔ '\r' ∉ cs :=
  ⟨fun h hmem ↦ h _ hmem rfl, fun h _ hc hr ↦ h (hr ▸ hc)⟩

/-! ## Quoted strings -/

theorem spells_quotedText (h : '\r' ∉ text.toList) : Spells (quoted text) [.string text] := by
  have hquoted := spells_quoted (isQuotable_iff.2 h)
  rwa [String.ofList_toList] at hquoted

theorem run_quotedText_eq_none (h : '\r' ∈ text.toList) : run .between (quoted text) = none :=
  run_quoted_eq_none fun hq ↦ isQuotable_iff.1 hq h

/-- A text between quotes is refused if it has a carriage return, whatever stands around it. -/
theorem run_framed_eq_none (hpre : run .between pre = some (ts, .between))
    (h : '\r' ∈ text.toList) (post : List Char) :
    run .between (pre ++ (quoted text ++ post)) = none :=
  run_append_eq_none_of_run hpre (run_append_eq_none (run_quotedText_eq_none h) post)

/-- Something that is written around a text between quotes is read back just if the text has no
carriage return. -/
theorem readsBack_framed_iff (hpre : run .between pre = some (ts, .between)) (hpost : Spells post us)
    (hq : post.head? ≠ some '"') (hreads : Reads endsItem p (ts ++ (.string text :: us)) a) :
    ReadsBack p (pre ++ (quoted text ++ post)) a ↔ '\r' ∉ text.toList := by
  constructor
  · rintro ⟨vs, hspells, -⟩ hmem
    exact not_spells_of_run (run_framed_eq_none hpre hmem post) hspells
  · intro h
    have hquoted : Spells (quoted text ++ post) (.string text :: us) :=
      (spells_quotedText h).append hpost hq
    exact ⟨_, hquoted.append_of_run hpre, hreads⟩

theorem reads_takeString (text : String) :
    Reads endsItem takeString [.string text] (some text) := fun _ _ ↦ rfl

theorem reads_deprecation (text : String) :
    Reads endsItem (outerDirectives true) (deprecationTokens true (some text))
      (deprecation true (some text)) :=
  fun _ hrest ↦ outerDirectives_deprecation true (some text) rfl hrest

/-- **Texts between quotes are read back, but for carriage returns.**  A text between quotes is one
string token with the text as its value, and so a description of one line and the reason of a
deprecation are read back exactly, if and only if the text has no carriage return.  If it has one,
no text that starts with it has tokens. -/
theorem readsBack_quoted_iff (text : String) (hindent : ∀ c ∈ indent, c = ' ') :
    (Spells (quoted text) [.string text] ↔ '\r' ∉ text.toList) ∧
    ('\n' ∉ text.toList →
      (ReadsBack takeString (descriptionChars indent (some text)) (some text) ↔
        '\r' ∉ text.toList)) ∧
    (ReadsBack (outerDirectives true) (deprecationChars true (some text))
        (deprecation true (some text)) ↔ '\r' ∉ text.toList) ∧
    ('\r' ∈ text.toList → ∀ ds, scan (quoted text ++ ds) = none) := by
  refine ⟨⟨fun hspells hmem ↦ ?_, spells_quotedText⟩, fun hline ↦ ?_, ?_,
    fun hmem ds ↦ scan_append_eq_none (run_quotedText_eq_none hmem) ds⟩
  · exact not_spells_of_run (run_quotedText_eq_none hmem) hspells
  · have hnewline : Spells ['\n'] [] := spells_of_run rfl
    rw [(descriptionChars_line hline indent).1]
    exact readsBack_framed_iff (run_spaces hindent) hnewline (by decide) (reads_takeString text)
  · have hclose : Spells [')'] [.punctuator .parenClose] := spells_of_run rfl
    rw [deprecationChars_reason]
    exact readsBack_framed_iff run_beforeReason hclose (by decide) (reads_deprecation text)

/-- A remark with quotes and a backslash. -/
def remark : String := "She said \"C:\\\" and left."

theorem readsBack_quoted_iff_remark :
    (∀ c ∈ itemIndent, c = ' ') ∧ Spells (quoted remark) [.string remark] ∧
      ReadsBack takeString (descriptionChars itemIndent (some remark)) (some remark) ∧
      ReadsBack (outerDirectives true) (deprecationChars true (some remark))
        (deprecation true (some remark)) := by
  have hreturn : '\r' ∉ remark.toList := by decide +kernel
  have hline : '\n' ∉ remark.toList := by decide +kernel
  obtain ⟨htoken, hdescription, hreason, -⟩ :=
    readsBack_quoted_iff remark eq_space_of_mem_itemIndent
  exact ⟨eq_space_of_mem_itemIndent, htoken.2 hreturn, (hdescription hline).2 hreturn,
    hreason.2 hreturn⟩

/-- A carriage return between two words. -/
theorem not_readsBack_carriageReturn :
    ¬Spells (quoted "a\rb") [.string "a\rb"] ∧
      ¬ReadsBack takeString (descriptionChars [] (some "a\rb")) (some "a\rb") ∧
      ¬ReadsBack (outerDirectives true) (deprecationChars true (some "a\rb"))
        (deprecation true (some "a\rb")) := by
  have hreturn : '\r' ∈ "a\rb".toList := by decide +kernel
  have hline : '\n' ∉ "a\rb".toList := by decide +kernel
  refine ⟨not_spells_of_run (run_quotedText_eq_none hreturn), ?_, ?_⟩
  · rintro ⟨ts, hspells, -⟩
    rw [(descriptionChars_line hline []).1] at hspells
    exact not_spells_of_run (run_framed_eq_none (run_spaces (by simp)) hreturn _) hspells
  · rintro ⟨ts, hspells, -⟩
    rw [deprecationChars_reason] at hspells
    exact not_spells_of_run (run_framed_eq_none run_beforeReason hreturn _) hspells

/-! ## Block strings -/

/-- A description of several lines is one string token, with the settled text as its value. -/
theorem spells_description_lines (hindent : ∀ c ∈ indent, c = ' ') (hline : '\n' ∈ text.toList)
    (hreturn : '\r' ∉ text.toList) :
    Spells (descriptionChars indent (some text))
      [.string (String.ofList (Block.settle text.toList))] := by
  rw [(descriptionChars_lines hline indent).1, ← Block.value_blockText hreturn hindent]
  exact (spells_block hindent text.toList).on_line hindent

/-- Of one string token its value is read. -/
theorem readsBack_string_iff {value : String} (h : Spells cs [.string value]) :
    ReadsBack takeString cs (some text) ↔ value = text := by
  constructor
  · rintro ⟨ts, hspells, hreads⟩
    obtain rfl := h.eq hspells
    have hread := hreads [] (by simp [Follows])
    have htake : takeString ([.string value] ++ []) = some (some value, []) := rfl
    rw [htake] at hread
    exact Option.some.inj (Prod.mk.inj (Option.some.inj hread)).1
  · rintro rfl
    exact ⟨_, h, reads_takeString value⟩

theorem ofList_eq_iff : String.ofList cs = text ↔ cs = text.toList := by
  rw [← String.toList_inj, String.toList_ofList]

/-- **Texts of several lines are read back if they are settled.**  A description of several lines,
without carriage returns, is one string token wherever it stands.  What is read of it is the text
without the indentation that all its lines share and without blank lines at its ends, and so the
text itself if and only if it has none of these. -/
theorem readsBack_block_iff (hindent : ∀ c ∈ indent, c = ' ') (hline : '\n' ∈ text.toList)
    (hreturn : '\r' ∉ text.toList) :
    Spells (descriptionChars indent (some text))
      [.string (String.ofList (Block.settle text.toList))] ∧
    (ReadsBack takeString (descriptionChars indent (some text)) (some text) ↔
      Block.IsSettled text.toList) := by
  have hspells := spells_description_lines hindent hline hreturn
  refine ⟨hspells, ?_⟩
  rw [readsBack_string_iff hspells, ofList_eq_iff,
    Block.settle_eq_self_iff hreturn (List.ne_nil_of_mem hline)]

/-- A list of steps, one of which has a remark that is indented further, with quotes. -/
def steps : String := "1. Open it.\n   Say \"\"\"sesame\"\"\".\n\n2. Go in."

theorem readsBack_block_iff_steps :
    (∀ c ∈ itemIndent, c = ' ') ∧ '\n' ∈ steps.toList ∧ '\r' ∉ steps.toList ∧
      Spells (descriptionChars itemIndent (some steps))
        [.string (String.ofList (Block.settle steps.toList))] ∧
      ReadsBack takeString (descriptionChars itemIndent (some steps)) (some steps) := by
  have hline : '\n' ∈ steps.toList := by decide +kernel
  have hreturn : '\r' ∉ steps.toList := by decide +kernel
  have hsettled : Block.IsSettled steps.toList := by decide +kernel
  obtain ⟨hspells, hreads⟩ := readsBack_block_iff eq_space_of_mem_itemIndent hline hreturn
  exact ⟨eq_space_of_mem_itemIndent, hline, hreturn, hspells, hreads.2 hsettled⟩

/-- Two lines that start with two spaces each. -/
def shifted : String := "  a\n  b"

/-- The spaces are lost, at the top of a schema and inside a type. -/
theorem not_readsBack_shifted :
    '\n' ∈ shifted.toList ∧ '\r' ∉ shifted.toList ∧
      ¬ReadsBack takeString (descriptionChars [] (some shifted)) (some shifted) ∧
      ¬ReadsBack takeString (descriptionChars itemIndent (some shifted)) (some shifted) := by
  have hline : '\n' ∈ shifted.toList := by decide +kernel
  have hreturn : '\r' ∉ shifted.toList := by decide +kernel
  have hsettle : Block.settle shifted.toList ≠ shifted.toList := by decide +kernel
  have hlost (indent : List Char) (hindent : ∀ c ∈ indent, c = ' ') :
      ¬ReadsBack takeString (descriptionChars indent (some shifted)) (some shifted) := by
    intro hreads
    have hspells := spells_description_lines hindent hline hreturn
    exact hsettle (ofList_eq_iff.1 ((readsBack_string_iff hspells).1 hreads))
  exact ⟨hline, hreturn, hlost [] (by simp), hlost itemIndent eq_space_of_mem_itemIndent⟩

end TypeFootprint.Introspection
