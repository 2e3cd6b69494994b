import TypeFootprint.CommandLine.Program
import TypeFootprint.Proofs.Json.RoundTrip

/-!
# The report is one line and loses nothing

Names may be forced, and then they are arbitrary texts, with quotes, backslashes and line breaks.

* `isOneLine_report` — no control character below the space is left in what is written for names,
  and so no line break;
* `parse_reportValue` — what is written is read again as an object with one key, and under it the
  same names in the same order;
* `parse_report` — both together, for the output of the program.
-/

set_option autoImplicit false

namespace TypeFootprint

/-- No control character below the space is in a text. -/
def IsOneLine (cs : List Char) : Prop := ∀ c ∈ cs, 0x20 ≤ c.toNat

theorem IsOneLine.append {cs ds : List Char} (hc : IsOneLine cs) (hd : IsOneLine ds) :
    IsOneLine (cs ++ ds) := List.forall_mem_append.2 ⟨hc, hd⟩

theorem IsOneLine.cons {c : Char} {cs : List Char} (hc : 0x20 ≤ c.toNat) (hcs : IsOneLine cs) :
    IsOneLine (c :: cs) := List.forall_mem_cons.2 ⟨hc, hcs⟩

theorem IsOneLine.flatMap {α : Type} {f : α → List Char} {as : List α}
    (h : ∀ a ∈ as, IsOneLine (f a)) : IsOneLine (as.flatMap f) := by
  intro c hc
  obtain ⟨a, ha, hc⟩ := List.mem_flatMap.1 hc
  exact h a ha c hc

theorem IsOneLine.newline_not_mem {cs : List Char} (h : IsOneLine cs) : '\n' ∉ cs :=
  fun hmem ↦ absurd (h _ hmem) (by decide)

namespace Json

theorem hexChar_ge {n : Nat} (h : n < 16) : 0x20 ≤ (hexChar n).toNat := by
  have hall : ∀ m : Fin 16, 0x20 ≤ (hexChar m).toNat := by decide
  exact hall ⟨n, h⟩

/-- A control character is escaped, and its escape consists of other characters. -/
theorem isOneLine_escapeChar (c : Char) : IsOneLine (escapeChar c) := by
  rw [escapeChar]
  iterate 7
    split
    · simp [IsOneLine]
  split
  · have hhigh := hexChar_ge (n := c.toNat / 16) (by omega)
    have hlow := hexChar_ge (n := c.toNat % 16) (by omega)
    simp [IsOneLine, hhigh, hlow]
  · next hc => simpa [IsOneLine] using hc

theorem isOneLine_quoteChars (text : List Char) : IsOneLine (quoteChars text) :=
  .cons (by decide) ((IsOneLine.flatMap fun c _ ↦ isOneLine_escapeChar c).append (by
    simp [IsOneLine]))

theorem isOneLine_commas {parts : List (List Char)} (h : ∀ part ∈ parts, IsOneLine part) :
    IsOneLine (commas parts) := by
  induction parts with
  | nil => simp [commas, IsOneLine]
  | cons part parts ih =>
    obtain ⟨hpart, hparts⟩ := List.forall_mem_cons.1 h
    cases parts with
    | nil => exact hpart
    | cons next rest => exact hpart.append (.cons (by decide) (ih hparts))

end Json

/-- The report of whatever names has no control character below the space. -/
theorem isOneLine_report (names : List String) : IsOneLine (report names).toList := by
  have hitems : IsOneLine (Json.array (names.map Json.string)).chars := by
    rw [Json.chars, Json.itemParts_eq_map, List.map_map]
    refine .cons (by decide) ((Json.isOneLine_commas fun part hpart ↦ ?_).append (by
      simp [IsOneLine]))
    obtain ⟨name, -, rfl⟩ := List.mem_map.1 hpart
    exact Json.isOneLine_quoteChars _
  rw [report, Json.compact, String.toList_ofList]
  exact .cons (by decide) ((Json.isOneLine_commas (List.forall_mem_singleton.2
    ((Json.isOneLine_quoteChars _).append (.cons (by decide) hitems)))).append (by
      simp [IsOneLine]))

/-! ## Reading the report -/

/-- The report is nested two levels deep, and it has no numbers. -/
theorem readable_reportValue (names : List String) :
    Json.Readable Json.maxDepth (reportValue names) := by
  refine .object (List.pairwise_singleton _ "types") (List.forall_mem_singleton.2 (.array ?_))
  exact List.forall_mem_map.2 fun name _ ↦ .string _ name

/-- The one member of the report is in order. -/
theorem sorted_reportValue (names : List String) :
    (reportValue names).sorted = reportValue names := by
  have hitems : (Json.array (names.map Json.string)).sorted = .array (names.map Json.string) := by
    rw [Json.sorted, Json.sortedItems_eq_map, List.map_map]
    rfl
  rw [reportValue, Json.sorted, Json.sortedMembers, hitems]
  rfl

theorem parse_reportValue (names : List String) :
    Json.parse (report names) = .ok (reportValue names) := by
  rw [report, Json.parse_compact (readable_reportValue names), sorted_reportValue]

/-- **The report is one line and loses nothing.**  It has no character below the space, and reading
it as JSON gives an object with the single key `types` and under it the names, whatever they are.
In the output of the program only a line end follows. -/
theorem parse_report (names : List String) :
    (∀ c ∈ (report names).toList, 0x20 ≤ c.toNat) ∧
    Json.parse (report names) = .ok (.object [("types", .array (names.map Json.string))]) ∧
    ∀ colored, (Outcome.ofResult colored (.ok names)).output.toList.splitOn '\n' =
      [(report names).toList, []] := by
  refine ⟨isOneLine_report names, parse_reportValue names, fun colored ↦ ?_⟩
  have hnewline : '\n' ∉ (report names).toList := (isOneLine_report names).newline_not_mem
  have houtput : (Outcome.ofResult colored (.ok names)).output.toList =
      (report names).toList ++ ['\n'] := String.toList_append
  rw [houtput, List.splitOn_append_cons_self_of_not_mem hnewline, List.splitOn_nil]

/-- A name with a quote, a backslash, a line break and another control character. -/
example : (report ["a\"\\\n\x01", "é"]).toList =
    "\x7b\"types\":[\"a\\\"\\\\\\n\\u0001\",\"é\"]\x7d".toList := by decide +kernel

end TypeFootprint
