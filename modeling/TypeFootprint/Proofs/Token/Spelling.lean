import TypeFootprint.Token.Scan

/-!
# Texts that are put together

`scanClosed` scans a text as `scan` does, but refuses one that leaves a comment open.  A text that
it accepts can be followed by another one: if that starts with a character that no token goes on
with, the tokens of the two together are the tokens of the one followed by the tokens of the other
(`scanClosed_append`).

The tokens of names, of single marks and of spaces are found here.
-/

set_option autoImplicit false

namespace TypeFootprint

theorem isNameContinue_of_isNameStart {c : Char} (h : isNameStart c = true) :
    isNameContinue c = true := by
  rw [isNameStart, Bool.or_eq_true] at h
  rw [isNameContinue, Bool.or_eq_true, Char.isAlphanum, Bool.or_eq_true]
  exact h.imp_left .inl

/-- The first character of a name, and the others. -/
theorem Name.exists_toList_eq_cons (n : Name) :
    ∃ c cs, n.toList = c :: cs ∧ isNameStart c = true ∧ cs.all isNameContinue = true := by
  have hvalid : isName n.toList = true := n.valid
  cases hn : n.toList with
  | nil =>
    rw [hn] at hvalid
    cases hvalid
  | cons c cs =>
    rw [hn, isName, Bool.and_eq_true] at hvalid
    exact ⟨c, cs, rfl, hvalid⟩

namespace Token

/-- The tokens that the end of a text completes, unless a comment is open there. -/
def finishClosed : Mode → Option (List Token)
  | .comment => none
  | m => finish m

/-- The tokens of a text that leaves no comment open. -/
def scanClosed (cs : List Char) : Option (List Token) := do
  let (ts, m) ← run .between cs
  let us ← finishClosed m
  some (ts ++ us)

/-- Whether no unfinished token goes on with this character. -/
def isApart (c : Char) : Bool :=
  !(isNameContinue c || c == '.' || c == '+' || c == '-' || c == '"')

/-- A text that is empty or starts with a character that no unfinished token goes on with. -/
def StartsApart (cs : List Char) : Prop := ∀ c ∈ cs.head?, isApart c = true

theorem startsApart_nil : StartsApart [] := by simp [StartsApart]

theorem startsApart_cons {c : Char} {cs : List Char} (h : isApart c = true) :
    StartsApart (c :: cs) := by
  intro d hd
  obtain rfl : c = d := by simpa using hd
  exact h

theorem StartsApart.append {cs ds : List Char} (hc : StartsApart cs) (hd : StartsApart ds) :
    StartsApart (cs ++ ds) := by
  cases cs with
  | nil => exact hd
  | cons c cs => exact startsApart_cons (hc c rfl)

theorem finish_of_finishClosed {m : Mode} {ts : List Token} (h : finishClosed m = some ts) :
    finish m = some ts := by
  cases m <;> first | exact h | cases h

theorem scan_of_scanClosed {cs : List Char} {ts : List Token} (h : scanClosed cs = some ts) :
    scan cs = some ts := by
  simp only [scanClosed, Option.bind_eq_bind, Option.bind_eq_some_iff] at h
  obtain ⟨⟨us, m⟩, hr, vs, hf, hts⟩ := h
  simp only [scan, hr, finish_of_finishClosed hf, Option.bind_eq_bind, Option.bind_some, hts]

/-- The character after a text ends the token that is not finished yet, and goes on as if it stood
alone. -/
theorem step_of_finishClosed {m : Mode} {us : List Token} (h : finishClosed m = some us)
    {c : Char} (hc : isApart c = true) :
    step m c = (start c).map fun r ↦ (us ++ r.1, r.2) := by
  simp only [isApart, Bool.not_eq_true', Bool.or_eq_false_iff, beq_eq_false_iff_ne, ne_eq] at hc
  obtain ⟨⟨⟨⟨hn, hdot⟩, hplus⟩, hminus⟩, hquote⟩ := hc
  have endWith_eq {t : Option Token} (ht : t.map (fun t ↦ [t]) = some us) :
      endWith t c = (start c).map fun r ↦ (us ++ r.1, r.2) := by
    obtain ⟨t, rfl, rfl⟩ := Option.map_eq_some_iff.1 ht
    rw [endWith]
    cases start c <;> rfl
  -- Of the modes that can end here, each goes on with other characters; the others cannot end.
  cases m with
  | between =>
    obtain rfl : [] = us := by simpa [finishClosed, finish] using h
    cases hs : start c <;> simp [step, hs]
  | name read => rw [step, if_neg (by simp [hn]), endWith_eq h]
  | number read =>
    rw [step, if_neg (by simp [continuesNumber, hn, hdot, hplus, hminus]), endWith_eq h]
  | quotes two =>
    cases two with
    | false => cases h
    | true =>
      rw [step, if_neg hquote]
      exact endWith_eq (t := ofQuoted? []) h
  | comment => cases h
  | dots two => cases h
  | quoted escaped read => cases h
  | block ending read => cases h

/-- A step that ends a token and goes on as if the character stood alone makes the whole run do
so. -/
theorem run_of_step {m : Mode} {us : List Token} {c : Char}
    (h : step m c = (start c).map fun r ↦ (us ++ r.1, r.2)) (cs : List Char) :
    run m (c :: cs) = (run .between (c :: cs)).map fun r ↦ (us ++ r.1, r.2) := by
  rw [run, run, h, step]
  cases start c with
  | none => rfl
  | some r =>
    simp only [Option.map_some, Option.bind_eq_bind, Option.bind_some]
    cases run r.2 cs <;> simp

theorem run_of_finishClosed {m : Mode} {us : List Token} (h : finishClosed m = some us)
    {c : Char} (hc : isApart c = true) (cs : List Char) :
    run m (c :: cs) = (run .between (c :: cs)).map fun r ↦ (us ++ r.1, r.2) :=
  run_of_step (step_of_finishClosed h hc) cs

@[simp] theorem scanClosed_nil : scanClosed [] = some [] := rfl

/-- The tokens of two texts, one after the other, if the second starts apart. -/
theorem scanClosed_append {cs ds : List Char} {ts us : List Token} (hc : scanClosed cs = some ts)
    (hd : scanClosed ds = some us) (h : StartsApart ds) :
    scanClosed (cs ++ ds) = some (ts ++ us) := by
  cases ds with
  | nil =>
    obtain rfl : [] = us := by simpa using hd
    simpa using hc
  | cons d ds =>
    simp only [scanClosed, Option.bind_eq_bind, Option.bind_eq_some_iff, Option.some.injEq] at hc hd
    obtain ⟨⟨ts₁, m₁⟩, hrun₁, us₁, hfin₁, rfl⟩ := hc
    obtain ⟨⟨ts₂, m₂⟩, hrun₂, us₂, hfin₂, rfl⟩ := hd
    simp only [scanClosed, run_append, hrun₁, run_of_finishClosed hfin₁ (h d rfl), hrun₂, hfin₂,
      Option.map_some, Option.bind_eq_bind, Option.bind_some, List.append_assoc]

/-- A text whose last token is finished leaves the rest of the text as it is. -/
theorem scanClosed_append_of_run {cs ds : List Char} {ts us : List Token}
    (hc : run .between cs = some (ts, .between)) (hd : scanClosed ds = some us) :
    scanClosed (cs ++ ds) = some (ts ++ us) := by
  simp only [scanClosed, Option.bind_eq_bind, Option.bind_eq_some_iff, Option.some.injEq] at hd
  obtain ⟨⟨ts₁, m⟩, hrun, us₁, hfin, rfl⟩ := hd
  simp only [scanClosed, run_append, hc, hrun, hfin, Option.bind_eq_bind, Option.bind_some,
    List.append_assoc]

theorem run_singleton {c : Char} {ts : List Token} (hc : start c = some (ts, .between)) :
    run .between [c] = some (ts, .between) := by
  simp only [run, step, hc, Option.bind_eq_bind, Option.bind_some, List.append_nil]

/-- A character that is finished at once leaves the rest of the text as it is. -/
theorem scanClosed_cons {c : Char} {cs : List Char} {ts us : List Token}
    (hc : start c = some (ts, .between)) (hs : scanClosed cs = some us) :
    scanClosed (c :: cs) = some (ts ++ us) := scanClosed_append_of_run (run_singleton hc) hs

/-- A character that is a token by itself. -/
theorem scanClosed_token_cons {c : Char} {cs : List Char} {t : Token} {us : List Token}
    (hc : start c = some ([t], .between)) (hs : scanClosed cs = some us) :
    scanClosed (c :: cs) = some (t :: us) := scanClosed_cons hc hs

/-- A character that is a token by itself, several times. -/
theorem scanClosed_replicate_append {c : Char} {t : Token} (hc : start c = some ([t], .between))
    (n : Nat) {cs : List Char} {ts : List Token} (hs : scanClosed cs = some ts) :
    scanClosed (List.replicate n c ++ cs) = some (List.replicate n t ++ ts) := by
  induction n with
  | zero => exact hs
  | succ n ih => exact scanClosed_token_cons hc ih

theorem scanClosed_cons_of_isIgnored {c : Char} (hc : isIgnored c = true) (cs : List Char) :
    scanClosed (c :: cs) = scanClosed cs := by
  have hs : start c = some ([], .between) := by rw [start, if_pos hc]
  simp only [scanClosed, run, step, hs, Option.bind_eq_bind, Option.bind_some, List.nil_append]
  cases run .between cs <;> rfl

@[simp] theorem scanClosed_space_cons (cs : List Char) :
    scanClosed (' ' :: cs) = scanClosed cs := scanClosed_cons_of_isIgnored rfl cs

@[simp] theorem scanClosed_newline_cons (cs : List Char) :
    scanClosed ('\n' :: cs) = scanClosed cs := scanClosed_cons_of_isIgnored rfl cs

theorem run_spaces {indent : List Char} (h : ∀ c ∈ indent, c = ' ') :
    run .between indent = some ([], .between) := by
  induction indent with
  | nil => rfl
  | cons c indent ih =>
    obtain rfl := h c (.head _)
    have hspace : step .between ' ' = some ([], .between) := rfl
    rw [run, hspace]
    simp only [Option.bind_eq_bind, Option.bind_some, ih fun d hd ↦ h d (.tail _ hd),
      List.append_nil]

/-! ## Names -/

theorem start_of_isNameStart {c : Char} (h : isNameStart c = true) :
    start c = some ([], .name [c]) := by
  have hne {d : Char} (hd : isNameStart d = false) : c ≠ d := by
    rintro rfl
    simp [h] at hd
  rw [start, if_neg, if_neg (hne rfl), if_neg (hne rfl), if_neg (hne rfl), if_neg (hne rfl),
    if_pos h]
  have h₁ : c ≠ ' ' := hne rfl
  have h₂ : c ≠ '\t' := hne rfl
  have h₃ : c ≠ '\n' := hne rfl
  have h₄ : c ≠ '\r' := hne rfl
  have h₅ : c ≠ '\uFEFF' := hne rfl
  simp [isIgnored, h₁, h₂, h₃, h₄, h₅]

theorem run_name {cs : List Char} (h : cs.all isNameContinue = true) (read : List Char) :
    run (.name read) cs = some ([], .name (cs.reverse ++ read)) := by
  induction cs generalizing read with
  | nil => rfl
  | cons c cs ih =>
    rw [List.all_cons, Bool.and_eq_true] at h
    simp [run, step, h.1, ih h.2]

theorem ofName?_reverse (n : Name) : ofName? n.toList.reverse = some (.name n) := by
  rw [ofName?, List.reverse_reverse, Name.toList, String.ofList_toList, Name.ofText?_text]
  rfl

/-- A name is one token. -/
theorem scanClosed_name (n : Name) : scanClosed n.toList = some [.name n] := by
  have hread := ofName?_reverse n
  obtain ⟨c, cs, hn, hstart, hrest⟩ := n.exists_toList_eq_cons
  rw [hn, List.reverse_cons] at hread
  rw [hn]
  simp [scanClosed, run, step, start_of_isNameStart hstart, run_name hrest, finishClosed, finish,
    hread]

/-- The tokens of a name and of what stands apart behind it. -/
theorem scanClosed_name_append (n : Name) {cs : List Char} {ts : List Token}
    (h : scanClosed cs = some ts) (hc : StartsApart cs) :
    scanClosed (n.toList ++ cs) = some (.name n :: ts) :=
  scanClosed_append (scanClosed_name n) h hc

end Token
end TypeFootprint
