import Mathlib.Data.List.Forall2
import Mathlib.Tactic.SplitIfs
import TypeFootprint.Json.Reader
import TypeFootprint.Json.Writer

/-!
# Reading what has been written

A reader of JSON takes a value from the front of a text.  What stands behind the value makes no
difference to it as long as it ends the value: a comma, a bracket, a brace, or nothing at all.
`Reads p cs a` says that the reader `p` takes just the characters `cs` there, and that they are `a`.

The readers of strings, lists and objects read what the writers of these write: strings of whatever
characters (`stringRest_append`), and lists and objects of whatever is read itself (`reads_items`,
`reads_members`).  The loops for lists and objects, and for records, have one argument in common:
what is written is a `Chain` of parts with commas between them, and a loop that ends well and takes
each part well goes well on all of it (`Runs.first_chain`).
-/

set_option autoImplicit false

namespace TypeFootprint

/-! ## What is written -/

namespace Json

theorem itemParts_eq_map (vs : List Json) : itemParts vs = vs.map chars := by
  induction vs with
  | nil => rfl
  | cons v vs ih => rw [itemParts, ih, List.map_cons]

theorem memberParts_eq_map (ms : List (String × Json)) :
    memberParts ms = ms.map fun m ↦ memberChars m.1 m.2.chars := by
  induction ms with
  | nil => rfl
  | cons m ms ih => rw [memberParts, ih, List.map_cons]

end Json

namespace JsonReader

open Json (escapeChar quoteChars commas bracketed braced memberChars hexChar)

variable {α β : Type} {p : JsonReader α} {a : α} {c : Char} {cs rest : List Char}

/-- A text that ends a value before it: it is empty, or it starts with a comma, a bracket or a
brace. -/
def EndsValue (rest : List Char) : Prop := ∀ c ∈ rest.head?, c = ',' ∨ c = ']' ∨ c = '}'

/-- A reader takes these characters for this result, whatever ends them. -/
def Reads (p : JsonReader α) (cs : List Char) (a : α) : Prop :=
  ∀ rest, EndsValue rest → p (cs ++ rest) = .ok (a, rest)

theorem endsValue_nil : EndsValue [] := by simp [EndsValue]

theorem endsValue_cons (h : c = ',' ∨ c = ']' ∨ c = '}') : EndsValue (c :: cs) := by
  simpa [EndsValue] using h

/-! ## Single steps -/

theorem bind_of_ok {f : α → JsonReader β} (h : p cs = .ok (a, rest)) : (p >>= f) cs = f a rest := by
  simp only [bind, StateT.bind, h, Except.bind]

theorem peek_cons (h : isBlank c = false) : peek (c :: cs) = .ok (some c, c :: cs) := by
  rw [peek, List.dropWhile_cons_of_neg (by simp [h])]
  rfl

/-! ## Strings -/

theorem hex4?_hexChar {n : Nat} (h : n < 32) :
    Escape.hex4? '0' '0' (hexChar (n / 16)) (hexChar (n % 16)) = some n := by
  have hall : ∀ m : Fin 32,
      Escape.hex4? '0' '0' (hexChar (m.val / 16)) (hexChar (m.val % 16)) = some m.val := by
    decide
  exact hall ⟨n, h⟩

/-- One character more in front of what is read. -/
def consChar (c : Char) (r : List Char × List Char) : List Char × List Char := (c :: r.1, r.2)

theorem stringTail_letter {d : Char} (h : Escape.letter? d = some c) :
    stringTail ('\\' :: d :: cs) = (stringTail cs).map (consChar c) := by
  have hu : d ≠ 'u' := by
    rintro rfl
    cases h
  rw [stringTail, h]
  · cases stringTail cs <;> rfl
  · exact fun _ _ _ _ _ heq _ ↦ hu heq
  · exact hu

theorem stringTail_hex (h : c.toNat < 32) :
    stringTail
        ('\\' :: 'u' :: '0' :: '0' :: hexChar (c.toNat / 16) :: hexChar (c.toNat % 16) :: cs) =
      (stringTail cs).map (consChar c) := by
  have hleading : Escape.isLeading c.toNat = false := by
    rw [Escape.isLeading]
    simp
    omega
  have htrailing : Escape.isTrailing c.toNat = false := by
    rw [Escape.isTrailing]
    simp
    omega
  rw [stringTail, hex4?_hexChar h]
  simp only [hleading, htrailing, Bool.false_eq_true, if_false, Char.ofNat_toNat]
  cases stringTail cs <;> rfl

theorem stringTail_plain (hquote : c ≠ '"') (hbackslash : c ≠ '\\') (hcontrol : ¬ c.toNat < 0x20) :
    stringTail (c :: cs) = (stringTail cs).map (consChar c) := by
  rw [stringTail, if_neg hcontrol]
  · cases stringTail cs <;> rfl
  · exact hquote
  · exact fun _ _ _ _ _ heq _ ↦ hbackslash heq
  · exact fun _ heq _ ↦ hbackslash heq
  · exact fun _ _ heq _ ↦ hbackslash heq
  · exact fun heq _ ↦ hbackslash heq

/-- A character that was escaped is read as itself. -/
theorem stringTail_escapeChar (c : Char) (cs : List Char) :
    stringTail (escapeChar c ++ cs) = (stringTail cs).map (consChar c) := by
  rw [escapeChar]
  split_ifs with hquote hbackslash hb ht hn hf hr hcontrol
  · subst hquote; exact stringTail_letter rfl
  · subst hbackslash; exact stringTail_letter rfl
  · subst hb; exact stringTail_letter rfl
  · subst ht; exact stringTail_letter rfl
  · subst hn; exact stringTail_letter rfl
  · subst hf; exact stringTail_letter rfl
  · subst hr; exact stringTail_letter rfl
  · exact stringTail_hex hcontrol
  · exact stringTail_plain hquote hbackslash hcontrol

theorem stringTail_append (text rest : List Char) :
    stringTail (text.flatMap escapeChar ++ '"' :: rest) = .ok (text, rest) := by
  induction text with
  | nil => rfl
  | cons c text ih =>
    rw [List.flatMap_cons, List.append_assoc, stringTail_escapeChar, ih]
    rfl

/-- **What was written in quotes is read back**, whatever the characters are. -/
theorem stringRest_append (text : String) (rest : List Char) :
    stringRest (text.toList.flatMap escapeChar ++ '"' :: rest) = .ok (text, rest) := by
  rw [stringRest, stringTail_append]
  simp only [bind, Except.bind, String.ofList_toList]

theorem key_append (k : String) (rest : List Char) :
    key (quoteChars k.toList ++ rest) = .ok (k, rest) := by
  rw [quoteChars, List.cons_append, List.append_assoc]
  exact stringRest_append k rest

/-! ## Parts and the commas between them -/

/-- Parts with a comma before each of them. -/
def afterCommas (parts : List (List Char)) : List Char := parts.flatMap fun part ↦ ',' :: part

theorem commas_cons (part : List Char) (parts : List (List Char)) :
    commas (part :: parts) = part ++ afterCommas parts := by
  induction parts generalizing part with
  | nil => rw [commas, afterCommas, List.flatMap_nil, List.append_nil]
  | cons next parts ih => rw [commas, ih next, afterCommas, afterCommas, List.flatMap_cons,
      List.cons_append]

theorem length_le_afterCommas (parts : List (List Char)) :
    parts.length ≤ (afterCommas parts).length := by
  induction parts with
  | nil => exact Nat.zero_le _
  | cons part parts ih =>
    rw [afterCommas] at ih
    rw [afterCommas, List.flatMap_cons, List.length_append, List.length_cons, List.length_cons]
    omega

/-- What stands behind an item or a member ends it. -/
theorem endsValue_afterCommas (parts : List (List Char)) (h : c = ']' ∨ c = '}') :
    EndsValue (afterCommas parts ++ c :: rest) := by
  cases parts with
  | nil => exact endsValue_cons (.inr h)
  | cons part parts => exact endsValue_cons (.inl rfl)

/-- Parts each of which takes the reading from one state to the next. -/
inductive Chain {σ : Type} (takes : List Char → σ → σ → Prop) : List (List Char) → σ → σ → Prop
  | nil (s : σ) : Chain takes [] s s
  | cons {part : List Char} {parts : List (List Char)} {s t u : σ} (first : takes part s t)
      (others : Chain takes parts t u) : Chain takes (part :: parts) s u

/-- A part for each result, and the results still to come as the state. -/
theorem chain_of_forall₂ {ok : List Char → α → Prop} {parts : List (List Char)} {as : List α}
    (h : List.Forall₂ ok parts as) :
    Chain (fun part as bs ↦ ∃ a, as = a :: bs ∧ ok part a) parts as [] := by
  induction h with
  | nil => exact .nil []
  | cons hpart _ ih => exact .cons ⟨_, rfl, hpart⟩ ih

section Runs

variable {σ : Type} {takes : List Char → σ → σ → Prop} {parts : List (List Char)} {s last : σ}
  {close : Char}

/-- `runs first s n text` says that a loop goes well on a text from a state, with fuel `n`; `first`
if it has not taken anything yet.  It does on a chain of parts if it ends well and takes each part
well. -/
structure Runs (takes : List Char → σ → σ → Prop) (close : Char) (rest : List Char) (last : σ)
    (runs : Bool → σ → Nat → List Char → Prop) : Prop where
  ends : close = ']' ∨ close = '}'
  stop : ∀ first n, runs first last (n + 1) (close :: rest)
  first : ∀ {part text s t n}, takes part s t → EndsValue text → runs false t n text →
    runs true s (n + 1) (part ++ text)
  next : ∀ {part text s t n}, takes part s t → EndsValue text → runs false t n text →
    runs false s (n + 1) (',' :: (part ++ text))

variable {runs : Bool → σ → Nat → List Char → Prop}

/-- Behind its first part a loop goes well if it has more fuel than there are parts. -/
theorem Runs.next_chain {n : Nat} (hruns : Runs takes close rest last runs)
    (h : Chain takes parts s last) (hn : parts.length < n) :
    runs false s n (afterCommas parts ++ close :: rest) := by
  obtain ⟨n, rfl⟩ : ∃ m, n = m + 1 := ⟨n - 1, by omega⟩
  induction h generalizing n with
  | nil => exact hruns.stop false n
  | @cons part parts s t u hpart _ ih =>
    rw [List.length_cons] at hn
    obtain ⟨n, rfl⟩ : ∃ m, n = m + 1 := ⟨n - 1, by omega⟩
    have htext : afterCommas (part :: parts) ++ close :: rest =
        ',' :: (part ++ (afterCommas parts ++ close :: rest)) := by
      simp [afterCommas]
    rw [htext]
    exact hruns.next hpart (endsValue_afterCommas parts hruns.ends) (ih hruns n (by omega))

/-- A loop that has more fuel than there are characters goes well on a chain of parts. -/
theorem Runs.first_chain (hruns : Runs takes close rest last runs) (h : Chain takes parts s last) :
    runs true s ((commas parts ++ close :: rest).length + 1) (commas parts ++ close :: rest) := by
  cases h with
  | nil => exact hruns.stop true _
  | @cons part parts s t u hpart hparts =>
    have hlength := length_le_afterCommas parts
    rw [commas_cons, List.append_assoc]
    refine hruns.first hpart (endsValue_afterCommas parts hruns.ends) (hruns.next_chain hparts ?_)
    simp only [List.length_append, List.length_cons]
    omega

end Runs

/-! ## Lists -/

/-- A text that starts with something else than a blank and the end of a list. -/
def StartsValue (cs : List Char) : Prop := ∀ rest, ∃ c ds,
  cs ++ rest = c :: ds ∧ isBlank c = false ∧ c ≠ ']'

theorem startsValue_cons (hblank : isBlank c = false) (hend : c ≠ ']') : StartsValue (c :: cs) :=
  fun _ ↦ ⟨c, _, rfl, hblank, hend⟩

theorem hasItem_first (h : StartsValue cs) (rest : List Char) :
    hasItem true (cs ++ rest) = .ok (true, cs ++ rest) := by
  obtain ⟨c, ds, heq, hblank, hend⟩ := h rest
  rw [heq, hasItem, bind_of_ok (peek_cons hblank)]
  by_cases hcomma : c = ','
  · subst hcomma
    rfl
  · simp only
    rfl

theorem hasItem_next (h : StartsValue cs) (rest : List Char) :
    hasItem false (',' :: (cs ++ rest)) = .ok (true, cs ++ rest) := by
  obtain ⟨c, ds, heq, hblank, hend⟩ := h rest
  rw [heq, hasItem, bind_of_ok (peek_cons (by decide))]
  have hdrop : drop (',' :: c :: ds) = .ok ((), c :: ds) := rfl
  change (drop >>= _) (',' :: c :: ds) = _
  rw [bind_of_ok hdrop, bind_of_ok (peek_cons hblank)]
  simp only
  rfl

/-- One item more in front of what is read. -/
def consItem (a : α) (r : List α × List Char) : List α × List Char := (a :: r.1, r.2)

theorem itemsUpTo_cons {first : Bool} {n : Nat} {text : List Char}
    (hitem : hasItem first text = .ok (true, cs ++ rest)) (hread : Reads p cs a)
    (hrest : EndsValue rest) :
    itemsUpTo p first (n + 1) text = (itemsUpTo p false n rest).map (consItem a) := by
  rw [itemsUpTo, bind_of_ok hitem, if_pos rfl, bind_of_ok (hread rest hrest)]
  cases h : itemsUpTo p false n rest with
  | error e => simp [bind, StateT.bind, h, Except.bind, Except.map]
  | ok r => rw [bind_of_ok h]; rfl

/-- The items are read if each of them is. -/
def ReadsItem (p : JsonReader α) (cs : List Char) (a : α) : Prop := StartsValue cs ∧ Reads p cs a

/-- **A list is read if its items are.** -/
theorem reads_items {parts : List (List Char)} {as : List α}
    (h : List.Forall₂ (ReadsItem p) parts as) : Reads (items p) (commas parts ++ [']']) as := by
  intro rest _
  have hruns : Runs (fun part as bs ↦ ∃ a, as = a :: bs ∧ ReadsItem p part a) ']' rest []
      fun first as n text ↦ itemsUpTo p first n text = .ok (as, ']' :: rest) := by
    refine ⟨.inl rfl, fun _ _ ↦ rfl, ?_, ?_⟩
    · rintro part text _ as n ⟨a, rfl, hpart⟩ htext hrest
      rw [itemsUpTo_cons (hasItem_first hpart.1 text) hpart.2 htext, hrest]
      rfl
    · rintro part text _ as n ⟨a, rfl, hpart⟩ htext hrest
      rw [itemsUpTo_cons (hasItem_next hpart.1 text) hpart.2 htext, hrest]
      rfl
  rw [items, List.append_assoc, List.singleton_append,
    bind_of_ok (p := fun cs ↦ itemsUpTo p true (cs.length + 1) cs)
      (hruns.first_chain (chain_of_forall₂ h))]
  rfl

/-! ## Objects -/

theorem hasMember_first (k : String) (value rest : List Char) :
    hasMember true (memberChars k value ++ rest) = .ok (true, memberChars k value ++ rest) := rfl

theorem hasMember_next (k : String) (value rest : List Char) :
    hasMember false (',' :: (memberChars k value ++ rest)) =
      .ok (true, memberChars k value ++ rest) := rfl

theorem key_memberChars (k : String) (value rest : List Char) :
    key (memberChars k value ++ rest) = .ok (k, ':' :: (value ++ rest)) := by
  rw [memberChars, List.append_assoc, key_append, List.cons_append]

theorem colon_cons (cs : List Char) : colon (':' :: cs) = .ok ((), cs) := rfl

theorem membersUpTo_cons {first : Bool} {n : Nat} {text : List Char} {k : String}
    (hmember : hasMember first text = .ok (true, memberChars k cs ++ rest)) (hread : Reads p cs a)
    (hrest : EndsValue rest) :
    membersUpTo p first (n + 1) text = (membersUpTo p false n rest).map (consItem (k, a)) := by
  rw [membersUpTo, bind_of_ok hmember, if_pos rfl, bind_of_ok (key_memberChars k cs rest),
    bind_of_ok (colon_cons _), bind_of_ok (hread rest hrest)]
  cases h : membersUpTo p false n rest with
  | error e => simp [bind, StateT.bind, h, Except.bind, Except.map]
  | ok r => rw [bind_of_ok h]; rfl

/-- A member is read if its value is. -/
def ReadsMember (p : JsonReader α) (part : List Char) (m : String × α) : Prop :=
  ∃ value, part = memberChars m.1 value ∧ Reads p value m.2

/-- **An object is read if its members are.** -/
theorem reads_members {parts : List (List Char)} {ms : List (String × α)}
    (h : List.Forall₂ (ReadsMember p) parts ms) : Reads (members p) (commas parts ++ ['}']) ms := by
  intro rest _
  have hruns : Runs (fun part ms ns ↦ ∃ m, ms = m :: ns ∧ ReadsMember p part m) '}' rest []
      fun first ms n text ↦ membersUpTo p first n text = .ok (ms, '}' :: rest) := by
    refine ⟨.inr rfl, fun _ _ ↦ rfl, ?_, ?_⟩
    · rintro _ text _ ms n ⟨m, rfl, value, rfl, hread⟩ htext hrest
      rw [membersUpTo_cons (hasMember_first m.1 value text) hread htext, hrest]
      rfl
    · rintro _ text _ ms n ⟨m, rfl, value, rfl, hread⟩ htext hrest
      rw [membersUpTo_cons (hasMember_next m.1 value text) hread htext, hrest]
      rfl
  rw [members, List.append_assoc, List.singleton_append,
    bind_of_ok (p := fun cs ↦ membersUpTo p true (cs.length + 1) cs)
      (hruns.first_chain (chain_of_forall₂ h))]
  rfl

end JsonReader
end TypeFootprint
