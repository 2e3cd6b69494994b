import TypeFootprint.Proofs.Json.Reading

/-!
# Values that are written and read again

A value that is written compactly is read as the same value, with the members of its objects in the
order of their keys (`parse_compact`).  It must not be nested too deep for the reader, and its
objects must have distinct keys, for of several members of one key only the last one is read.
Numbers are a matter of their own: a value is `Readable` if, besides, each of its numbers is read as
it is written.

`Json.sorted` puts the members of all objects in order.
-/

set_option autoImplicit false

namespace TypeFootprint

/-! ## Numbers -/

namespace NumberLiteral

variable {α β : Type} {cs ds rest : List Char}

/-- A text that no number goes on with. -/
def EndsNumber (rest : List Char) : Prop :=
  ∀ c ∈ rest.head?, c.isDigit = false ∧ c ≠ '.' ∧ c ≠ 'e' ∧ c ≠ 'E'

/-- A reader that leaves off where it did, whatever is put behind its text that no number goes on
with. -/
def LeavesOff (read : List Char → Except JsonFault (α × List Char)) : Prop :=
  ∀ cs ⦃a left⦄, read cs = .ok (a, left) → ∀ ⦃rest⦄, EndsNumber rest →
    read (cs ++ rest) = .ok (a, left ++ rest)

theorem takeWhile_isDigit_append (h : EndsNumber rest) (cs : List Char) :
    (cs ++ rest).takeWhile Char.isDigit = cs.takeWhile Char.isDigit ∧
      (cs ++ rest).dropWhile Char.isDigit = cs.dropWhile Char.isDigit ++ rest := by
  induction cs with
  | nil =>
    cases rest with
    | nil => exact ⟨rfl, rfl⟩
    | cons c rest =>
      have hc : c.isDigit = false := (h c rfl).1
      simp [hc]
  | cons c cs ih => by_cases hc : c.isDigit = true <;> simp [hc, ih]

theorem leavesOff_digits : LeavesOff digits := by
  intro cs ds left h rest hrest
  obtain ⟨htake, hdrop⟩ := takeWhile_isDigit_append hrest cs
  rw [digits] at h ⊢
  rw [htake, hdrop]
  split at h
  · cases h
  · cases h
    simp_all

theorem readWhole_of_ne {c : Char} (h : c ≠ '0') : readWhole (c :: cs) = digits (c :: cs) := by
  rw [readWhole]
  exact fun _ _ heq ↦ absurd (List.cons.inj heq).1 h

theorem leavesOff_readWhole : LeavesOff readWhole := by
  intro cs ds left h rest hrest
  match cs, h with
  | [], h => cases h
  | c :: cs, h =>
    by_cases hzero : c = '0'
    · subst hzero
      match cs, h with
      | [], h =>
        cases h
        cases rest with
        | nil => rfl
        | cons d rest =>
          have hd : d.isDigit = false := (hrest d rfl).1
          simp [readWhole, hd]
      | d :: cs, h =>
        rw [readWhole] at h
        split at h
        · cases h
        · next hd =>
          cases h
          simp [readWhole, hd]
    · rw [readWhole_of_ne hzero] at h
      rw [List.cons_append, readWhole_of_ne hzero]
      exact leavesOff_digits _ h hrest

theorem readFraction_of_ne (h : cs.head? ≠ some '.') : readFraction cs = .ok ([], cs) := by
  rw [readFraction]
  rintro ds rfl
  exact h rfl

theorem leavesOff_readFraction : LeavesOff readFraction := by
  intro cs ds left h rest hrest
  match cs, h with
  | [], h =>
    cases h
    exact readFraction_of_ne fun hhead ↦ (hrest '.' hhead).2.1 rfl
  | c :: cs, h =>
    by_cases hpoint : c = '.'
    · subst hpoint
      exact leavesOff_digits cs h hrest
    · have hne {ds : List Char} : (c :: ds).head? ≠ some '.' := by simpa using hpoint
      rw [readFraction_of_ne hne] at h
      cases h
      exact readFraction_of_ne hne

/-- A reader that goes on after another one leaves off where it did if both do. -/
theorem LeavesOff.bind {read : List Char → Except JsonFault (α × List Char)}
    {next : α → List Char → Except JsonFault (β × List Char)} (hread : LeavesOff read)
    (hnext : ∀ a, LeavesOff (next a)) :
    LeavesOff fun cs ↦ read cs >>= fun r ↦ next r.1 r.2 := by
  intro cs b left h rest hrest
  change (read cs >>= fun r ↦ next r.1 r.2) = _ at h
  change (read (cs ++ rest) >>= fun r ↦ next r.1 r.2) = _
  cases hcs : read cs with
  | error e =>
    rw [hcs] at h
    cases h
  | ok r =>
    rw [hcs] at h
    rw [hread _ hcs hrest]
    exact hnext r.1 _ h hrest

theorem leavesOff_ok (a : α) : LeavesOff fun cs ↦ .ok (a, cs) := by
  intro cs b left h rest _
  cases h
  rfl

theorem leavesOff_readSigned : LeavesOff readSigned := by
  have hdigits (negative : Bool) :
      LeavesOff fun cs ↦ digits cs >>= fun r ↦ .ok ((negative, r.1), r.2) :=
    leavesOff_digits.bind fun _ ↦ leavesOff_ok _
  intro cs b left h rest hrest
  match cs, h with
  | [], h => cases h
  | c :: cs, h =>
    by_cases hplus : c = '+'
    · subst hplus
      exact hdigits false cs h hrest
    by_cases hminus : c = '-'
    · subst hminus
      exact hdigits true cs h hrest
    have hunsigned (ds : List Char) : readSigned (c :: ds) =
        digits (c :: ds) >>= fun r ↦ .ok ((false, r.1), r.2) := by
      rw [readSigned]
      · exact fun _ heq ↦ hplus (List.cons.inj heq).1
      · exact fun _ heq ↦ hminus (List.cons.inj heq).1
    rw [hunsigned] at h
    rw [List.cons_append, hunsigned]
    exact hdigits false _ h hrest

theorem leavesOff_readExponent : LeavesOff readExponent := by
  intro cs b left h rest hrest
  match cs, h with
  | [], h =>
    cases h
    match rest, hrest with
    | [], _ => rfl
    | c :: rest, hrest =>
      obtain ⟨-, -, he, hE⟩ := hrest c rfl
      simp [readExponent, he, hE]
  | c :: cs, h =>
    rw [readExponent] at h
    rw [List.cons_append, readExponent]
    split at h
    · next hc =>
      rw [if_pos hc]
      exact (leavesOff_readSigned.bind fun a ↦ leavesOff_ok (some a)) _ h hrest
    · next hc =>
      rw [if_neg hc]
      cases h
      rfl

theorem leavesOff_read : LeavesOff read := by
  have hunsigned (negative : Bool) : LeavesOff fun cs ↦
      readWhole cs >>= fun w ↦ readFraction w.2 >>= fun f ↦ readExponent f.2 >>= fun e ↦
        .ok ((⟨negative, w.1, f.1, e.1⟩ : NumberLiteral), e.2) :=
    leavesOff_readWhole.bind fun w ↦ leavesOff_readFraction.bind fun f ↦
      leavesOff_readExponent.bind fun e ↦ leavesOff_ok _
  intro cs b left h rest hrest
  match cs, h with
  | [], h => cases h
  | c :: cs, h =>
    by_cases hminus : c = '-'
    · subst hminus
      exact hunsigned true cs h hrest
    have hsign (ds : List Char) : readSign (c :: ds) = (false, c :: ds) := by
      rw [readSign]
      exact fun _ heq ↦ hminus (List.cons.inj heq).1
    rw [read, hsign] at h
    rw [List.cons_append, read, hsign]
    exact hunsigned false (c :: cs) h hrest

/-- A text that is read as a number starts with a digit or a minus sign. -/
theorem exists_cons_of_read {l : NumberLiteral} (h : read cs = .ok (l, rest)) :
    ∃ c ds, cs = c :: ds ∧ (c.isDigit || c = '-') = true := by
  match cs, h with
  | [], h => cases h
  | c :: cs, h =>
    refine ⟨c, cs, rfl, ?_⟩
    by_contra hother
    obtain ⟨hdigit, hminus⟩ : c.isDigit = false ∧ c ≠ '-' := by simpa using hother
    have hzero : c ≠ '0' := by
      rintro rfl
      cases hdigit
    have hsign : readSign (c :: cs) = (false, c :: cs) := by
      rw [readSign]
      exact fun _ heq ↦ hminus (List.cons.inj heq).1
    have hdigits : digits (c :: cs) = .error .malformed := by simp [digits, hdigit]
    rw [read, hsign] at h
    simp only [readWhole_of_ne hzero, hdigits] at h
    cases h

end NumberLiteral

namespace JsonReader

variable {α : Type} {c : Char} {cs rest : List Char}

theorem EndsValue.endsNumber (h : EndsValue rest) : NumberLiteral.EndsNumber rest := by
  intro c hc
  rcases h c hc with rfl | rfl | rfl <;> decide

/-- The number that a literal stands for, if it stands for one. -/
def valueOf (l : NumberLiteral) (cs : List Char) : Except JsonFault (JsonNumber × List Char) :=
  match l.value? with
  | some n => .ok (n, cs)
  | none => .error .malformed

theorem leavesOff_valueOf (l : NumberLiteral) : NumberLiteral.LeavesOff (valueOf l) := by
  intro cs x left h rest _
  rw [valueOf] at h ⊢
  cases hvalue : l.value? with
  | none =>
    rw [hvalue] at h
    cases h
  | some n =>
    rw [hvalue] at h
    cases h
    rfl

/-- A number that is read where nothing follows is read whatever ends it. -/
theorem reads_number {x : JsonNumber} (h : JsonNumber.read cs = .ok (x, [])) :
    Reads number cs x := by
  intro rest hrest
  exact (NumberLiteral.leavesOff_read.bind leavesOff_valueOf) _ h hrest.endsNumber

theorem exists_cons_of_readNumber {x : JsonNumber} (h : JsonNumber.read cs = .ok (x, rest)) :
    ∃ c ds, cs = c :: ds ∧ (c.isDigit || c = '-') = true := by
  rw [JsonNumber.read] at h
  cases hread : NumberLiteral.read cs with
  | error e =>
    rw [hread] at h
    cases h
  | ok r => exact NumberLiteral.exists_cons_of_read hread

end JsonReader

/-! ## The order of members -/

namespace Json

mutual

/-- A value with the members of all its objects in the order of their keys. -/
def sorted : Json → Json
  | array items => array (sortedItems items)
  | object members => ofMembers (sortedMembers members)
  | v => v

/-- Items with their members in order. -/
def sortedItems : List Json → List Json
  | [] => []
  | v :: vs => v.sorted :: sortedItems vs

/-- Members with values whose members are in order. -/
def sortedMembers : List (String × Json) → List (String × Json)
  | [] => []
  | (k, v) :: rest => (k, v.sorted) :: sortedMembers rest

end

theorem sortedItems_eq_map (vs : List Json) : sortedItems vs = vs.map sorted := by
  induction vs with
  | nil => rfl
  | cons v vs ih => rw [sortedItems, ih, List.map_cons]

theorem sortedMembers_eq_map (ms : List (String × Json)) :
    sortedMembers ms = ms.map fun m ↦ (m.1, m.2.sorted) := by
  induction ms with
  | nil => rfl
  | cons m ms ih => rw [sortedMembers, ih, List.map_cons]

/-- A value that is read as it was written: it is nested at most `n` levels deep, its objects have
distinct keys, and its numbers are read as they are written. -/
inductive Readable : Nat → Json → Prop
  | null (n : Nat) : Readable n null
  | boolean (n : Nat) (b : Bool) : Readable n (boolean b)
  | number (n : Nat) {x : JsonNumber} (h : JsonNumber.read (numberChars x) = .ok (x, [])) :
      Readable n (number x)
  | string (n : Nat) (s : String) : Readable n (string s)
  | array {n : Nat} {items : List Json} (h : ∀ v ∈ items, Readable n v) :
      Readable (n + 1) (array items)
  | object {n : Nat} {members : List (String × Json)} (distinct : (members.map Prod.fst).Nodup)
      (h : ∀ m ∈ members, Readable n m.2) : Readable (n + 1) (object members)

end Json

namespace JsonReader

open Json (Readable)

variable {c : Char}

/-- A character that a number may start with starts nothing else. -/
theorem ne_of_startsNumber {d : Char} (h : (c.isDigit || c = '-') = true)
    (hd : (d.isDigit || d = '-') = false) : c ≠ d := by
  rintro rfl
  rw [h] at hd
  cases hd

theorem isBlank_of_startsNumber (h : (c.isDigit || c = '-') = true) : isBlank c = false := by
  have hne {d : Char} (hd : (d.isDigit || d = '-') = false) : (c == d) = false :=
    beq_false_of_ne (ne_of_startsNumber h hd)
  rw [isBlank, hne (by decide), hne (by decide), hne (by decide), hne (by decide)]
  rfl

theorem startsValue_chars {n : Nat} {v : Json} (h : Readable n v) : StartsValue v.chars := by
  cases h with
  | number _ h =>
    obtain ⟨c, ds, hchars, hc⟩ := exists_cons_of_readNumber h
    rw [Json.chars, hchars]
    exact startsValue_cons (isBlank_of_startsNumber hc) (ne_of_startsNumber hc (by decide))
  | boolean _ b => cases b <;> exact startsValue_cons (by decide) (by decide)
  | _ => exact startsValue_cons (by decide) (by decide)

theorem reads_valueUpTo_number {n : Nat} {x : JsonNumber}
    (h : JsonNumber.read (Json.numberChars x) = .ok (x, [])) :
    Reads (valueUpTo (n + 1)) (Json.number x).chars (.number x) := by
  intro rest hrest
  obtain ⟨c, ds, hchars, hc⟩ := exists_cons_of_readNumber h
  have hread := reads_number h rest hrest
  have hnull : c ≠ 'n' := ne_of_startsNumber hc (by decide)
  have htrue : c ≠ 't' := ne_of_startsNumber hc (by decide)
  have hfalse : c ≠ 'f' := ne_of_startsNumber hc (by decide)
  have hquote : c ≠ '"' := ne_of_startsNumber hc (by decide)
  have hbracket : c ≠ '[' := ne_of_startsNumber hc (by decide)
  have hbrace : c ≠ '{' := ne_of_startsNumber hc (by decide)
  rw [hchars, List.cons_append] at hread
  rw [valueUpTo, Json.chars, hchars, List.cons_append,
    bind_of_ok (peek_cons (isBlank_of_startsNumber hc))]
  simp only
  rw [if_pos hc, bind_of_ok hread]
  rfl

theorem reads_valueUpTo {n : Nat} {v : Json} (h : Readable n v) :
    Reads (valueUpTo (n + 1)) v.chars v.sorted := by
  induction h with
  | null n =>
    intro rest _
    rw [valueUpTo, Json.chars, List.cons_append, bind_of_ok (peek_cons (by decide))]
    rfl
  | boolean n b =>
    intro rest _
    cases b <;>
      (rw [valueUpTo, Json.chars, List.cons_append, bind_of_ok (peek_cons (by decide))]; rfl)
  | number n hx => exact reads_valueUpTo_number hx
  | string n s =>
    intro rest _
    rw [valueUpTo, Json.chars, Json.quoteChars, List.cons_append,
      bind_of_ok (peek_cons (by decide))]
    change (stringRest >>= fun t ↦ pure (Json.string t))
      (s.toList.flatMap Json.escapeChar ++ ['"'] ++ rest) = _
    rw [List.append_assoc, List.singleton_append, bind_of_ok (stringRest_append s rest)]
    rfl
  | @array n vs h ih =>
    intro rest hrest
    have hitems : List.Forall₂ (ReadsItem (valueUpTo (n + 1))) (Json.itemParts vs)
        (Json.sortedItems vs) := by
      rw [Json.itemParts_eq_map, Json.sortedItems_eq_map, List.forall₂_map_left_iff,
        List.forall₂_map_right_iff, List.forall₂_same]
      exact fun v hv ↦ ⟨startsValue_chars (h v hv), ih v hv⟩
    rw [valueUpTo, Json.chars, Json.bracketed, List.cons_append,
      bind_of_ok (peek_cons (by decide))]
    change (items (valueUpTo (n + 1)) >>= fun ws ↦ pure (Json.array ws))
      (Json.commas (Json.itemParts vs) ++ [']'] ++ rest) = _
    rw [bind_of_ok (reads_items hitems rest hrest)]
    rfl
  | @object n ms hdistinct h ih =>
    intro rest hrest
    have hmembers : List.Forall₂ (ReadsMember (valueUpTo (n + 1))) (Json.memberParts ms)
        (Json.sortedMembers ms) := by
      rw [Json.memberParts_eq_map, Json.sortedMembers_eq_map, List.forall₂_map_left_iff,
        List.forall₂_map_right_iff, List.forall₂_same]
      exact fun m hm ↦ ⟨m.2.chars, rfl, ih m hm⟩
    rw [valueUpTo, Json.chars, Json.braced, List.cons_append, bind_of_ok (peek_cons (by decide))]
    change (members (valueUpTo (n + 1)) >>= fun ws ↦ pure (Json.ofMembers ws))
      (Json.commas (Json.memberParts ms) ++ ['}'] ++ rest) = _
    rw [bind_of_ok (reads_members hmembers rest hrest)]
    rfl

end JsonReader

namespace Json

variable {k : String} {v : Json} {members : List (String × Json)}

/-- **A value that is written compactly is read as the same value**, with its members in order. -/
theorem parse_compact (h : Readable maxDepth v) : parse v.compact = .ok v.sorted := by
  have hread := JsonReader.reads_valueUpTo h [] JsonReader.endsValue_nil
  rw [List.append_nil] at hread
  rw [parse, compact, String.toList_ofList, JsonReader.bind_of_ok hread]
  rfl

/-! ## Members in order -/

theorem insertMember_perm (h : k ∉ members.map Prod.fst) :
    (insertMember k v members).Perm ((k, v) :: members) := by
  induction members with
  | nil => exact .refl _
  | cons m members ih =>
    rw [List.map_cons, List.mem_cons, not_or] at h
    obtain ⟨hm, hmembers⟩ := h
    rw [insertMember, if_neg hm]
    split
    · exact .refl _
    · exact ((ih hmembers).cons m).trans (.swap (k, v) m members)

theorem foldl_insertMember_perm (done : List (String × Json))
    (h : ((done ++ members).map Prod.fst).Nodup) :
    (members.foldl (fun done m ↦ insertMember m.1 m.2 done) done).Perm (done ++ members) := by
  induction members generalizing done with
  | nil => rw [List.foldl_nil, List.append_nil]
  | cons m members ih =>
    rw [List.foldl_cons]
    have hmiddle : (done ++ m :: members).Perm (m :: done ++ members) := List.perm_middle
    have hm : m.1 ∉ done.map Prod.fst := by
      have hnodup := (hmiddle.map Prod.fst).nodup_iff.1 h
      rw [List.cons_append, List.map_cons, List.nodup_cons, List.map_append,
        List.mem_append] at hnodup
      exact fun hmem ↦ hnodup.1 (.inl hmem)
    have hinsert : (insertMember m.1 m.2 done ++ members).Perm (done ++ m :: members) :=
      ((insertMember_perm hm).append_right members).trans hmiddle.symm
    exact (ih _ ((hinsert.map Prod.fst).nodup_iff.2 h)).trans hinsert

/-- The members of an object are put in order and nothing else, if their keys are distinct. -/
theorem exists_ofMembers_eq (h : (members.map Prod.fst).Nodup) :
    ∃ ordered : List (String × Json), ofMembers members = object ordered ∧ ordered.Perm members :=
  ⟨_, rfl, foldl_insertMember_perm [] h⟩

end Json

end TypeFootprint
