import TypeFootprint.Proofs.Grammar.Acceptance
import TypeFootprint.Proofs.Introspection.Correspondence

/-!
# References that have lost a part

A reference is written whether or not it is complete: one without a name is written as nothing, a
wrapper around nothing as its marks, and something that is required twice gets two marks.  Whatever
it is, the parser either reads what was written and nothing else, or it gets stuck behind it
(`typeRef_of_reference`): it stops at a mark that is left over, or it takes the name of the next
item for the type and stops at what comes behind that name.
-/

set_option autoImplicit false

namespace TypeFootprint.Introspection

open TypeFootprint.Token TypeFootprint.Parser

namespace Reference

/-- The name that is written for a reference, if one is. -/
def shownName? : Reference → Option String
  | plain .nonNull _ => none
  | plain .list _ => none
  | plain _ text? => text?
  | wrapping .nonNull _ inner => inner.shownName?
  | wrapping .list _ inner => inner.shownName?
  | wrapping _ text? _ => text?

/-- The token of a name, or nothing. -/
def nameTokens (text? : Option String) : List Token :=
  ((text?.bind Name.ofText?).map Token.name).toList

/-- The tokens that are written for a reference. -/
def tokens : Reference → List Token
  | plain .nonNull _ => [.punctuator .bang]
  | plain .list _ => [.punctuator .bracketOpen, .punctuator .bracketClose]
  | plain _ text? => nameTokens text?
  | wrapping .nonNull _ inner => inner.tokens ++ [.punctuator .bang]
  | wrapping .list _ inner =>
    .punctuator .bracketOpen :: (inner.tokens ++ [.punctuator .bracketClose])
  | wrapping _ text? _ => nameTokens text?

theorem scanClosed_shownName (text? : Option String)
    (h : text?.all (fun text ↦ isName text.toList) = true) :
    scanClosed (text?.getD "").toList = some (nameTokens text?) := by
  cases text? with
  | none => rfl
  | some text =>
    have htext : isName text.toList = true := h
    rw [nameTokens, Option.bind_some, Name.ofText?, dif_pos htext]
    exact scanClosed_name ⟨text, htext⟩

theorem scanClosed_render {ref : Reference}
    (h : ref.shownName?.all (fun text ↦ isName text.toList) = true) :
    scanClosed ref.render.toList = some ref.tokens := by
  induction ref with
  | plain kind text? =>
    cases kind with
    | list =>
      rw [render, tokens]
      rfl
    | nonNull =>
      rw [render, tokens]
      rfl
    | _ => exact scanClosed_shownName text? h
  | wrapping kind text? inner ih =>
    cases kind with
    | list =>
      have hclose : scanClosed [']'] = some [.punctuator .bracketClose] := rfl
      have hrender : (wrapping .list text? inner).render.toList =
          '[' :: (inner.render.toList ++ [']']) := by simp [render]
      rw [hrender]
      exact scanClosed_token_cons (t := .punctuator .bracketOpen) rfl
        (scanClosed_append (ih h) hclose (startsApart_cons rfl))
    | nonNull =>
      have hmark : scanClosed ['!'] = some [.punctuator .bang] := rfl
      have hrender : (wrapping .nonNull text? inner).render.toList =
          inner.render.toList ++ ['!'] := by simp [render]
      rw [hrender, tokens]
      exact scanClosed_append (ih h) hmark (startsApart_cons rfl)
    | _ => exact scanClosed_shownName text? h

/-- The name at the centre of a complete reference is the one that is written. -/
theorem isName_shownName_of_isComplete {ref : Reference} (h : ref.isComplete = true) :
    ref.shownName?.all (fun text ↦ isName text.toList) = true := by
  induction ref with
  | plain kind text? =>
    have named (hname : text?.any (fun text ↦ isName text.toList) = true) :
        text?.all (fun text ↦ isName text.toList) = true := by
      cases text? with
      | none => rfl
      | some text => exact hname
    cases kind <;> first | exact named h | rfl
  | wrapping kind text? inner ih =>
    cases kind with
    | list => exact ih h
    | nonNull =>
      rw [isComplete, Bool.and_eq_true] at h
      exact ih h.2
    | _ => cases h

end Reference

/-! ## The forms that references take -/

/-- What the tokens of a reference may be, as far as the parser is concerned. -/
inductive ReferenceForm : List Token → Prop
  | complete (t : TypeRef) : ReferenceForm t.tokens
  | missing : ReferenceForm []
  | requiredTwice (t : TypeRef) (ht : t.require? = none) (ts : List Token) :
    ReferenceForm (t.tokens ++ .punctuator .bang :: ts)
  | refused {ts : List Token} (h : ∀ depth rest, typeRefUpTo depth (ts ++ rest) = none) :
    ReferenceForm ts

/-- What is required already takes its own mark and no other one. -/
theorem eq_of_typeRefUpTo_required {depth : Nat} {t u : TypeRef} (ht : t.require? = none)
    {rest us : List Token} (h : typeRefUpTo depth (t.tokens ++ rest) = some (u, us)) :
    us = rest := by
  cases t with
  | named n required =>
    cases required with
    | false => cases ht
    | true =>
      rw [TypeRef.tokens, typeRefUpTo_of_name (n := n) rfl] at h
      obtain ⟨-, rfl⟩ : TypeRef.named n true = u ∧ rest = us := by
        simpa [TypeRef.markTokens, takeMark_cons] using h
      rfl
  | list item required =>
    cases required with
    | false => cases ht
    | true =>
      cases depth with
      | zero => cases h
      | succ depth =>
        rw [typeRefUpTo, TypeRef.tokens, List.cons_append, List.append_assoc,
          bind_of_eq (takeMark_cons .bracketOpen _)] at h
        obtain ⟨v, vs, hitem, h⟩ := exists_of_bind_eq h
        -- The item ends at the closing bracket, which the mark stands behind.
        have hpast : pastCommas vs = .punctuator .bracketClose :: .punctuator .bang :: rest :=
          pastCommas_of_typeRefUpTo (F := (· == .punctuator .bracketClose)) hitem
            (follows_cons rfl _) rfl
        rw [bind_of_eq (mark_of_pastCommas hpast), bind_of_eq (takeMark_cons .bang rest)] at h
        obtain ⟨-, rfl⟩ : TypeRef.list v true = u ∧ rest = us := by simpa [pure_eq] using h
        rfl

theorem tokens_of_require? {t u : TypeRef} (h : t.require? = some u) :
    u.tokens = t.tokens ++ [.punctuator .bang] := by
  cases t with
  | named n required =>
    cases required
    · obtain rfl := Option.some.inj h
      rfl
    · cases h
  | list item required =>
    cases required
    · obtain rfl := Option.some.inj h
      simp [TypeRef.tokens, TypeRef.markTokens]
    · cases h

/-- Brackets around something that is refused, or that is not over at the closing one. -/
theorem typeRefUpTo_bracketOpen_eq_none {depth : Nat} {ts : List Token}
    (h : ∀ depth u us, typeRefUpTo depth ts = some (u, us) →
      ∃ t vs, pastCommas us = t :: vs ∧ t ≠ .punctuator .bracketClose) :
    typeRefUpTo depth (.punctuator .bracketOpen :: ts) = none := by
  cases depth with
  | zero => rfl
  | succ depth =>
    rw [typeRefUpTo, bind_of_eq (takeMark_cons .bracketOpen _)]
    cases hitem : typeRefUpTo depth ts with
    | none => exact bind_of_none hitem
    | some r =>
      obtain ⟨t, vs, hpast, hne⟩ := h depth r.1 r.2 hitem
      have hclose : mark .bracketClose r.2 = none := by
        rw [mark, expectIf]
        exact bind_of_eq (takeMark_of_ne hpast hne)
      refine (bind_of_eq hitem).trans (bind_of_none hclose)

theorem form_nameTokens (text? : Option String) :
    ReferenceForm (Reference.nameTokens text?) := by
  rw [Reference.nameTokens]
  cases text?.bind Name.ofText? with
  | none => exact .missing
  | some n => exact .complete (.named n false)

theorem typeRefUpTo_mark_eq_none {p : Punctuator} (hp : p ≠ .bracketOpen) (depth : Nat)
    (ts : List Token) : typeRefUpTo depth (.punctuator p :: ts) = none :=
  typeRefUpTo_eq_none (F := (· == .punctuator p)) (follows_cons (by simp) ts) (by simp)
    (by simpa using hp.symm)

/-- The tokens of a reference that is put in brackets. -/
theorem ReferenceForm.list {ts : List Token} (h : ReferenceForm ts) :
    ReferenceForm (.punctuator .bracketOpen :: (ts ++ [.punctuator .bracketClose])) := by
  cases h with
  | complete t => exact .complete (.list t false)
  | missing =>
    refine .refused fun depth rest ↦ typeRefUpTo_bracketOpen_eq_none fun depth u us hread ↦ ?_
    have hnone := typeRefUpTo_mark_eq_none (p := .bracketClose) (by simp) depth rest
    exact absurd (hnone.symm.trans hread) (by simp)
  | requiredTwice t ht ts =>
    refine .refused fun depth rest ↦ ?_
    rw [List.cons_append, List.append_assoc, List.append_assoc, List.cons_append]
    refine typeRefUpTo_bracketOpen_eq_none fun depth u us hread ↦ ?_
    obtain rfl := eq_of_typeRefUpTo_required ht hread
    exact ⟨_, _, rfl, by simp⟩
  | refused h =>
    refine .refused fun depth rest ↦ ?_
    rw [List.cons_append, List.append_assoc]
    refine typeRefUpTo_bracketOpen_eq_none fun depth u us hread ↦ ?_
    exact absurd ((h depth _).symm.trans hread) (by simp)

/-- The tokens of a reference that is marked as required. -/
theorem ReferenceForm.require {ts : List Token} (h : ReferenceForm ts) :
    ReferenceForm (ts ++ [.punctuator .bang]) := by
  cases h with
  | complete t =>
    cases ht : t.require? with
    | none => exact .requiredTwice t ht []
    | some u => exact tokens_of_require? ht ▸ .complete u
  | missing => exact .refused fun depth rest ↦ typeRefUpTo_mark_eq_none (by simp) depth rest
  | requiredTwice t ht ts =>
    rw [List.append_assoc, List.cons_append]
    exact .requiredTwice t ht _
  | refused h =>
    refine .refused fun depth rest ↦ ?_
    rw [List.append_assoc, h]

theorem Reference.form (ref : Reference) : ReferenceForm ref.tokens := by
  induction ref with
  | plain kind text? =>
    cases kind with
    | list => exact ReferenceForm.missing.list
    | nonNull => exact ReferenceForm.missing.require
    | _ => exact form_nameTokens text?
  | wrapping kind text? inner ih =>
    cases kind with
    | list => exact ih.list
    | nonNull => exact ih.require
    | _ => exact form_nameTokens text?

/-! ## Behind a reference -/

/-- What may follow an item of a list whose items start with a name: another item, of which the
first two tokens are known, or the end of the list. -/
def endsEntry : List Token → Bool
  | .name _ :: t :: _ => t == .punctuator .colon || t == .punctuator .parenOpen
  | .string _ :: _ => true
  | .punctuator .parenClose :: _ => true
  | .punctuator .braceClose :: _ => true
  | _ => false

/-- What may follow the type of an item: a default value, a directive, or what follows the item. -/
def endsType : List Token → Bool
  | .punctuator .equals :: _ => true
  | .punctuator .atSign :: _ => true
  | ts => endsEntry ts

/-- Whether a token may follow the type of an item. -/
def followsType (t : Token) : Bool :=
  t == .punctuator .equals || t == .punctuator .atSign || endsItem t

theorem follows_of_endsType {ts : List Token} (h : endsType ts = true) :
    Follows followsType ts := by
  cases ts with
  | nil => cases h
  | cons t ts =>
    refine follows_cons ?_ ts
    cases t with
    | name n => rfl
    | string text => rfl
    | punctuator p => cases p <;> first | rfl | cases h
    | _ => cases h

/-- Where a reference is missing, the parser takes the name of the next item for it. -/
theorem stuck_of_typeRefUpTo {depth : Nat} {t : TypeRef} {ts us : List Token}
    (h : typeRefUpTo depth ts = some (t, us)) (hts : endsType (pastCommas ts) = true) :
    Stuck us := by
  cases hpast : pastCommas ts with
  | nil =>
    rw [hpast] at hts
    cases hts
  | cons u vs =>
    rw [hpast] at hts
    have refused (hname : ∀ n, u ≠ .name n) (hbracket : u ≠ .punctuator .bracketOpen) :
        typeRefUpTo depth ts = none := by
      refine typeRefUpTo_eq_none (F := (· == u)) ?_ (by simpa using fun n ↦ (hname n).symm)
        (by simpa using hbracket.symm)
      rw [hpast]
      exact follows_cons (by simp) vs
    cases u with
    | name n =>
      cases vs with
      | nil => cases hts
      | cons v ws =>
        have hv : isInner v = true ∧ v ≠ .punctuator .bang := by
          obtain rfl | rfl : v = .punctuator .colon ∨ v = .punctuator .parenOpen := by
            simpa [endsType, endsEntry] using hts
          all_goals exact ⟨rfl, by simp⟩
        have hpast' : pastCommas (v :: ws) = v :: ws := by
          refine pastCommas_cons ?_ ws
          rintro rfl
          cases hv.1
        rw [typeRefUpTo_of_name hpast, takeMark_of_ne hpast' hv.2] at h
        obtain ⟨-, rfl⟩ : TypeRef.named n false = t ∧ v :: ws = us := by simpa using h
        exact ⟨v, ws, hpast', hv.1⟩
    | string text => exact absurd ((refused (by simp) (by simp)).symm.trans h) (by simp)
    | punctuator p =>
      have hp : p ≠ .bracketOpen := by
        rintro rfl
        cases hts
      exact absurd ((refused (by simp) (by simpa using hp)).symm.trans h) (by simp)
    | comma => cases hts
    | int text => cases hts
    | float text => cases hts

/-- A reference is read as it was written, or the parser is stuck behind it. -/
theorem typeRef_of_reference {ref : Reference} {t : TypeRef} {rest us : List Token}
    (h : typeRef (ref.tokens ++ rest) = some (t, us)) (hrest : endsType (pastCommas rest) = true) :
    pastCommas us = pastCommas rest ∨ Stuck us := by
  have hform := ref.form
  generalize ref.tokens = ts at h hform
  cases hform with
  | complete u => exact .inl (pastCommas_of_typeRefUpTo h (follows_of_endsType hrest) rfl)
  | missing => exact .inr (stuck_of_typeRefUpTo h hrest)
  | requiredTwice u hu ts =>
    rw [List.append_assoc, List.cons_append] at h
    obtain rfl := eq_of_typeRefUpTo_required hu h
    exact .inr ⟨_, _, rfl, rfl⟩
  | refused hnone => exact absurd ((hnone _ rest).symm.trans h) (by simp)

end TypeFootprint.Introspection
