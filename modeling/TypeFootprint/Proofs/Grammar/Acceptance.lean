import TypeFootprint.Proofs.Grammar.Constants

/-!
# What is read, if anything is

The lemmas of `Readings` say that a parser reads something from tokens that are known.  Here are
the lemmas for tokens of which that is not known: an item may be refused, or the parser may take
more than the item for it.  `ReadsEntry` says that whatever is read is the item, or that the parser
then stands where no list goes on (`Stuck`).  So if a list is read at all, it is the list of its
items (`itemsUpTo_of_entries`).

A parser that may go deeper reads what one reads that may not (`extends_valueUpTo`).  That is why a
value that is nested too deep is refused rather than cut off (`eq_of_value_append`).
-/

set_option autoImplicit false

namespace TypeFootprint
namespace Parser

variable {α β γ : Type}

/-! ## What is refused at once -/

/-- There is no name where something else comes next. -/
theorem name_eq_none {F : Token → Bool} {ts : List Token} (h : Follows F (pastCommas ts))
    (hname : ∀ n, F (.name n) = false) : name ts = none := by
  cases hts : pastCommas ts with
  | nil =>
    have hnext : next ts = none := by rw [next, hts]
    rw [name, bind_of_none hnext]
  | cons t us =>
    rw [hts] at h
    rw [name, bind_of_eq (next_eq_some.2 hts)]
    cases t with
    | name n =>
      have hn := h _ rfl
      rw [hname n] at hn
      cases hn
    | _ => rfl

/-- There is no reference where neither a name nor a bracket comes next. -/
theorem typeRefUpTo_eq_none {F : Token → Bool} {depth : Nat} {ts : List Token}
    (h : Follows F (pastCommas ts)) (hname : ∀ n, F (.name n) = false)
    (hbracket : F (.punctuator .bracketOpen) = false) : typeRefUpTo depth ts = none := by
  cases depth with
  | zero => rw [typeRefUpTo, bind_of_none (name_eq_none h hname)]
  | succ depth =>
    have hpast : Follows F (pastCommas (pastCommas ts)) := by rwa [pastCommas_pastCommas]
    rw [typeRefUpTo, bind_of_eq (takeMark_of_follows h hbracket)]
    exact bind_of_none (name_eq_none hpast hname)

/-- A name is a reference by itself, required if it is marked. -/
theorem typeRefUpTo_of_name {depth : Nat} {ts us : List Token} {n : Name}
    (hts : pastCommas ts = .name n :: us) :
    typeRefUpTo depth ts = (takeMark .bang us).map fun r ↦ (.named n r.1, r.2) := by
  cases depth with
  | zero =>
    have hname : name ts = some (n, us) := bind_of_eq (next_eq_some.2 hts)
    rw [typeRefUpTo, bind_of_eq hname]
    exact bind_pure_eq_map _ _ us
  | succ depth =>
    rw [typeRefUpTo, bind_of_eq (takeMark_of_ne hts (by simp))]
    exact bind_pure_eq_map _ _ us

/-! ## Going deeper -/

/-- What the one parser reads, the other one reads as well. -/
def Extends (p q : Parser α) : Prop := ∀ ⦃ts : List Token⦄ ⦃r : α × List Token⦄,
  p ts = some r → q ts = some r

theorem Extends.refl (p : Parser α) : Extends p p := fun _ _ h ↦ h

theorem Extends.bind {p q : Parser α} {f g : α → Parser β} (h : Extends p q)
    (hfg : ∀ a, Extends (f a) (g a)) : Extends (p >>= f) (q >>= g) := by
  rintro ts ⟨b, us⟩ hb
  obtain ⟨a, vs, ha, hb⟩ := exists_of_bind_eq hb
  rw [bind_of_eq (h ha)]
  exact hfg a hb

theorem extends_itemsUpTo {p q : Parser α} (h : Extends p q) (close : Punctuator) (n : Nat) :
    Extends (itemsUpTo close p n) (itemsUpTo close q n) := by
  induction n with
  | zero => exact .refl _
  | succ n ih =>
    refine (Extends.refl _).bind fun closed ↦ ?_
    cases closed with
    | true => exact .refl _
    | false => exact h.bind fun x ↦ ih.bind fun xs ↦ .refl _

theorem extends_itemsTill {p q : Parser α} (h : Extends p q) (close : Punctuator) :
    Extends (itemsTill close p) (itemsTill close q) :=
  fun ts _ hr ↦ extends_itemsUpTo h close ts.length hr

/-- A value that is read where few levels are left is read where more are left. -/
theorem extends_valueUpTo (constant : Bool) {depth depth' : Nat} (h : depth ≤ depth') :
    Extends (valueUpTo constant depth) (valueUpTo constant depth') := by
  induction depth generalizing depth' with
  | zero => exact nofun
  | succ depth ih =>
    obtain ⟨depth', rfl⟩ := Nat.exists_eq_add_one.2 (Nat.zero_lt_of_lt h)
    have ih := ih (Nat.le_of_succ_le_succ h)
    have hfield : Extends (valueField (valueUpTo constant depth))
        (valueField (valueUpTo constant depth')) :=
      (Extends.refl _).bind fun n ↦ (Extends.refl _).bind fun _ ↦ ih.bind fun v ↦ .refl _
    refine (Extends.refl _).bind fun t ↦ ?_
    cases t with
    | punctuator p =>
      cases p with
      | bracketOpen => exact (extends_itemsTill ih _).bind fun items ↦ .refl _
      | braceOpen => exact (extends_itemsTill hfield _).bind fun fields ↦ .refl _
      | _ => exact .refl _
    | _ => exact .refl _

/-- What is read from the tokens of a value and others behind them is that value, even if fewer
levels are left. -/
theorem eq_of_value_append {depth depth' : Nat} {ts us rest : List Token} {v w : Value}
    (hv : value true depth ts = some (v, [])) (hw : value true depth' (ts ++ rest) = some (w, us)) :
    w = v ∧ us = rest := by
  have hle := Nat.add_le_add_right (Nat.le_max_left depth depth') 1
  have hle' := Nat.add_le_add_right (Nat.le_max_right depth depth') 1
  have hv := isLocal_valueUpTo true _ (extends_valueUpTo true hle hv) rest
  have hw := extends_valueUpTo true hle' hw
  have heq := hw.symm.trans hv
  simpa using heq

/-- Brackets that are nested deeper than the parser goes are refused. -/
theorem typeRefUpTo_eq_none_of_lt {depth : Nat} {t : TypeRef} (h : depth < t.depth)
    (rest : List Token) : typeRefUpTo depth (t.tokens ++ rest) = none := by
  induction t generalizing depth rest with
  | named n required => exact absurd h (Nat.not_lt_zero depth)
  | list item required ih =>
    cases depth with
    | zero => rfl
    | succ depth =>
      rw [typeRefUpTo, TypeRef.tokens, List.cons_append, List.append_assoc,
        bind_of_eq (takeMark_cons .bracketOpen _)]
      exact bind_of_none (ih (Nat.lt_of_succ_lt_succ h) _)

/-- What is read from the tokens of a reference is that reference. -/
theorem pastCommas_of_typeRefUpTo {F : Token → Bool} {depth : Nat} {t u : TypeRef}
    {rest us : List Token} (h : typeRefUpTo depth (t.tokens ++ rest) = some (u, us))
    (hrest : Follows F (pastCommas rest)) (hbang : F (.punctuator .bang) = false) :
    pastCommas us = pastCommas rest := by
  obtain hlt | hle := Nat.lt_or_ge depth t.depth
  · rw [typeRefUpTo_eq_none_of_lt hlt] at h
    cases h
  · obtain ⟨vs, hread, hvs⟩ := typeRefUpTo_tokens hle hrest hbang
    rw [hread] at h
    obtain ⟨-, rfl⟩ : t = u ∧ vs = us := by simpa using h
    exact hvs

/-! ## Lists -/

/-- Marks that come behind the name or the type of an item, and never before an item or behind the
last one. -/
def isInner : Token → Bool
  | .punctuator .bang => true
  | .punctuator .colon => true
  | .punctuator .parenOpen => true
  | _ => false

/-- Tokens with which no list of items goes on. -/
def Stuck (ts : List Token) : Prop := ∃ t us, pastCommas ts = t :: us ∧ isInner t = true

theorem Stuck.pastCommas {ts : List Token} (h : Stuck ts) : Stuck (pastCommas ts) := by
  rwa [Stuck, pastCommas_pastCommas]

theorem Stuck.follows {ts : List Token} (h : Stuck ts) :
    Follows isInner (Parser.pastCommas ts) := by
  obtain ⟨t, us, hts, ht⟩ := h
  rw [hts]
  exact follows_cons ht us

/-- No item starts there. -/
theorem describedName_eq_none {f : Option String → Name → Parser α} {ts : List Token}
    (h : Stuck ts) : (takeString >>= fun description ↦ name >>= f description) ts = none := by
  have hname : name (Parser.pastCommas ts) = none :=
    name_eq_none h.pastCommas.follows fun _ ↦ rfl
  obtain ⟨t, us, hts, ht⟩ := h
  have hstring : takeString ts = some (none, Parser.pastCommas ts) := by
    rw [takeString, hts]
    cases t <;> first | rfl | cases ht
  rw [bind_of_eq hstring, bind_of_none hname]

/-- The tokens of an item, what is shown of it, and what may follow: whatever is read from them is
shown like that, or nothing is read from what is left. -/
structure ReadsEntry (Next : List Token → Prop) (p : Parser α) (shown : α → γ) (ts : List Token)
    (x : γ) : Prop where
  starts : ∃ t us, ts = t :: us ∧ startsItem t = true
  next : ∀ rest, Next (ts ++ rest)
  reads : ∀ ⦃rest us : List Token⦄ ⦃a : α⦄, Next rest → p (ts ++ rest) = some (a, us) →
    shown a = x ∧ us = rest ∨ Stuck us

section Entries

variable {Next : List Token → Prop} {opening close : Punctuator} {p : Parser α} {shown : α → γ}
  {tss : List (List Token)} {xs : List γ}

theorem itemsUpTo_eq_none_of_stuck (hp : ∀ us, Stuck us → p us = none)
    (hclose : endsItem (.punctuator close) = true) {ts : List Token} (h : Stuck ts) (n : Nat) :
    itemsUpTo close p n ts = none := by
  cases n with
  | zero => rfl
  | succ n =>
    have hinner : isInner (.punctuator close) = false := by
      cases close <;> first | rfl | cases hclose
    have hne := takeMark_of_follows h.follows hinner
    rw [itemsUpTo, bind_of_eq hne]
    exact bind_of_none (hp _ h.pastCommas)

theorem next_flatten (h : List.Forall₂ (ReadsEntry Next p shown) tss xs) {rest : List Token}
    (hrest : Next rest) : Next (tss.flatten ++ rest) := by
  cases h with
  | nil => exact hrest
  | cons hx hxs =>
    rw [List.flatten_cons, List.append_assoc]
    exact hx.next _

/-- Items and what closes them: whatever is read are the items. -/
theorem itemsUpTo_of_entries (h : List.Forall₂ (ReadsEntry Next p shown) tss xs)
    (hnext : ∀ rest, Next (.punctuator close :: rest)) (hp : ∀ us, Stuck us → p us = none)
    (hclose : endsItem (.punctuator close) = true) {n : Nat} {rest us : List Token} {as : List α}
    (hread : itemsUpTo close p n (tss.flatten ++ .punctuator close :: rest) = some (as, us)) :
    as.map shown = xs ∧ us = rest := by
  induction h generalizing n as with
  | nil =>
    cases n with
    | zero => cases hread
    | succ n =>
      change itemsUpTo close p (n + 1) (.punctuator close :: rest) = _ at hread
      rw [itemsUpTo_of_close rfl] at hread
      obtain ⟨rfl, rfl⟩ : [] = as ∧ rest = us := by simpa using hread
      exact ⟨rfl, rfl⟩
  | @cons ts x tss xs hx hxs ih =>
    cases n with
    | zero => cases hread
    | succ n =>
      obtain ⟨t, vs, hts, ht⟩ := hx.starts
      have hfirst : (ts :: tss).flatten ++ .punctuator close :: rest =
          t :: (vs ++ (tss.flatten ++ .punctuator close :: rest)) := by
        rw [List.flatten_cons, hts, List.append_assoc, List.cons_append]
      rw [hfirst, itemsUpTo_of_ne (pastCommas_of_startsItem ht _)
        (ne_punctuator_of_startsItem ht close), ← List.cons_append, ← hts] at hread
      obtain ⟨a, ws, ha, hread⟩ := exists_of_bind_eq hread
      obtain ⟨as', us', has, hread⟩ := exists_of_bind_eq hread
      obtain ⟨rfl, rfl⟩ : a :: as' = as ∧ us' = us := by simpa [pure_eq] using hread
      obtain ⟨rfl, rfl⟩ | hstuck := hx.reads (next_flatten hxs (hnext rest)) ha
      · obtain ⟨rfl, rfl⟩ := ih has
        exact ⟨rfl, rfl⟩
      · rw [itemsUpTo_eq_none_of_stuck hp hclose hstuck] at has
        cases has

/-- Items in brackets, or none and no brackets: whatever is read are the items. -/
theorem optionalGroup_of_entries (h : List.Forall₂ (ReadsEntry Next p shown) tss xs)
    (hnext : ∀ rest, Next (.punctuator close :: rest)) (hp : ∀ us, Stuck us → p us = none)
    (hclose : endsItem (.punctuator close) = true) {F : Token → Bool} (hcomma : F .comma = false)
    (hopening : F (.punctuator opening) = false) {rest us : List Token} (hrest : Follows F rest)
    {as : List α}
    (hread : optionalGroup opening close p (groupTokens opening close tss ++ rest) =
      some (as, us)) :
    as.map shown = xs ∧ us = rest := by
  rw [groupTokens] at hread
  cases h with
  | nil =>
    have hnone : optionalGroup opening close p rest = some ([], rest) :=
      optionalGroup_of_forall₂ .nil hclose hcomma hopening rest hrest
    rw [List.isEmpty_nil, if_pos rfl, List.nil_append, hnone] at hread
    obtain ⟨rfl, rfl⟩ : [] = as ∧ rest = us := by simpa using hread
    exact ⟨rfl, rfl⟩
  | @cons ts x tss xs hx hxs =>
    rw [List.isEmpty_cons, if_neg Bool.false_ne_true, List.cons_append, optionalGroup_cons,
      List.append_assoc, List.singleton_append, List.flatten_cons, List.append_assoc] at hread
    obtain ⟨a, ws, ha, hread⟩ := exists_of_bind_eq hread
    obtain ⟨as', us', has, hread⟩ := exists_of_bind_eq hread
    obtain ⟨rfl, rfl⟩ : a :: as' = as ∧ us' = us := by simpa [pure_eq] using hread
    obtain ⟨rfl, rfl⟩ | hstuck := hx.reads (next_flatten hxs (hnext rest)) ha
    · obtain ⟨rfl, rfl⟩ := itemsUpTo_of_entries hxs hnext hp hclose has
      exact ⟨rfl, rfl⟩
    · have hnone : itemsTill close p ws = none :=
        itemsUpTo_eq_none_of_stuck hp hclose hstuck _
      rw [hnone] at has
      cases has

end Entries

/-! ## Lists of names -/

section Separated

variable {separator : Punctuator} {p : Parser α} {F : Token → Bool} {rest us : List Token}
  {as : List α}

theorem eq_of_moreUpTo {ns : List Name}
    (hp : ∀ ⦃n ts vs a⦄, p (.name n :: ts) = some (a, vs) → vs = ts)
    (hcomma : F .comma = false) (hsep : F (.punctuator separator) = false) (hrest : Follows F rest)
    {k : Nat} (hk : ns.length ≤ k)
    (h : moreUpTo separator p k (ns.flatMap (behindMark separator) ++ rest) = some (as, us)) :
    us = rest := by
  induction ns generalizing k as with
  | nil =>
    have hnil : List.Forall₂ (fun n a ↦ ∀ rest, p (.name n :: rest) = some (a, rest)) [] [] := .nil
    have hstop : moreUpTo separator p k rest = some ([], rest) :=
      moreUpTo_of_forall₂ hnil hcomma hsep hrest hk
    obtain ⟨-, rfl⟩ : [] = as ∧ rest = us := by simpa using hstop.symm.trans h
    rfl
  | cons n ns ih =>
    obtain ⟨k, rfl⟩ := Nat.exists_eq_add_one.2 (Nat.zero_lt_of_lt hk)
    rw [List.flatMap_cons, List.append_assoc, behindMark, List.cons_append,
      List.singleton_append, moreUpTo, bind_of_eq (takeMark_cons separator _)] at h
    obtain ⟨a, vs, ha, h⟩ := exists_of_bind_eq h
    obtain ⟨as', ws, has, h⟩ := exists_of_bind_eq h
    obtain ⟨-, rfl⟩ : a :: as' = as ∧ ws = us := by simpa [pure_eq] using h
    obtain rfl := hp ha
    exact ih (Nat.le_of_succ_le_succ hk) has

/-- Names with a mark between each two are over behind the last one. -/
theorem eq_of_separated {ns : List Name} (hne : ns ≠ [])
    (hp : ∀ ⦃n ts vs a⦄, p (.name n :: ts) = some (a, vs) → vs = ts)
    (hcomma : F .comma = false) (hsep : F (.punctuator separator) = false) (hrest : Follows F rest)
    (h : separated separator p (separatedTokens separator ns ++ rest) = some (as, us)) :
    us = rest := by
  obtain ⟨n, ns, rfl⟩ := List.exists_cons_of_ne_nil hne
  rw [separatedTokens, List.cons_append, separated,
    bind_of_eq (takeMark_name_cons separator n _)] at h
  obtain ⟨a, vs, ha, h⟩ := exists_of_bind_eq h
  obtain ⟨as', ws, has, h⟩ := exists_of_bind_eq h
  obtain ⟨-, rfl⟩ : a :: as' = as ∧ ws = us := by simpa [pure_eq] using h
  obtain rfl := hp ha
  refine eq_of_moreUpTo hp hcomma hsep hrest ?_ has
  simp [behindMark]
  omega

end Separated

end Parser
end TypeFootprint
