import TypeFootprint.Proofs.Grammar.Readings
import TypeFootprint.Proofs.Token.Spelling

/-!
# Constants and type references inside a longer text

A value is over when its own tokens are: what `valueUpTo` reads from some tokens, it reads from the
same tokens when others follow (`isLocal_valueUpTo`).  So a text that is a constant by itself, which
is what `constant?` decides, stays that constant as a default value.

A type reference is written with `TypeRef.chars`, scanned to `TypeRef.tokens` and read back, but
only if no second `!` follows.
-/

set_option autoImplicit false

namespace TypeFootprint

namespace Parser

variable {α β : Type}

/-- What a parser reads from some tokens, it reads from them when others follow. -/
def IsLocal (p : Parser α) : Prop :=
  ∀ ⦃ts us : List Token⦄ ⦃a : α⦄, p ts = some (a, us) →
    ∀ rest, p (ts ++ rest) = some (a, us ++ rest)

theorem isLocal_pure (a : α) : IsLocal (pure a : Parser α) := by
  intro ts us b h rest
  obtain ⟨rfl, rfl⟩ : a = b ∧ ts = us := by simpa [pure_eq] using h
  rfl

theorem isLocal_failure : IsLocal (failure : Parser α) := nofun

theorem IsLocal.bind {p : Parser α} {f : α → Parser β} (hp : IsLocal p)
    (hf : ∀ a, IsLocal (f a)) : IsLocal (p >>= f) := by
  intro ts us b h rest
  obtain ⟨a, vs, ha, hb⟩ := exists_of_bind_eq h
  rw [bind_of_eq (hp ha rest)]
  exact hf a hb rest

theorem pastCommas_append {ts us : List Token} {t : Token} (h : pastCommas ts = t :: us)
    (rest : List Token) : pastCommas (ts ++ rest) = t :: (us ++ rest) := by
  have hne : ¬(ts.dropWhile fun t ↦ t == .comma).isEmpty = true := by
    rw [show ts.dropWhile (fun t ↦ t == .comma) = t :: us from h]
    simp
  rw [pastCommas, List.dropWhile_append, if_neg hne]
  exact congrArg (· ++ rest) h

theorem next_eq_some {ts us : List Token} {t : Token} :
    next ts = some (t, us) ↔ pastCommas ts = t :: us := by
  rw [next]
  cases pastCommas ts <;> simp

theorem isLocal_next : IsLocal next := by
  intro ts us t h rest
  exact next_eq_some.2 (pastCommas_append (next_eq_some.1 h) rest)

theorem isLocal_name : IsLocal name := by
  refine isLocal_next.bind fun t ↦ ?_
  cases t with
  | name n => exact isLocal_pure n
  | _ => exact isLocal_failure

theorem isLocal_mark (p : Punctuator) : IsLocal (mark p) := by
  intro ts us u h rest
  change (takeMark p >>= fun b ↦ if b then pure () else failure) ts = some (u, us) at h
  cases hts : pastCommas ts with
  | nil =>
    rw [bind_of_eq (takeMark_of_nil hts)] at h
    cases h
  | cons t vs =>
    by_cases ht : t = .punctuator p
    · subst ht
      rw [bind_of_eq (takeMark_of_pastCommas hts), if_pos rfl, pure_eq] at h
      obtain rfl : vs = us := by simpa using h
      exact mark_of_pastCommas (pastCommas_append hts rest)
    · rw [bind_of_eq (takeMark_of_ne hts ht)] at h
      cases h

section Items

variable {close : Punctuator} {item : Parser α}

/-- The closing mark is among the tokens of the list, so what follows them is not looked at: at the
end of the tokens the next item is missing. -/
theorem itemsUpTo_append (hlocal : IsLocal item) (hnil : item [] = none) {n m : Nat}
    {ts us : List Token} {as : List α} (h : itemsUpTo close item n ts = some (as, us))
    (hnm : n ≤ m) (rest : List Token) :
    itemsUpTo close item m (ts ++ rest) = some (as, us ++ rest) := by
  induction n generalizing m ts as with
  | zero => cases h
  | succ n ih =>
    obtain ⟨m, rfl⟩ := Nat.exists_eq_add_one.2 (Nat.zero_lt_of_lt hnm)
    cases hts : pastCommas ts with
    | nil =>
      -- The list is not closed yet, so an item would have to be read from nothing.
      rw [itemsUpTo, bind_of_eq (takeMark_of_nil hts)] at h
      change (item >>= fun x ↦ itemsUpTo close item n >>= fun xs ↦ pure (x :: xs)) [] = _ at h
      rw [bind_of_none hnil] at h
      cases h
    | cons t vs =>
      have happ := pastCommas_append hts rest
      by_cases ht : t = .punctuator close
      · subst ht
        rw [itemsUpTo_of_close hts] at h
        rw [itemsUpTo_of_close happ]
        obtain ⟨rfl, rfl⟩ : [] = as ∧ vs = us := by simpa using h
        rfl
      · rw [itemsUpTo_of_ne hts ht] at h
        rw [itemsUpTo_of_ne happ ht]
        obtain ⟨x, ws, hx, h⟩ := exists_of_bind_eq h
        obtain ⟨xs, us', hxs, h⟩ := exists_of_bind_eq h
        obtain ⟨rfl, rfl⟩ : x :: xs = as ∧ us' = us := by simpa [pure_eq] using h
        rw [← List.cons_append, bind_of_eq (hlocal hx rest),
          bind_of_eq (ih hxs (Nat.le_of_succ_le_succ hnm)), pure_eq]

theorem isLocal_itemsTill (hlocal : IsLocal item) (hnil : item [] = none) :
    IsLocal (itemsTill close item) := by
  intro ts us as h rest
  exact itemsUpTo_append hlocal hnil h (by simp) rest

end Items

theorem valueUpTo_nil (constant : Bool) (depth : Nat) : valueUpTo constant depth [] = none := by
  cases depth <;> rfl

theorem isLocal_valueField {item : Parser Value} (h : IsLocal item) : IsLocal (valueField item) :=
  isLocal_name.bind fun n ↦ (isLocal_mark _).bind fun _ ↦ h.bind fun v ↦ isLocal_pure (n, v)

theorem valueField_nil (item : Parser Value) : valueField item [] = none := rfl

/-- A value is over when its own tokens are. -/
theorem isLocal_valueUpTo (constant : Bool) (depth : Nat) :
    IsLocal (valueUpTo constant depth) := by
  induction depth with
  | zero => exact isLocal_failure
  | succ depth ih =>
    have hlist : IsLocal (itemsTill .bracketClose (valueUpTo constant depth)) :=
      isLocal_itemsTill ih (valueUpTo_nil constant depth)
    have hobject : IsLocal (itemsTill .braceClose (valueField (valueUpTo constant depth))) :=
      isLocal_itemsTill (isLocal_valueField ih) (valueField_nil _)
    refine isLocal_next.bind fun t ↦ ?_
    cases t with
    | int text => exact isLocal_pure _
    | float text => exact isLocal_pure _
    | string text => exact isLocal_pure _
    | name n => exact isLocal_pure _
    | comma => exact isLocal_failure
    | punctuator p =>
      cases p with
      | dollar =>
        cases constant with
        | false => exact isLocal_name.bind fun n ↦ isLocal_pure _
        | true => exact isLocal_failure
      | bracketOpen => exact hlist.bind fun items ↦ isLocal_pure _
      | braceOpen => exact hobject.bind fun fields ↦ isLocal_pure _
      | _ => exact isLocal_failure

/-- The constant that a text writes, if the text is one and leaves no comment open.  Brackets and
braces are nested at most `depth` deep. -/
def constant? (depth : Nat) (text : String) : Option Value := do
  let ts ← Token.scanClosed text.toList
  match value true depth ts with
  | some (v, []) => some v
  | _ => none

theorem exists_of_constant? {depth : Nat} {text : String} {v : Value}
    (h : constant? depth text = some v) :
    ∃ ts, Token.scanClosed text.toList = some ts ∧
      ∀ rest, value true depth (ts ++ rest) = some (v, rest) := by
  obtain ⟨ts, hts, h⟩ := Option.bind_eq_some_iff.1 h
  refine ⟨ts, hts, fun rest ↦ ?_⟩
  split at h
  · next hv =>
    obtain rfl := Option.some.inj h
    exact isLocal_valueUpTo true (depth + 1) hv rest
  · cases h

/-! ## Lists in lists -/

section Brackets

variable {close : Punctuator} {item : Parser α} {t : Token} {ts us : List Token}

theorem itemsTill_close (close : Punctuator) (item : Parser α) (ts : List Token) :
    itemsTill close item (.punctuator close :: ts) = some ([], ts) :=
  itemsUpTo_of_close rfl ts.length

theorem itemsTill_eq_none (ht : pastCommas (t :: ts) = t :: ts) (hclose : t ≠ .punctuator close)
    (hitem : item (t :: ts) = none) : itemsTill close item (t :: ts) = none := by
  rw [itemsTill, List.length_cons, itemsUpTo_of_ne ht hclose, bind_of_none hitem]

theorem itemsTill_of_item (ht : pastCommas (t :: ts) = t :: ts) (hclose : t ≠ .punctuator close)
    (hne : ts ≠ []) {a : α} (hitem : item (t :: ts) = some (a, .punctuator close :: us)) :
    itemsTill close item (t :: ts) = some ([a], us) := by
  obtain ⟨u, vs, rfl⟩ := List.exists_cons_of_ne_nil hne
  have hend : itemsUpTo close item (u :: vs).length (.punctuator close :: us) = some ([], us) :=
    itemsUpTo_of_close rfl vs.length
  rw [itemsTill, List.length_cons, itemsUpTo_of_ne ht hclose, bind_of_eq hitem, bind_of_eq hend,
    pure_eq]

theorem valueUpTo_bracketOpen (constant : Bool) (depth : Nat) (ts : List Token) :
    valueUpTo constant (depth + 1) (.punctuator .bracketOpen :: ts) =
      (itemsTill .bracketClose (valueUpTo constant depth) ts).map fun r ↦ (.list r.1, r.2) :=
  bind_pure_eq_map _ _ ts

/-- No value opens more brackets than its depth allows. -/
theorem valueUpTo_eq_none_of_lt (constant : Bool) {depth n : Nat} (h : depth < n)
    (ts : List Token) :
    valueUpTo constant depth (List.replicate n (.punctuator .bracketOpen) ++ ts) = none := by
  induction depth generalizing n with
  | zero => rfl
  | succ depth ih =>
    -- Two brackets are open at least: the item of the outer list starts with the inner one.
    obtain ⟨n, rfl⟩ : ∃ k, n = k + 2 := ⟨n - 2, by omega⟩
    have hitem := ih (n := n + 1) (by omega)
    rw [List.replicate_succ, List.cons_append] at hitem ⊢
    rw [valueUpTo_bracketOpen, List.replicate_succ, List.cons_append,
      itemsTill_eq_none rfl (by simp) hitem, Option.map_none]

/-- The tokens of lists in lists, with nothing inside. -/
def nestedTokens (n : Nat) : List Token :=
  List.replicate n (.punctuator .bracketOpen) ++ List.replicate n (.punctuator .bracketClose)

theorem nestedTokens_succ_append (n : Nat) (ts : List Token) :
    nestedTokens (n + 1) ++ ts =
      .punctuator .bracketOpen :: (nestedTokens n ++ .punctuator .bracketClose :: ts) := by
  rw [nestedTokens, nestedTokens, List.replicate_succ, List.replicate_succ']
  simp

/-- Brackets that the depth allows are a value. -/
theorem exists_valueUpTo_nestedTokens (constant : Bool) {depth n : Nat} (h : n < depth)
    (ts : List Token) :
    ∃ v, valueUpTo constant depth (nestedTokens (n + 1) ++ ts) = some (v, ts) := by
  induction n generalizing depth ts with
  | zero =>
    obtain ⟨depth, rfl⟩ := Nat.exists_eq_add_one.2 h
    refine ⟨.list [], ?_⟩
    rw [nestedTokens_succ_append, valueUpTo_bracketOpen]
    change (itemsTill .bracketClose _ (.punctuator .bracketClose :: ts)).map _ = _
    rw [itemsTill_close, Option.map_some]
  | succ n ih =>
    obtain ⟨depth, rfl⟩ := Nat.exists_eq_add_one.2 (Nat.zero_lt_of_lt h)
    obtain ⟨v, hv⟩ := ih (Nat.lt_of_succ_lt_succ h) (.punctuator .bracketClose :: ts)
    refine ⟨.list [v], ?_⟩
    rw [nestedTokens_succ_append, valueUpTo_bracketOpen]
    rw [nestedTokens_succ_append] at hv ⊢
    rw [itemsTill_of_item rfl (by simp) (by simp) hv, Option.map_some]

/-- Lists in lists, with nothing inside. -/
def nestedLists (n : Nat) : List Char := List.replicate n '[' ++ List.replicate n ']'

theorem startsApart_nestedLists (n : Nat) : Token.StartsApart (nestedLists n) := by
  cases n with
  | zero => exact Token.startsApart_nil
  | succ n => exact Token.startsApart_cons rfl

theorem scanClosed_nestedLists (n : Nat) :
    Token.scanClosed (nestedLists n) = some (nestedTokens n) := by
  have hclose := Token.scanClosed_replicate_append (c := ']') rfl n Token.scanClosed_nil
  rw [List.append_nil, List.append_nil] at hclose
  exact Token.scanClosed_replicate_append rfl n hclose

/-- Lists in lists are a constant. -/
theorem isSome_constant?_nestedLists {depth n : Nat} (h : n ≤ depth) :
    (constant? depth (String.ofList (nestedLists (n + 1)))).isSome = true := by
  obtain ⟨v, hv⟩ := exists_valueUpTo_nestedTokens true (Nat.lt_succ_of_le h) []
  rw [List.append_nil] at hv
  have hvalue : value true depth (nestedTokens (n + 1)) = some (v, []) := hv
  rw [constant?, String.toList_ofList, scanClosed_nestedLists, Option.bind_eq_bind,
    Option.bind_some, hvalue, Option.isSome_some]

end Brackets

end Parser

namespace TypeRef

/-- The tokens of the mark behind a required type. -/
def markTokens (required : Bool) : List Token := if required then [.punctuator .bang] else []

/-- The tokens of a reference. -/
def tokens : TypeRef → List Token
  | named n required => .name n :: markTokens required
  | list item required =>
    .punctuator .bracketOpen :: (item.tokens ++ .punctuator .bracketClose :: markTokens required)

/-- How deep the brackets of a reference are nested. -/
def depth : TypeRef → Nat
  | named _ _ => 0
  | list item _ => item.depth + 1

theorem startsApart_mark (required : Bool) : Token.StartsApart (mark required) := by
  cases required
  · exact Token.startsApart_nil
  · exact Token.startsApart_cons rfl

theorem scanClosed_mark (required : Bool) :
    Token.scanClosed (mark required) = some (markTokens required) := by
  cases required <;> rfl

/-- What is written for a reference are its tokens. -/
theorem scanClosed_chars (t : TypeRef) : Token.scanClosed t.chars = some t.tokens := by
  induction t with
  | named n required =>
    exact Token.scanClosed_name_append n (scanClosed_mark required) (startsApart_mark required)
  | list item required ih =>
    have hclose : Token.scanClosed (']' :: mark required) =
        some (.punctuator .bracketClose :: markTokens required) :=
      Token.scanClosed_token_cons rfl (scanClosed_mark required)
    exact Token.scanClosed_token_cons rfl
      (Token.scanClosed_append ih hclose (Token.startsApart_cons rfl))

end TypeRef

namespace Parser

variable {F : Token → Bool} {rest : List Token}

theorem takeMark_markTokens (required : Bool) (h : Follows F (pastCommas rest))
    (hbang : F (.punctuator .bang) = false) :
    ∃ us, takeMark .bang (TypeRef.markTokens required ++ rest) = some (required, us) ∧
      pastCommas us = pastCommas rest := by
  cases required with
  | false => exact ⟨_, takeMark_of_follows h hbang, pastCommas_pastCommas rest⟩
  | true => exact ⟨_, takeMark_cons .bang rest, rfl⟩

/-- A reference is read back from its tokens, unless they are followed by another `!`. -/
theorem typeRefUpTo_tokens {depth : Nat} {t : TypeRef} (hdepth : t.depth ≤ depth)
    (h : Follows F (pastCommas rest)) (hbang : F (.punctuator .bang) = false) :
    ∃ us, typeRefUpTo depth (t.tokens ++ rest) = some (t, us) ∧
      pastCommas us = pastCommas rest := by
  induction t generalizing depth F rest with
  | named n required =>
    obtain ⟨us, hmark, hus⟩ := takeMark_markTokens required h hbang
    refine ⟨us, ?_, hus⟩
    cases depth with
    | zero =>
      rw [typeRefUpTo, TypeRef.tokens, List.cons_append, bind_of_eq (name_cons n _),
        bind_of_eq hmark, pure_eq]
    | succ depth =>
      rw [typeRefUpTo, TypeRef.tokens, List.cons_append,
        bind_of_eq (takeMark_name_cons .bracketOpen n _)]
      change (name >>= fun n ↦ takeMark .bang >>= fun b ↦ pure (TypeRef.named n b)) _ = _
      rw [bind_of_eq (name_cons n _), bind_of_eq hmark, pure_eq]
  | list item required ih =>
    obtain ⟨depth, rfl⟩ : ∃ d, depth = d + 1 :=
      Nat.exists_eq_add_one.2 (Nat.lt_of_lt_of_le (Nat.succ_pos _) hdepth)
    obtain ⟨us, hmark, hus⟩ := takeMark_markTokens required h hbang
    -- The item is followed by the closing bracket, whatever follows the whole reference.
    have hclose : Follows (· == .punctuator .bracketClose)
        (pastCommas (.punctuator .bracketClose :: (TypeRef.markTokens required ++ rest))) :=
      follows_cons (by simp) _
    obtain ⟨vs, hitem, hvs⟩ := ih (Nat.le_of_succ_le_succ hdepth) hclose rfl
    refine ⟨us, ?_, hus⟩
    rw [typeRefUpTo, TypeRef.tokens, List.cons_append, List.append_assoc, List.cons_append,
      bind_of_eq (takeMark_cons .bracketOpen _)]
    change (typeRefUpTo depth >>= fun item ↦ mark .bracketClose >>= fun _ ↦
      takeMark .bang >>= fun b ↦ pure (TypeRef.list item b)) _ = _
    rw [bind_of_eq hitem, bind_of_eq (mark_of_pastCommas hvs), bind_of_eq hmark, pure_eq]

theorem typeRef_tokens {t : TypeRef} (hdepth : t.depth ≤ maxDepth)
    (h : Follows F (pastCommas rest)) (hbang : F (.punctuator .bang) = false) :
    ∃ us, typeRef (t.tokens ++ rest) = some (t, us) ∧ pastCommas us = pastCommas rest :=
  typeRefUpTo_tokens hdepth h hbang

/-! ## Default values and directives -/

theorem defaultValue_of_follows (h : Follows F (pastCommas rest))
    (hequals : F (.punctuator .equals) = false) :
    defaultValue rest = some (none, pastCommas rest) :=
  bind_of_eq (takeMark_of_follows h hequals)

theorem defaultValue_of_equals {ts us : List Token} {v : Value}
    (hts : pastCommas ts = .punctuator .equals :: us)
    (hv : value true maxDepth us = some (v, rest)) :
    defaultValue ts = some (some v, rest) := by
  rw [defaultValue, bind_of_eq (takeMark_of_pastCommas hts)]
  change (value true maxDepth >>= fun v ↦ pure (some v)) us = _
  rw [bind_of_eq hv, pure_eq]

/-- A value that is not read spoils what it is the default of. -/
theorem defaultValue_eq_none {ts us : List Token} (hts : pastCommas ts = .punctuator .equals :: us)
    (hv : value true maxDepth us = none) : defaultValue ts = none := by
  rw [defaultValue, bind_of_eq (takeMark_of_pastCommas hts)]
  exact bind_of_none hv

theorem outerDirectives_of_follows (h : Follows F (pastCommas rest))
    (hat : F (.punctuator .atSign) = false) :
    outerDirectives true rest = some ([], pastCommas rest) := whileStarts_of_follows h hat

end Parser
end TypeFootprint
