import Mathlib.Data.List.DropRight
import Mathlib.Data.List.Forall2
import TypeFootprint.Grammar.Value

/-!
# What the parsers make of tokens that are known

Each parser is described by what it takes from tokens that start in a certain way, and a sequence of
parsers is run with `bind_of_eq`, one step after the other.

A parser that ends with something optional looks at the token behind it.  `Follows F ts` says that
`ts` is empty or starts with a token that passes the test `F`, and `Reads F p ts a` that `p` reads
`a` from `ts`, whatever follows that passes the test.  Items of a list in braces or parentheses are
read one by one, then all of them (`itemsTill_of_forall₂`).
-/

set_option autoImplicit false

namespace TypeFootprint
namespace Parser

variable {α β : Type}

theorem bind_of_eq {p : Parser α} {f : α → Parser β} {ts us : List Token} {a : α}
    (h : p ts = some (a, us)) : (p >>= f) ts = f a us := by
  change (p ts).bind (fun r ↦ f r.1 r.2) = _
  rw [h, Option.bind_some]

theorem bind_of_none {p : Parser α} {f : α → Parser β} {ts : List Token} (h : p ts = none) :
    (p >>= f) ts = none := by
  change (p ts).bind (fun r ↦ f r.1 r.2) = _
  rw [h, Option.bind_none]

theorem exists_of_bind_eq {p : Parser α} {f : α → Parser β} {ts us : List Token} {b : β}
    (h : (p >>= f) ts = some (b, us)) : ∃ a vs, p ts = some (a, vs) ∧ f a vs = some (b, us) := by
  change (p ts).bind (fun r ↦ f r.1 r.2) = _ at h
  obtain ⟨⟨a, vs⟩, hp, hf⟩ := Option.bind_eq_some_iff.1 h
  exact ⟨a, vs, hp, hf⟩

theorem bind_pure_eq_map (p : Parser α) (f : α → β) (ts : List Token) :
    (p >>= fun a ↦ pure (f a)) ts = (p ts).map fun r ↦ (f r.1, r.2) := by
  cases h : p ts with
  | none => rw [bind_of_none h, Option.map_none]
  | some r => rw [bind_of_eq h, Option.map_some]; rfl

theorem pure_eq (a : α) (ts : List Token) : (pure a : Parser α) ts = some (a, ts) := rfl

/-! ## Commas -/

@[simp] theorem pastCommas_comma_cons (ts : List Token) :
    pastCommas (.comma :: ts) = pastCommas ts := rfl

theorem pastCommas_cons {t : Token} (h : t ≠ .comma) (ts : List Token) :
    pastCommas (t :: ts) = t :: ts := List.dropWhile_cons_of_neg (by simpa using h)

@[simp] theorem pastCommas_pastCommas (ts : List Token) :
    pastCommas (pastCommas ts) = pastCommas ts := List.dropWhile_idempotent _ _

/-! ## What follows -/

/-- The tokens are at their end, or the first one passes a test. -/
def Follows (F : Token → Bool) (ts : List Token) : Prop := ∀ t ∈ ts.head?, F t = true

/-- Whether a token may stand behind an item of a list in braces or parentheses. -/
def endsItem : Token → Bool
  | .name _ => true
  | .string _ => true
  | .punctuator .parenClose => true
  | .punctuator .braceClose => true
  | _ => false

/-- Whether an item of such a list may start with a token. -/
def startsItem : Token → Bool
  | .name _ => true
  | .string _ => true
  | _ => false

theorem follows_cons {F : Token → Bool} {t : Token} (h : F t = true) (ts : List Token) :
    Follows F (t :: ts) := by
  intro u hu
  obtain rfl : t = u := by simpa using hu
  exact h

theorem Follows.mono {F G : Token → Bool} {ts : List Token} (h : Follows F ts)
    (himp : ∀ t, F t = true → G t = true) : Follows G ts := fun t ht ↦ himp t (h t ht)

theorem Follows.pastCommas_eq {F : Token → Bool} {ts : List Token} (h : Follows F ts)
    (hc : F .comma = false) : pastCommas ts = ts := by
  cases ts with
  | nil => rfl
  | cons t ts =>
    refine pastCommas_cons ?_ ts
    rintro rfl
    rw [h .comma rfl] at hc
    cases hc

theorem endsItem_of_startsItem {t : Token} (h : startsItem t = true) : endsItem t = true := by
  cases t <;> simp_all [startsItem, endsItem]

theorem peek_cons {t : Token} {ts : List Token} (h : pastCommas (t :: ts) = t :: ts) :
    peek (t :: ts) = some (some t, t :: ts) := by
  rw [peek, h]
  rfl

theorem takeIf_of_pastCommas {q : Token → Bool} {t : Token} {ts us : List Token}
    (h : pastCommas ts = t :: us) (hq : q t = true) : takeIf q ts = some (true, us) := by
  rw [takeIf, h]
  simp [hq]

theorem takeIf_of_follows {q F : Token → Bool} {ts : List Token}
    (h : Follows F (pastCommas ts)) (hq : ∀ t, F t = true → q t = false) :
    takeIf q ts = some (false, pastCommas ts) := by
  rw [takeIf]
  cases hts : pastCommas ts with
  | nil => rfl
  | cons t us =>
    rw [hts] at h
    simp [hq t (h t rfl)]

theorem takeMark_of_pastCommas {p : Punctuator} {ts us : List Token}
    (h : pastCommas ts = .punctuator p :: us) : takeMark p ts = some (true, us) :=
  takeIf_of_pastCommas h (by simp)

theorem takeMark_cons (p : Punctuator) (ts : List Token) :
    takeMark p (.punctuator p :: ts) = some (true, ts) := takeMark_of_pastCommas rfl

theorem takeMark_of_follows {F : Token → Bool} {p : Punctuator} {ts : List Token}
    (h : Follows F (pastCommas ts)) (hp : F (.punctuator p) = false) :
    takeMark p ts = some (false, pastCommas ts) := by
  refine takeIf_of_follows h fun t ht ↦ beq_eq_false_iff_ne.2 ?_
  rintro rfl
  rw [ht] at hp
  cases hp

theorem takeMark_of_nil {p : Punctuator} {ts : List Token} (h : pastCommas ts = []) :
    takeMark p ts = some (false, []) := by
  rw [takeMark, takeIf, h]

theorem takeMark_of_ne {p : Punctuator} {t : Token} {ts us : List Token}
    (h : pastCommas ts = t :: us) (ht : t ≠ .punctuator p) :
    takeMark p ts = some (false, t :: us) := by
  rw [takeMark, takeIf, h]
  simp [ht]

theorem takeMark_name_cons (p : Punctuator) (n : Name) (ts : List Token) :
    takeMark p (.name n :: ts) = some (false, .name n :: ts) := rfl

theorem pastCommas_of_startsItem {t : Token} (h : startsItem t = true) (ts : List Token) :
    pastCommas (t :: ts) = t :: ts := by
  refine pastCommas_cons ?_ ts
  rintro rfl
  cases h

theorem ne_punctuator_of_startsItem {t : Token} (h : startsItem t = true) (p : Punctuator) :
    t ≠ .punctuator p := by
  rintro rfl
  cases h

theorem mark_of_pastCommas {p : Punctuator} {ts us : List Token}
    (h : pastCommas ts = .punctuator p :: us) : mark p ts = some ((), us) :=
  bind_of_eq (takeMark_of_pastCommas h)

theorem mark_cons (p : Punctuator) (ts : List Token) :
    mark p (.punctuator p :: ts) = some ((), ts) := mark_of_pastCommas rfl

theorem name_cons (n : Name) (ts : List Token) : name (.name n :: ts) = some (n, ts) := rfl

/-- The tokens of a description. -/
def descriptionTokens (description : Option String) : List Token :=
  (description.map Token.string).toList

theorem takeString_descriptionTokens (description : Option String) (n : Name) (ts : List Token) :
    takeString (descriptionTokens description ++ .name n :: ts) =
      some (description, .name n :: ts) := by
  cases description <;> rfl

theorem startsItem_descriptionTokens (description : Option String) (n : Name) (ts : List Token) :
    ∃ t us, descriptionTokens description ++ .name n :: ts = t :: us ∧ startsItem t = true := by
  cases description with
  | none => exact ⟨_, _, rfl, rfl⟩
  | some text => exact ⟨_, _, rfl, rfl⟩

theorem keyword_cons {n : Name} {text : String} (h : n.text = text) (ts : List Token) :
    keyword text (.name n :: ts) = some ((), ts) :=
  bind_of_eq (takeIf_of_pastCommas (t := .name n) rfl (by simp [isKeyword, h]))

theorem takeKeyword_cons {n : Name} {text : String} (h : n.text = text) (ts : List Token) :
    takeKeyword text (.name n :: ts) = some (true, ts) :=
  takeIf_of_pastCommas (t := .name n) rfl (by simp [isKeyword, h])

/-! ## Repetitions -/

/-- A parser reads `a` from `ts`, whatever follows that passes a test. -/
def Reads (F : Token → Bool) (p : Parser α) (ts : List Token) (a : α) : Prop :=
  ∀ rest, Follows F rest → p (ts ++ rest) = some (a, rest)

/-- An item of a list in braces or parentheses: its tokens, and what it is read as. -/
structure ReadsItem (p : Parser α) (ts : List Token) (a : α) : Prop where
  starts : ∃ t us, ts = t :: us ∧ startsItem t = true
  reads : Reads endsItem p ts a

/-- An item that is read even if commas follow, and they with it. -/
structure ReadsPastCommas (p : Parser α) (ts : List Token) (a : α) : Prop where
  starts : ∃ t us, ts = t :: us ∧ startsItem t = true
  reads : ∀ rest, Follows endsItem (pastCommas rest) → p (ts ++ rest) = some (a, pastCommas rest)

theorem ReadsPastCommas.readsItem {p : Parser α} {ts : List Token} {a : α}
    (h : ReadsPastCommas p ts a) : ReadsItem p ts a where
  starts := h.starts
  reads rest hrest := by
    have hpast := hrest.pastCommas_eq rfl
    rw [h.reads rest (by rwa [hpast]), hpast]

theorem ReadsPastCommas.readsItem_comma {p : Parser α} {ts : List Token} {a : α}
    (h : ReadsPastCommas p ts a) : ReadsItem p (ts ++ [.comma]) a where
  starts := by
    obtain ⟨t, us, rfl, ht⟩ := h.starts
    exact ⟨t, us ++ [.comma], rfl, ht⟩
  reads rest hrest := by
    have hpast := hrest.pastCommas_eq rfl
    rw [List.append_assoc, List.singleton_append,
      h.reads (.comma :: rest) (by rwa [pastCommas_comma_cons, hpast]), pastCommas_comma_cons,
      hpast]

/-- Tokens in brackets, or nothing at all. -/
def groupTokens (opening close : Punctuator) (tss : List (List Token)) : List Token :=
  if tss.isEmpty then [] else .punctuator opening :: (tss.flatten ++ [.punctuator close])

theorem ReadsItem.follows {p : Parser α} {ts : List Token} {a : α} (h : ReadsItem p ts a)
    (rest : List Token) : Follows endsItem (ts ++ rest) := by
  obtain ⟨t, us, rfl, ht⟩ := h.starts
  exact follows_cons (endsItem_of_startsItem ht) _

theorem ReadsItem.ne_nil {p : Parser α} {ts : List Token} {a : α} (h : ReadsItem p ts a) :
    ts ≠ [] := by
  obtain ⟨t, us, rfl, -⟩ := h.starts
  exact List.cons_ne_nil t us

/-- Each part takes one token at least, so there are enough tokens to run once for each part. -/
theorem length_le_length_flatten {R : List Token → α → Prop} {tss : List (List Token)} {as : List α}
    (h : List.Forall₂ R tss as) (hR : ∀ ts a, R ts a → ts ≠ []) :
    tss.length ≤ tss.flatten.length := by
  induction h with
  | nil => exact Nat.le_refl _
  | cons hx hxs ih =>
    have hpos := List.length_pos_iff.2 (hR _ _ hx)
    simp only [List.flatten_cons, List.length_cons, List.length_append]
    omega

section Items

variable {close : Punctuator} {item : Parser α} {tss : List (List Token)} {as : List α}

theorem itemsUpTo_of_close {ts us : List Token} (h : pastCommas ts = .punctuator close :: us)
    (n : Nat) : itemsUpTo close item (n + 1) ts = some ([], us) :=
  bind_of_eq (takeMark_of_pastCommas h)

theorem itemsUpTo_of_ne {t : Token} {ts us : List Token} (h : pastCommas ts = t :: us)
    (ht : t ≠ .punctuator close) (n : Nat) :
    itemsUpTo close item (n + 1) ts =
      (item >>= fun x ↦ itemsUpTo close item n >>= fun xs ↦ pure (x :: xs)) (t :: us) :=
  bind_of_eq (takeMark_of_ne h ht)

theorem follows_flatten (h : List.Forall₂ (ReadsItem item) tss as)
    (hclose : endsItem (.punctuator close) = true) (rest : List Token) :
    Follows endsItem (tss.flatten ++ .punctuator close :: rest) := by
  cases h with
  | nil => exact follows_cons hclose rest
  | cons hx hxs =>
    rw [List.flatten_cons, List.append_assoc]
    exact hx.follows _

theorem itemsUpTo_of_forall₂ (h : List.Forall₂ (ReadsItem item) tss as)
    (hclose : endsItem (.punctuator close) = true) (rest : List Token) {n : Nat}
    (hn : tss.length < n) :
    itemsUpTo close item n (tss.flatten ++ .punctuator close :: rest) = some (as, rest) := by
  induction h generalizing n with
  | nil =>
    obtain ⟨n, rfl⟩ := Nat.exists_eq_add_one.2 hn
    exact itemsUpTo_of_close rfl n
  | @cons ts a tss as hx hxs ih =>
    obtain ⟨n, rfl⟩ := Nat.exists_eq_add_one.2 (Nat.zero_lt_of_lt hn)
    -- An item ends where the next one starts, or at the closing mark.
    have hitem := hx.reads _ (follows_flatten hxs hclose rest)
    have hrest := ih (Nat.lt_of_succ_lt_succ hn)
    obtain ⟨t, us, rfl, ht⟩ := hx.starts
    rw [List.cons_append] at hitem
    rw [List.flatten_cons, List.append_assoc, List.cons_append,
      itemsUpTo_of_ne (pastCommas_of_startsItem ht _) (ne_punctuator_of_startsItem ht close),
      bind_of_eq hitem, bind_of_eq hrest, pure_eq]

/-- Items and what closes them. -/
theorem itemsTill_of_forall₂ (h : List.Forall₂ (ReadsItem item) tss as)
    (hclose : endsItem (.punctuator close) = true) (rest : List Token) :
    itemsTill close item (tss.flatten ++ .punctuator close :: rest) = some (as, rest) := by
  refine itemsUpTo_of_forall₂ h hclose rest ?_
  have := length_le_length_flatten h fun _ _ hx ↦ hx.ne_nil
  simp only [List.length_append, List.length_cons]
  omega

theorem someTill_of_forall₂ (h : List.Forall₂ (ReadsItem item) tss as) (hne : tss ≠ [])
    (hclose : endsItem (.punctuator close) = true) (rest : List Token) :
    someTill close item (tss.flatten ++ .punctuator close :: rest) = some (as, rest) := by
  cases h with
  | nil => exact absurd rfl hne
  | cons hx hxs =>
    rw [List.flatten_cons, List.append_assoc, someTill,
      bind_of_eq (hx.reads _ (follows_flatten hxs hclose rest)),
      bind_of_eq (itemsTill_of_forall₂ hxs hclose rest), pure_eq]

theorem optionalGroup_cons (opening close : Punctuator) (item : Parser α) (ts : List Token) :
    optionalGroup opening close item (.punctuator opening :: ts) = someTill close item ts :=
  bind_of_eq (takeMark_cons opening ts)

/-- Items in brackets, or none and no brackets. -/
theorem optionalGroup_of_forall₂ {opening : Punctuator} {F : Token → Bool}
    (h : List.Forall₂ (ReadsItem item) tss as) (hclose : endsItem (.punctuator close) = true)
    (hcomma : F .comma = false) (hopening : F (.punctuator opening) = false) :
    Reads F (optionalGroup opening close item) (groupTokens opening close tss) as := by
  intro rest hrest
  rw [groupTokens]
  cases h with
  | nil =>
    have hpast := hrest.pastCommas_eq hcomma
    rw [List.isEmpty_nil, if_pos rfl, List.nil_append, optionalGroup,
      bind_of_eq (takeMark_of_follows (by rwa [hpast]) hopening), hpast]
    rfl
  | cons hx hxs =>
    rw [List.isEmpty_cons, if_neg Bool.false_ne_true, List.cons_append, optionalGroup_cons,
      List.append_assoc]
    exact someTill_of_forall₂ (.cons hx hxs) (List.cons_ne_nil _ _) hclose rest

end Items

/-- No items, if something else follows than what starts them. -/
theorem whileStarts_of_follows {opening : Punctuator} {item : Parser α} {F : Token → Bool}
    {ts : List Token} (h : Follows F (pastCommas ts)) (hp : F (.punctuator opening) = false) :
    whileStarts opening item ts = some ([], pastCommas ts) := by
  cases ts with
  | nil => rfl
  | cons t ts =>
    have hne : (pastCommas (t :: ts)).head? ≠ some (.punctuator opening) := by
      intro heq
      rw [h _ heq] at hp
      cases hp
    change (peek >>= _) (t :: ts) = _
    rw [bind_of_eq (a := (pastCommas (t :: ts)).head?) rfl, if_neg hne]
    rfl

/-- One item, if something else follows than what starts it. -/
theorem whileStarts_of_item {opening : Punctuator} {item : Parser α} {F : Token → Bool}
    {ts us rest : List Token} {a : α} (hts : pastCommas ts = .punctuator opening :: us)
    (hne : us ≠ []) (hitem : item (.punctuator opening :: us) = some (a, rest))
    (h : Follows F (pastCommas rest)) (hp : F (.punctuator opening) = false) :
    whileStarts opening item ts = some ([a], pastCommas rest) := by
  obtain ⟨n, hn⟩ : ∃ n, ts.length = n + 2 := by
    have hle : (pastCommas ts).length ≤ ts.length := List.length_dropWhile_le _ ts
    have hpos := List.length_pos_iff.2 hne
    rw [hts, List.length_cons] at hle
    exact ⟨ts.length - 2, by omega⟩
  have hend : (pastCommas rest).head? ≠ some (.punctuator opening) := by
    intro heq
    rw [h _ heq] at hp
    cases hp
  have hstop : whileUpTo opening item (n + 1) rest = some ([], pastCommas rest) := by
    rw [whileUpTo, bind_of_eq (a := (pastCommas rest).head?) rfl, if_neg hend]
    rfl
  have hpeek : peek ts = some (some (.punctuator opening), .punctuator opening :: us) := by
    rw [peek, hts]
    rfl
  change whileUpTo opening item ts.length ts = _
  rw [hn, whileUpTo, bind_of_eq hpeek, if_pos rfl, bind_of_eq hitem, bind_of_eq hstop, pure_eq]

/-- An item that is not read spoils all that follow. -/
theorem someToEnd_eq_none {item : Parser α} {t : Token} {ts : List Token}
    (ht : pastCommas (t :: ts) = t :: ts) (h : item (t :: ts) = none) :
    someToEnd item (t :: ts) = none := by
  have hall : allUpTo item (t :: ts).length (t :: ts) = none := by
    rw [List.length_cons, allUpTo, bind_of_eq (peek_cons ht)]
    exact bind_of_none h
  rw [someToEnd, hall]

/-! ## Lists of names -/

/-- A name behind a mark. -/
def behindMark (separator : Punctuator) (n : Name) : List Token :=
  [.punctuator separator, .name n]

/-- Names with a mark between each two. -/
def separatedTokens (separator : Punctuator) : List Name → List Token
  | [] => []
  | n :: ns => .name n :: ns.flatMap (behindMark separator)

theorem moreUpTo_of_forall₂ {separator : Punctuator} {item : Parser α} {ns : List Name}
    {as : List α} {F : Token → Bool}
    (h : List.Forall₂ (fun n a ↦ ∀ rest, item (.name n :: rest) = some (a, rest)) ns as)
    (hcomma : F .comma = false) (hsep : F (.punctuator separator) = false) {rest : List Token}
    (hrest : Follows F rest) {k : Nat} (hk : ns.length ≤ k) :
    moreUpTo separator item k (ns.flatMap (behindMark separator) ++ rest) = some (as, rest) := by
  induction h generalizing k with
  | nil =>
    cases k with
    | zero => rfl
    | succ k =>
      have hpast := hrest.pastCommas_eq hcomma
      rw [List.flatMap_nil, List.nil_append, moreUpTo,
        bind_of_eq (takeMark_of_follows (by rwa [hpast]) hsep), hpast]
      rfl
  | @cons n a ns as hn hns ih =>
    obtain ⟨k, rfl⟩ := Nat.exists_eq_add_one.2 (Nat.zero_lt_of_lt hk)
    rw [List.flatMap_cons, List.append_assoc, behindMark, List.cons_append,
      List.singleton_append, moreUpTo,
      bind_of_eq (takeMark_cons separator _)]
    change (item >>= fun x ↦ moreUpTo separator item k >>= fun xs ↦ pure (x :: xs)) _ = _
    rw [bind_of_eq (hn _), bind_of_eq (ih (Nat.le_of_succ_le_succ hk)), pure_eq]

/-- One name or more, with a mark between each two. -/
theorem separated_of_forall₂ {separator : Punctuator} {item : Parser α} {ns : List Name}
    {as : List α} {F : Token → Bool}
    (h : List.Forall₂ (fun n a ↦ ∀ rest, item (.name n :: rest) = some (a, rest)) ns as)
    (hne : ns ≠ []) (hcomma : F .comma = false) (hsep : F (.punctuator separator) = false) :
    Reads F (separated separator item) (separatedTokens separator ns) as := by
  intro rest hrest
  cases h with
  | nil => exact absurd rfl hne
  | @cons n a ns as hn hns =>
    have hlen : ns.length ≤ (ns.flatMap (behindMark separator) ++ rest).length := by
      simp [behindMark]
      omega
    rw [separatedTokens, List.cons_append, separated,
      bind_of_eq (takeMark_name_cons separator n _), bind_of_eq (hn _),
      bind_of_eq (p := fun ts ↦ moreUpTo separator item ts.length ts)
        (moreUpTo_of_forall₂ hns hcomma hsep hrest hlen), pure_eq]

end Parser
end TypeFootprint
