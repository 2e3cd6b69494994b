import Mathlib.Logic.Relation
import TypeFootprint.Proofs.CommandLine.Words

/-!
# Command lines with the same exceptions

Names are denied and included by options that may be given again and again, between any two other
arguments.  `Rearranges` moves such an option to another place, or gives it once more, and so every
reordering, interleaving and repetition of them is a chain of such steps.

* `word_behind` — reading a word never looks at the exceptions that have been read; so what is read
  for a rest of a command line does not depend on them, apart from being put behind them;
* `finish_settled` — reading goes on in the same way whether the last argument has been settled or
  not, so it makes no difference that an option stood there last;
* `sameExceptions_of_rearranges` — a chain of rearrangements leads from accepted command lines to
  accepted ones with the same exceptions, as sets, and no other difference.
-/

set_option autoImplicit false

namespace TypeFootprint.Arguments

/-! ## More exceptions in front -/

/-- Arguments with the exceptions of others in front of their own. -/
def behind (first a : Arguments) : Arguments :=
  { a with deny := first.deny ++ a.deny, includes := first.includes ++ a.includes }

/-- A state with more exceptions in front of those it has read. -/
def State.behind (first : Arguments) (s : State) : State :=
  { s with arguments := Arguments.behind first s.arguments }

variable (first : Arguments) (a : Arguments) (s : State) (w v : String) (o : ValueOption) (f : Flag)

theorem giveFlag_behind : (behind first a).giveFlag f = behind first <$> a.giveFlag f := by
  cases f <;> simp only [giveFlag, map_bind, map_pure] <;> rfl

theorem giveValue_behind : (behind first a).giveValue v o = behind first <$> a.giveValue v o := by
  cases o with
  | config =>
    rw [giveValue, giveValue, show (behind first a).config = a.config from rfl]
    split
    · rfl
    · rw [map_bind]
      rfl
  | deny => simp [giveValue, behind, Functor.map, Except.map]
  | includes => simp [giveValue, behind, Functor.map, Except.map]

theorem settle_behind : (s.behind first).settle = behind first <$> s.settle := by
  obtain ⟨a, p, ended⟩ := s
  cases p with
  | none => rfl
  | option o value =>
    cases value with
    | none => rfl
    | some v => exact giveValue_behind first a v o
  | schema text =>
    simp only [State.settle, map_bind]
    rfl
  | documents pattern => rfl

theorem flag_behind : (s.behind first).flag f = State.behind first <$> s.flag f := by
  simp only [State.flag, settle_behind, giveFlag_behind, map_bind, bind_map_left]
  rfl

theorem attach_behind : (s.behind first).attach o v = State.behind first <$> s.attach o v := by
  simp only [State.attach, settle_behind, giveValue_behind, map_bind, bind_map_left]
  rfl

theorem await_behind : (s.behind first).await o = State.behind first <$> s.await o := by
  simp only [State.await, settle_behind, map_bind, bind_map_left]
  rfl

theorem positional_behind :
    (s.behind first).positional w = State.behind first <$> s.positional w := by
  rw [State.positional, State.positional, show (s.behind first).place? w = s.place? w from rfl]
  cases s.place? w with
  | none => rfl
  | some p =>
    simp only [settle_behind, map_bind, bind_map_left]
    rfl

theorem plain_behind : (s.behind first).plain w = State.behind first <$> s.plain w := by
  rw [State.plain, State.plain, show (s.behind first).pending = s.pending from rfl]
  split
  · rfl
  · exact positional_behind first s w

theorem long_behind (n : String) (value : Option String) :
    (s.behind first).long n value = State.behind first <$> s.long n value := by
  unfold State.long
  split
  · rfl
  · exact flag_behind first s _
  · rfl
  · exact await_behind first s _
  · exact attach_behind first s _ _

theorem letters_behind (cs : List Char) :
    (s.behind first).letters cs = State.behind first <$> s.letters cs := by
  induction cs generalizing s with
  | nil => rfl
  | cons c cs ih =>
    rw [State.letters, State.letters]
    split
    · rfl
    · simp only [flag_behind, map_bind, bind_map_left, ih]
    · split
      · exact await_behind first s _
      · exact attach_behind first s _ _
      · exact attach_behind first s _ _

theorem word_behind : (s.behind first).word w = State.behind first <$> s.word w := by
  rw [State.word, State.word, show (s.behind first).ended = s.ended from rfl]
  split
  · exact positional_behind first s w
  · split
    · rfl
    · exact long_behind first s _ _
    · exact letters_behind first s _
    · exact plain_behind first s w

theorem check_behind : check (behind first a) = behind first <$> check a := by
  rw [check, check, show (behind first a).color = a.color from rfl,
    show (behind first a).noColor = a.noColor from rfl]
  split <;> rfl

/-- Reads the rest of a command line. -/
def State.finish (s : State) (words : List String) : Except ArgumentStop Arguments := do
  let t ← words.foldlM State.word s
  check (← t.settle)

theorem finish_cons (words : List String) :
    s.finish (w :: words) = s.word w >>= fun t ↦ t.finish words := by
  simp [State.finish]

theorem finish_behind (words : List String) :
    (s.behind first).finish words = behind first <$> s.finish words := by
  induction words generalizing s with
  | nil =>
    simp only [State.finish, List.foldlM_nil, pure_bind, settle_behind, check_behind,
      bind_map_left, map_bind]
  | cons w words ih =>
    simp only [finish_cons, word_behind, bind_map_left, map_bind, ih]

theorem finish_append (before after : List String) :
    s.finish (before ++ after) = before.foldlM State.word s >>= fun t ↦ t.finish after := by
  simp [State.finish]


/-! ## The last argument -/

namespace State

/-- The state in which everything that has been read is settled. -/
def settled (a : Arguments) (ended : Bool) : State := ⟨a, .none, ended⟩

/-- While the first path is not settled there is no second one. -/
def IsSound (s : State) : Prop := ∀ path, s.pending = .schema path → s.arguments.documents = none

end State

variable {first a b s w v o f}
variable {t : State} {words before after option : List String}

theorem paths_giveValue (h : a.giveValue v o = .ok b) :
    b.schema = a.schema ∧ b.documents = a.documents := by
  cases o with
  | config => rw [giveValue_config h]; exact ⟨rfl, rfl⟩
  | deny => cases h; exact ⟨rfl, rfl⟩
  | includes => cases h; exact ⟨rfl, rfl⟩

/-- The next place is the same whether the last argument has been settled or not. -/
theorem place?_settled (hs : s.IsSound) (h : s.settle = .ok a) (w : String) :
    s.place? w = (State.settled a s.ended).place? w := by
  rw [State.settle] at h
  rw [State.place?, State.place?, State.settled]
  split at h
  · next hp =>
    cases h
    rw [hp]
  · cases h
  · next o value hp =>
    obtain ⟨hschema, hdocuments⟩ := paths_giveValue h
    rw [hp, hschema, hdocuments]
  · next text hp =>
    obtain ⟨schema, hschema, h⟩ := exists_of_bind_ok h
    cases h
    rw [path] at hschema
    split at hschema <;> cases hschema
    rw [hp]
    simp [hs text hp]
  · next pattern hp =>
    cases h
    rw [hp]
    rfl

theorem isSound_of_ne_schema (h : ∀ path, s.pending ≠ .schema path) : s.IsSound :=
  fun path hpath ↦ absurd hpath (h path)

theorem isSound_of_word (hs : s.IsSound) (h : s.word w = .ok t) : t.IsSound := by
  cases reads_of_word h with
  | ends => exact hs
  | value => exact isSound_of_ne_schema (by simp)
  | @place w a p _ ha hp =>
    intro path hpath
    obtain rfl : p = .schema path := hpath
    rw [place?_settled hs ha, State.place?, State.settled] at hp
    simp only at hp
    split at hp
    · cases hp
    · next hnone => simpa using hnone
  | flag => exact isSound_of_ne_schema (by simp)
  | await => exact isSound_of_ne_schema (by simp)
  | own => exact isSound_of_ne_schema (by simp)
  | letters _ _ _ hp => exact isSound_of_ne_schema (by rcases hp with rfl | rfl <;> simp)

theorem positional_settled (hs : s.IsSound) (h : s.settle = .ok a) (w : String) :
    s.positional w = (State.settled a s.ended).positional w := by
  rw [State.positional, State.positional, place?_settled hs h, h]
  rfl

theorem flag_settled (h : s.settle = .ok a) (f : Flag) :
    s.flag f = (State.settled a s.ended).flag f := by
  rw [State.flag, State.flag, h]
  rfl

theorem attach_settled (h : s.settle = .ok a) (o : ValueOption) (v : String) :
    s.attach o v = (State.settled a s.ended).attach o v := by
  rw [State.attach, State.attach, h]
  rfl

theorem await_settled (h : s.settle = .ok a) (o : ValueOption) :
    s.await o = (State.settled a s.ended).await o := by
  rw [State.await, State.await, h]
  rfl

theorem long_settled (h : s.settle = .ok a) (n : String) (value : Option String) :
    s.long n value = (State.settled a s.ended).long n value := by
  unfold State.long
  split
  · rfl
  · exact flag_settled h _
  · rfl
  · exact await_settled h _
  · exact attach_settled h _ _

theorem letters_settled (h : s.settle = .ok a) (c : Char) (cs : List Char) :
    s.letters (c :: cs) = (State.settled a s.ended).letters (c :: cs) := by
  rw [State.letters, State.letters]
  split
  · rfl
  · rw [flag_settled h]
  · split
    · exact await_settled h _
    · exact attach_settled h _ _
    · exact attach_settled h _ _

theorem plain_settled (hs : s.IsSound) (h : s.settle = .ok a) (w : String) :
    s.plain w = (State.settled a s.ended).plain w := by
  have hright : (State.settled a s.ended).plain w = (State.settled a s.ended).positional w := rfl
  rw [hright, ← positional_settled hs h, State.plain]
  split
  · next hp => exact absurd h (settle_ne_ok_of_awaits hp)
  · rfl

theorem word_settled (hs : s.IsSound) (h : s.settle = .ok a) (hw : s.ended = false → w ≠ "--") :
    s.word w = (State.settled a s.ended).word w := by
  rw [State.word, State.word, show (State.settled a s.ended).ended = s.ended from rfl]
  split
  · exact positional_settled hs h w
  · next hended =>
    split
    · next hchars => exact absurd (String.toList_inj.1 hchars) (hw (by simpa using hended))
    · exact long_settled h _ _
    · exact letters_settled h _ _
    · exact plain_settled hs h w

/-- **Settling the last argument makes no difference to what is read behind it.** -/
theorem finish_settled (hs : s.IsSound) (h : s.settle = .ok a) (words : List String) :
    s.finish words = (State.settled a s.ended).finish words := by
  induction words generalizing s with
  | nil =>
    simp only [State.finish, List.foldlM_nil, pure_bind, h]
    rfl
  | cons w words ih =>
    rw [finish_cons, finish_cons]
    by_cases hw : s.ended = false → w ≠ "--"
    · rw [word_settled hs h hw]
    · obtain ⟨hended, rfl⟩ : s.ended = false ∧ w = "--" := by simpa using hw
      rw [word_end hended, word_end (s := State.settled a s.ended) hended]
      exact ih (s := { s with ended := true }) hs h

/-! ## One more exception -/

/-- The words for an option with a value: two of them, or one with an equals sign. -/
inductive Spells (o : ValueOption) (v : String) : List String → Prop
  | next (hv : IsPlain v) : Spells o v [o.word, v]
  | own : Spells o v [o.word ++ "=" ++ v]

/-- The beginning of a command line that is complete: it could end here, and options may follow. -/
def IsComplete (words : List String) : Prop := "--" ∉ words ∧ ∃ a, parse words = .ok a

/-- Arguments that have one exception more, and are the same otherwise. -/
structure Adds (o : ValueOption) (v : String) (a b : Arguments) : Prop where
  rest : b = { a with deny := b.deny, includes := b.includes }
  values : ∀ o' ≠ .config, ∀ x, x ∈ b.values o' ↔ x ∈ a.values o' ∨ (o' = o ∧ x = v)

/-- An option is put behind what has been read, and then reading goes on as before. -/
theorem finish_option (ho : o ≠ .config) (h : s.settle = .ok a) (hended : s.ended = false)
    (hoption : Spells o v option) :
    ∃ b, a.giveValue v o = .ok b ∧
      ∀ words, s.finish (option ++ words) = (State.settled b false).finish words := by
  obtain ⟨b, hb⟩ : ∃ b, a.giveValue v o = .ok b := by
    cases o with
    | config => exact absurd rfl ho
    | deny => exact ⟨_, rfl⟩
    | includes => exact ⟨_, rfl⟩
  refine ⟨b, hb, fun words ↦ ?_⟩
  cases hoption with
  | next hv =>
    have hawait : s.await o = .ok { s with arguments := a, pending := .option o none } := by
      rw [State.await, h]
      rfl
    rw [List.cons_append, finish_cons, word_value hended, hawait]
    change (State.finish _ (v :: words)) = _
    rw [finish_cons, word_plain (by exact hended) hv, plain_of_awaits rfl, ← hended]
    exact finish_settled (s := { s with arguments := a, pending := .option o (some v) })
      (isSound_of_ne_schema (by simp)) hb _
  | own =>
    have hattach : s.attach o v = .ok (State.settled b s.ended) := by
      rw [State.attach, h]
      change (a.giveValue v o >>= _) = _
      rw [hb]
      rfl
    rw [List.singleton_append, finish_cons, word_own hended, hattach, hended]
    rfl

theorem ended_of_foldlM (h : words.foldlM State.word s = .ok t) (hwords : "--" ∉ words)
    (hended : s.ended = false) : t.ended = false := by
  induction words generalizing s with
  | nil =>
    cases h
    exact hended
  | cons w words ih =>
    obtain ⟨s', hs', hrest⟩ := exists_of_bind_ok h
    rw [List.mem_cons, not_or] at hwords
    exact ih hrest hwords.2 ((ended_iff_of_word hs').2 ⟨hended, Ne.symm hwords.1⟩)

theorem isSound_of_foldlM (h : words.foldlM State.word s = .ok t) (hs : s.IsSound) :
    t.IsSound := by
  induction words generalizing s with
  | nil =>
    cases h
    exact hs
  | cons w words ih =>
    obtain ⟨s', hs', hrest⟩ := exists_of_bind_ok h
    exact ih hrest (isSound_of_word hs hs')

/-- Arguments without exceptions. -/
def bare (a : Arguments) : Arguments := { a with deny := [], includes := [] }

/-- What is read behind some arguments does not depend on their exceptions. -/
theorem finish_bare (a : Arguments) (ended : Bool) (words : List String) :
    (State.settled a ended).finish words =
      behind a <$> (State.settled a.bare ended).finish words := by
  have hbare : (State.settled a.bare ended).behind a = State.settled a ended := by
    simp [State.settled, State.behind, behind, bare]
  rw [← hbare, finish_behind]

theorem values_behind (ho : o ≠ .config) : (behind a b).values o = a.values o ++ b.values o := by
  cases o with
  | config => exact absurd rfl ho
  | deny => rfl
  | includes => rfl

theorem adds_behind (h : a.giveValue v o = .ok b) (c : Arguments) :
    Adds o v (behind a c) (behind b c) := by
  refine ⟨rfl, fun o' ho' x ↦ ?_⟩
  rw [values_behind ho', values_behind ho', List.mem_append, List.mem_append,
    mem_values_giveValue h ho']
  tauto

/-- Where the beginning of a command line is complete, an option can be put in.  Whatever follows is
read in the same way. -/
theorem exists_parse_insert (hbefore : IsComplete before) (ho : o ≠ .config)
    (hoption : Spells o v option) (after : List String) :
    ∃ a b r, a.giveValue v o = .ok b ∧ parse (before ++ after) = behind a <$> r ∧
      parse (before ++ (option ++ after)) = behind b <$> r := by
  obtain ⟨hwords, a, hparse⟩ := hbefore
  obtain ⟨s, hs, ha⟩ := exists_of_parse_eq_ok hparse
  have hended : s.ended = false := ended_of_foldlM hs hwords rfl
  have hsound : s.IsSound := isSound_of_foldlM hs (isSound_of_ne_schema nofun)
  obtain ⟨b, hb, hfinish⟩ := finish_option ho ha hended hoption
  have hparse (words : List String) : parse (before ++ words) = s.finish words := by
    change State.start.finish (before ++ words) = _
    rw [finish_append, hs]
    rfl
  have hbare : b.bare = a.bare := by
    cases o with
    | config => exact absurd rfl ho
    | deny => cases hb; rfl
    | includes => cases hb; rfl
  refine ⟨a, b, (State.settled a.bare false).finish after, hb, ?_, ?_⟩
  · rw [hparse, finish_settled hsound ha, hended, finish_bare]
  · rw [hparse, hfinish, finish_bare, hbare]

/-- **An option can be put in, or left out, wherever a command line is complete.** -/
theorem parse_insert (hbefore : IsComplete before) (ho : o ≠ .config)
    (hoption : Spells o v option) (after : List String) :
    (∀ a, parse (before ++ after) = .ok a →
      ∃ b, parse (before ++ (option ++ after)) = .ok b ∧ Adds o v a b) ∧
    (∀ b, parse (before ++ (option ++ after)) = .ok b →
      ∃ a, parse (before ++ after) = .ok a ∧ Adds o v a b) := by
  obtain ⟨a, b, r, hb, hwithout, hwith⟩ := exists_parse_insert hbefore ho hoption after
  cases r with
  | error e =>
    rw [hwithout, hwith]
    exact ⟨nofun, nofun⟩
  | ok c =>
    have hadds : Adds o v (behind a c) (behind b c) := adds_behind hb c
    rw [hwithout, hwith]
    refine ⟨?_, ?_⟩
    · rintro _ ⟨⟩
      exact ⟨_, rfl, hadds⟩
    · rintro _ ⟨⟩
      exact ⟨_, rfl, hadds⟩

/-! ## Rearranging -/

/-- The same exceptions, as sets, and no other difference. -/
structure SameExceptions (a b : Arguments) : Prop where
  rest : b = { a with deny := b.deny, includes := b.includes }
  values : ∀ o ≠ .config, ∀ v, v ∈ b.values o ↔ v ∈ a.values o

/-- One step of rearranging the options for exceptions: one of them is moved to another place, or
one that is given is given again. -/
inductive Rearranges : List String → List String → Prop
  | move {o : ValueOption} {v : String} {before option middle after : List String}
      (hbefore : IsComplete before) (hmiddle : IsComplete (before ++ middle)) (ho : o ≠ .config)
      (hoption : Spells o v option) :
      Rearranges (before ++ option ++ middle ++ after) (before ++ middle ++ option ++ after)
  | again {o : ValueOption} {v : String} {before option after : List String}
      (hbefore : IsComplete before) (ho : o ≠ .config) (hoption : Spells o v option)
      (hgiven : Gives o.word v (before ++ after)) :
      Rearranges (before ++ after) (before ++ option ++ after)

/-- What is accepted as one command line is accepted as the other, with the same exceptions. -/
def Amounts (words words' : List String) : Prop :=
  ∀ a, parse words = .ok a → ∃ b, parse words' = .ok b ∧ SameExceptions a b

theorem SameExceptions.refl (a : Arguments) : SameExceptions a a := ⟨rfl, fun _ _ _ ↦ Iff.rfl⟩

theorem SameExceptions.symm (h : SameExceptions a b) : SameExceptions b a := by
  refine ⟨?_, fun o ho v ↦ (h.values o ho v).symm⟩
  rw [h.rest]

theorem SameExceptions.trans {c : Arguments} (h : SameExceptions a b) (h' : SameExceptions b c) :
    SameExceptions a c := by
  refine ⟨?_, fun o ho v ↦ (h'.values o ho v).trans (h.values o ho v)⟩
  rw [h'.rest, h.rest]

/-- Two ways to add the same exception. -/
theorem Adds.sameExceptions {c : Arguments} (hb : Adds o v a b) (hc : Adds o v a c) :
    SameExceptions b c := by
  refine ⟨?_, fun o' ho' x ↦ (hc.values o' ho' x).trans (hb.values o' ho' x).symm⟩
  rw [hc.rest, hb.rest]

/-- It makes no difference to add an exception that is there already. -/
theorem Adds.sameExceptions_of_mem (h : Adds o v a b) (hv : v ∈ a.values o) :
    SameExceptions a b := by
  refine ⟨h.rest, fun o' ho' x ↦ ?_⟩
  rw [h.values o' ho' x, or_iff_left_of_imp]
  rintro ⟨rfl, rfl⟩
  exact hv

theorem Amounts.refl (words : List String) : Amounts words words :=
  fun a ha ↦ ⟨a, ha, .refl a⟩

theorem Amounts.trans {words words' words'' : List String} (h : Amounts words words')
    (h' : Amounts words' words'') : Amounts words words'' := by
  intro a ha
  obtain ⟨b, hb, hab⟩ := h a ha
  obtain ⟨c, hc, hbc⟩ := h' b hb
  exact ⟨c, hc, hab.trans hbc⟩

theorem amounts_of_rearranges {words words' : List String} (h : Rearranges words words') :
    Amounts words words' ∧ Amounts words' words := by
  cases h with
  | @move o v before option middle after hbefore hmiddle ho hoption =>
    obtain ⟨hinsert, hdrop⟩ := parse_insert hbefore ho hoption (middle ++ after)
    obtain ⟨hinsert', hdrop'⟩ := parse_insert hmiddle ho hoption after
    simp only [List.append_assoc] at hinsert hdrop hinsert' hdrop' ⊢
    refine ⟨fun a ha ↦ ?_, fun a ha ↦ ?_⟩
    · obtain ⟨base, hbase, hadds⟩ := hdrop a ha
      obtain ⟨b, hb, hadds'⟩ := hinsert' base hbase
      exact ⟨b, hb, hadds.sameExceptions hadds'⟩
    · obtain ⟨base, hbase, hadds⟩ := hdrop' a ha
      obtain ⟨b, hb, hadds'⟩ := hinsert base hbase
      exact ⟨b, hb, hadds.sameExceptions hadds'⟩
  | again hbefore ho hoption hgiven =>
    obtain ⟨hinsert, hdrop⟩ := parse_insert hbefore ho hoption _
    simp only [List.append_assoc]
    refine ⟨fun a ha ↦ ?_, fun b hb ↦ ?_⟩
    · obtain ⟨b, hb, hadds⟩ := hinsert a ha
      exact ⟨b, hb, hadds.sameExceptions_of_mem ((mem_values_iff ha ho).2 hgiven)⟩
    · obtain ⟨a, ha, hadds⟩ := hdrop b hb
      exact ⟨a, ha, (hadds.sameExceptions_of_mem ((mem_values_iff ha ho).2 hgiven)).symm⟩

/-- **Rearranging the options for exceptions makes no difference**, except to the order and the
number in which they are read. -/
theorem sameExceptions_of_rearranges {words words' : List String}
    (h : Relation.EqvGen Rearranges words words') :
    Amounts words words' ∧ Amounts words' words := by
  induction h with
  | rel words words' h => exact amounts_of_rearranges h
  | refl words => exact ⟨.refl words, .refl words⟩
  | symm words words' _ ih => exact ih.symm
  | trans words words' words'' _ _ ih ih' => exact ⟨ih.1.trans ih'.1, ih'.2.trans ih.2⟩

end TypeFootprint.Arguments
