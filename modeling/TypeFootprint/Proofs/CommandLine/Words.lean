import Mathlib.Tactic.Tauto
import TypeFootprint.CommandLine.Arguments

/-!
# What a command line gives

A command line is read word by word, and a value is put among the arguments later than it is read.
`Gives` says without any state which values an option has: the next word, or what is behind an
equals sign in its own word, up to the word `--`.

* `Reads` lists what one word can do to a state;
* `mem_values_iff` — a command line that is accepted has the exceptions that its options give;
* `noDefaultPolicy_iff` — and it does without the standard policy if there is a word that says so.
-/

set_option autoImplicit false

namespace TypeFootprint.Arguments

/-- The word for an option with a value. -/
def ValueOption.word : ValueOption → String
  | config => "--config"
  | deny => "--deny"
  | includes => "--include"

/-- The word for an option without a value. -/
def Flag.word : Flag → String
  | sorted => "--sorted"
  | noDefaultPolicy => "--no-default-policy"
  | verbose => "--verbose"
  | color => "--color"
  | noColor => "--no-color"
  | help => "--help"
  | version => "--version"

/-- A word that is not taken for options: it has no dash in front of other characters. -/
def IsPlain (w : String) : Prop := ∀ c cs, w.toList ≠ '-' :: c :: cs

/-- The values that an option has. -/
def values (a : Arguments) : ValueOption → List String
  | .config => a.config.toList
  | .deny => a.deny
  | .includes => a.includes

/-- A value that an option has in a command line: the next word, or what is behind an equals sign in
the same word.  Behind the word `--` there are no options. -/
inductive Gives (option value : String) : List String → Prop
  | next (words : List String) : Gives option value (option :: value :: words)
  | own (words : List String) : Gives option value ((option ++ "=" ++ value) :: words)
  | later {word : String} {words : List String} (hword : word ≠ "--")
      (h : Gives option value words) : Gives option value (word :: words)

variable {s s' t : State} {w v : String} {words : List String} {a b : Arguments} {o : ValueOption}
  {f : Flag}

theorem gives_nil (option value : String) : ¬ Gives option value [] := nofun

theorem gives_cons_iff {option value : String} :
    Gives option value (w :: words) ↔
      (w = option ∧ words.head? = some value) ∨ w = option ++ "=" ++ value ∨
        (w ≠ "--" ∧ Gives option value words) := by
  constructor
  · rintro (_ | _ | ⟨hword, h⟩)
    · exact .inl ⟨rfl, rfl⟩
    · exact .inr (.inl rfl)
    · exact .inr (.inr ⟨hword, h⟩)
  · rintro (⟨rfl, h⟩ | rfl | ⟨hword, h⟩)
    · obtain ⟨rest, rfl⟩ := List.head?_eq_some_iff.1 h
      exact .next rest
    · exact .own words
    · exact .later hword h

/-! ## Words -/

theorem word_end (h : s.ended = false) : s.word "--" = .ok { s with ended := true } := by
  simp [State.word, h]

theorem word_value (h : s.ended = false) (o : ValueOption) : s.word o.word = s.await o := by
  cases o <;>
    simp [State.word, h, ValueOption.word, State.long, splitName, Switch.ofName?]

theorem word_own (h : s.ended = false) (o : ValueOption) (v : String) :
    s.word (o.word ++ "=" ++ v) = s.attach o v := by
  cases o <;>
    simp [State.word, h, ValueOption.word, State.long, splitName, Switch.ofName?]

theorem word_flag (h : s.ended = false) (f : Flag) : s.word f.word = s.flag f := by
  cases f <;> simp [State.word, h, Flag.word, State.long, splitName, Switch.ofName?]

theorem word_plain (h : s.ended = false) (hw : IsPlain w) : s.word w = s.plain w := by
  rw [State.word, h]
  simp only [Bool.false_eq_true, if_false]
  split <;> simp_all [IsPlain]

/-- The value that is waited for is the next plain word. -/
theorem plain_of_awaits (hp : s.pending = .option o none) (w : String) :
    s.plain w = .ok { s with pending := .option o (some w) } := by
  rw [State.plain, hp]

theorem flag_word_of_ofName? {n : String} (h : Switch.ofName? n = some (.flag f)) :
    "--" ++ n = f.word := by
  unfold Switch.ofName? at h
  split at h <;> cases h <;> rfl

theorem value_word_of_ofName? {n : String} (h : Switch.ofName? n = some (.value o)) :
    "--" ++ n = o.word := by
  unfold Switch.ofName? at h
  split at h <;> cases h <;> rfl

/-- What is read as a name and a value is the two with an equals sign between them. -/
theorem eq_of_splitName {cs : List Char} (h : w.toList = '-' :: '-' :: cs) :
    w = match (splitName cs).2 with
      | none => "--" ++ (splitName cs).1
      | some v => "--" ++ (splitName cs).1 ++ "=" ++ v := by
  have hsplit := List.takeWhile_append_dropWhile (p := fun c ↦ c != '=') (l := cs)
  rw [← String.toList_inj, h]
  cases hdrop : cs.dropWhile fun c ↦ c != '=' with
  | nil =>
    rw [hdrop, List.append_nil] at hsplit
    simp [splitName, hdrop, hsplit]
  | cons c value =>
    have hc : c = '=' := by
      have hhead := List.head?_dropWhile_not (fun c ↦ c != '=') cs
      simpa [hdrop] using hhead
    subst hc
    rw [hdrop] at hsplit
    simp [splitName, hdrop, hsplit]

/-! ## What a word does -/

theorem exists_of_bind_ok {ε α β : Type} {x : Except ε α} {g : α → Except ε β} {c : β}
    (h : x >>= g = .ok c) : ∃ a, x = .ok a ∧ g a = .ok c := by
  cases x with
  | error e => cases h
  | ok a => exact ⟨a, rfl, h⟩

/-- What reading a word makes of a state.  Unless it is the value that is waited for, or ends the
options, it settles what has been read before. -/
inductive Reads (s : State) : String → State → Prop
  | ends (hended : s.ended = false) : Reads s "--" { s with ended := true }
  | value {o : ValueOption} {w : String} (hended : s.ended = false)
      (ho : s.pending = .option o none) (hw : IsPlain w) :
      Reads s w { s with pending := .option o (some w) }
  | place {w : String} {a : Arguments} {p : Pending} (hw : s.ended = false → IsPlain w)
      (ha : s.settle = .ok a) (hp : s.place? w = some p) :
      Reads s w { s with arguments := a, pending := p }
  | flag {f : Flag} {a b : Arguments} (hended : s.ended = false) (ha : s.settle = .ok a)
      (hb : a.giveFlag f = .ok b) : Reads s f.word { s with arguments := b, pending := .none }
  | await {o : ValueOption} {a : Arguments} (hended : s.ended = false) (ha : s.settle = .ok a) :
      Reads s o.word { s with arguments := a, pending := .option o none }
  | own {o : ValueOption} {v : String} {a b : Arguments} (hended : s.ended = false)
      (ha : s.settle = .ok a) (hb : a.giveValue v o = .ok b) :
      Reads s (o.word ++ "=" ++ v) { s with arguments := b, pending := .none }
  | letters {w : String} {a : Arguments} {verbose : Bool} {config : Option String}
      {p : Pending} (hended : s.ended = false) (hw : w ≠ "--") (ha : s.settle = .ok a)
      (hp : p = .none ∨ p = .option .config none) :
      Reads s w { s with arguments := { a with verbose, config }, pending := p }

theorem flag_eq_ok (h : s.flag f = .ok t) : ∃ a b, s.settle = .ok a ∧ a.giveFlag f = .ok b ∧
    t = { s with arguments := b, pending := .none } := by
  obtain ⟨a, ha, h⟩ := exists_of_bind_ok h
  obtain ⟨b, hb, h⟩ := exists_of_bind_ok h
  exact ⟨a, b, ha, hb, (Except.ok.inj h).symm⟩

theorem attach_eq_ok (h : s.attach o v = .ok t) : ∃ a b, s.settle = .ok a ∧
    a.giveValue v o = .ok b ∧ t = { s with arguments := b, pending := .none } := by
  obtain ⟨a, ha, h⟩ := exists_of_bind_ok h
  obtain ⟨b, hb, h⟩ := exists_of_bind_ok h
  exact ⟨a, b, ha, hb, (Except.ok.inj h).symm⟩

theorem await_eq_ok (h : s.await o = .ok t) :
    ∃ a, s.settle = .ok a ∧ t = { s with arguments := a, pending := .option o none } := by
  obtain ⟨a, ha, h⟩ := exists_of_bind_ok h
  exact ⟨a, ha, (Except.ok.inj h).symm⟩

theorem positional_eq_ok (h : s.positional w = .ok t) : ∃ a p, s.settle = .ok a ∧
    s.place? w = some p ∧ t = { s with arguments := a, pending := p } := by
  rw [State.positional] at h
  cases hp : s.place? w with
  | none =>
    rw [hp] at h
    cases h
  | some p =>
    rw [hp] at h
    obtain ⟨a, ha, h⟩ := exists_of_bind_ok h
    exact ⟨a, p, ha, rfl, (Except.ok.inj h).symm⟩

theorem giveFlag_of_ofLetter? {c : Char} (hc : Switch.ofLetter? c = some (.flag f))
    (h : a.giveFlag f = .ok b) : b = { a with verbose := b.verbose } := by
  unfold Switch.ofLetter? at hc
  split at hc <;> cases hc <;> try cases h
  obtain ⟨verbose, -, h⟩ := exists_of_bind_ok h
  cases h
  rfl

theorem eq_config_of_ofLetter? {c : Char} (hc : Switch.ofLetter? c = some (.value o)) :
    o = .config := by
  unfold Switch.ofLetter? at hc
  split at hc <;> cases hc
  rfl

theorem giveValue_config (h : a.giveValue v .config = .ok b) :
    b = { a with config := b.config } := by
  rw [giveValue] at h
  split at h
  · cases h
  · obtain ⟨config, -, h⟩ := exists_of_bind_ok h
    cases h
    rfl

/-- The letters behind a dash are about messages or about the configuration. -/
theorem letters_eq_ok {c : Char} {cs : List Char} (h : s.letters (c :: cs) = .ok t) :
    ∃ a verbose config p, s.settle = .ok a ∧ (p = .none ∨ p = .option .config none) ∧
      t = { s with arguments := { a with verbose, config }, pending := p } := by
  induction cs generalizing s c with
  | nil =>
    rw [State.letters] at h
    split at h
    · cases h
    · next f hf =>
      obtain ⟨s', hs', h⟩ := exists_of_bind_ok h
      obtain ⟨a, b, ha, hb, rfl⟩ := flag_eq_ok hs'
      rw [giveFlag_of_ofLetter? hf hb] at h
      exact ⟨a, _, _, _, ha, .inl rfl, (Except.ok.inj h).symm⟩
    · next o ho =>
      obtain rfl := eq_config_of_ofLetter? ho
      obtain ⟨a, ha, rfl⟩ := await_eq_ok h
      exact ⟨a, _, _, _, ha, .inr rfl, rfl⟩
  | cons d ds ih =>
    rw [State.letters] at h
    split at h
    · cases h
    · next f hf =>
      obtain ⟨s', hs', h⟩ := exists_of_bind_ok h
      obtain ⟨a, b, ha, hb, rfl⟩ := flag_eq_ok hs'
      obtain ⟨a', verbose, config, p, ha', hp, rfl⟩ := ih h
      obtain rfl : b = a' := Except.ok.inj ha'
      rw [giveFlag_of_ofLetter? hf hb]
      exact ⟨a, verbose, config, p, ha, hp, rfl⟩
    · next o ho =>
      obtain rfl := eq_config_of_ofLetter? ho
      have hattach : ∃ v, s.attach .config v = .ok t := by
        split at h
        · next hnil => cases hnil
        · exact ⟨_, h⟩
        · exact ⟨_, h⟩
      obtain ⟨v, hv⟩ := hattach
      obtain ⟨a, b, ha, hb, rfl⟩ := attach_eq_ok hv
      rw [giveValue_config hb]
      exact ⟨a, _, _, _, ha, .inl rfl, rfl⟩

theorem reads_of_positional (hw : s.ended = false → IsPlain w) (h : s.positional w = .ok t) :
    Reads s w t := by
  obtain ⟨a, p, ha, hp, rfl⟩ := positional_eq_ok h
  exact .place hw ha hp

theorem reads_of_long {cs : List Char} (hended : s.ended = false)
    (hw : w.toList = '-' :: '-' :: cs) (h : s.long (splitName cs).1 (splitName cs).2 = .ok t) :
    Reads s w t := by
  have hname := eq_of_splitName hw
  unfold State.long at h
  split at h
  · cases h
  · next f hf hvalue =>
    obtain ⟨a, b, ha, hb, rfl⟩ := flag_eq_ok h
    rw [hname, hvalue]
    simp only
    rw [flag_word_of_ofName? hf]
    exact .flag hended ha hb
  · cases h
  · next o ho hvalue =>
    obtain ⟨a, ha, rfl⟩ := await_eq_ok h
    rw [hname, hvalue]
    simp only
    rw [value_word_of_ofName? ho]
    exact .await hended ha
  · next o v ho hvalue =>
    obtain ⟨a, b, ha, hb, rfl⟩ := attach_eq_ok h
    rw [hname, hvalue]
    simp only
    rw [value_word_of_ofName? ho]
    exact .own hended ha hb

theorem reads_of_plain (hended : s.ended = false) (hw : IsPlain w) (h : s.plain w = .ok t) :
    Reads s w t := by
  rw [State.plain] at h
  split at h
  · next o ho =>
    cases h
    exact .value hended ho hw
  · exact reads_of_positional (fun _ ↦ hw) h

theorem reads_of_word (h : s.word w = .ok t) : Reads s w t := by
  rw [State.word] at h
  split at h
  · next hended => exact reads_of_positional (fun hnot ↦ absurd hended (by simp [hnot])) h
  · next hended =>
    have hended : s.ended = false := by simpa using hended
    split at h
    · next hw =>
      obtain rfl : w = "--" := String.toList_inj.1 hw
      cases h
      exact .ends hended
    · next cs hne hw => exact reads_of_long hended hw h
    · next c cs hne hne' hw =>
      obtain ⟨a, verbose, config, p, ha, hp, rfl⟩ := letters_eq_ok h
      refine .letters hended ?_ ha hp
      rintro rfl
      obtain ⟨hc, hcs⟩ : '-' = c ∧ cs = [] := by simpa using hw
      exact hne' hc.symm
    · next hplain =>
      exact reads_of_plain hended hplain h

/-! ## What a state has -/

/-- A value that an option has among what has been read, settled or not. -/
def State.Has (s : State) (o : ValueOption) (v : String) : Prop :=
  v ∈ s.arguments.values o ∨ s.pending = .option o (some v)

theorem values_giveFlag (h : a.giveFlag f = .ok b) (o : ValueOption) : b.values o = a.values o := by
  cases f <;> try cases h
  all_goals
    obtain ⟨given, -, h⟩ := exists_of_bind_ok h
    cases h
    cases o <;> rfl

theorem mem_values_giveValue {o' : ValueOption} {v' : String} (h : a.giveValue v' o' = .ok b)
    (ho : o ≠ .config) : v ∈ b.values o ↔ v ∈ a.values o ∨ (o = o' ∧ v = v') := by
  cases o' with
  | config =>
    rw [giveValue_config h]
    cases o <;> simp_all [values]
  | deny =>
    cases h
    cases o <;> simp_all [values]
  | includes =>
    cases h
    cases o <;> simp_all [values]

theorem mem_values_of_settle (h : s.settle = .ok a) (ho : o ≠ .config) :
    v ∈ a.values o ↔ s.Has o v := by
  rw [State.settle] at h
  rw [State.Has]
  cases hp : s.pending with
  | none =>
    rw [hp] at h
    cases h
    simp
  | option o' value =>
    rw [hp] at h
    cases value with
    | none => cases h
    | some v' =>
      rw [mem_values_giveValue h ho]
      simp [eq_comm]
  | schema path =>
    rw [hp] at h
    obtain ⟨schema, -, h⟩ := exists_of_bind_ok h
    cases h
    cases o <;> simp [values]
  | documents pattern =>
    rw [hp] at h
    cases h
    cases o <;> simp [values]

theorem place?_ne_option {p : Pending} (h : s.place? w = some p) (o : ValueOption)
    (value : Option String) : p ≠ .option o value := by
  rintro rfl
  rw [State.place?] at h
  split at h
  · cases h
  · cases h
  · split at h
    · cases h
    · split at h <;> cases h

theorem values_letters (a : Arguments) (verbose : Bool) (config : Option String)
    (ho : o ≠ .config) : ({ a with verbose, config } : Arguments).values o = a.values o := by
  cases o <;> first | rfl | exact absurd rfl ho

/-- Where an exception comes from that has been read. -/
theorem Reads.has (h : Reads s w t) (ho : o ≠ .config) (hv : t.Has o v) :
    s.Has o v ∨ (s.ended = false ∧ w = o.word ++ "=" ++ v) ∨
      (s.ended = false ∧ s.pending = .option o none ∧ IsPlain w ∧ w = v) := by
  cases h with
  | ends => exact .inl hv
  | value hended hpending hw =>
    rcases hv with hv | hv
    · exact .inl (.inl hv)
    · cases hv
      exact .inr (.inr ⟨hended, hpending, hw, rfl⟩)
  | place _ ha hp =>
    have hmem := hv.resolve_right (place?_ne_option hp o _)
    exact .inl ((mem_values_of_settle ha ho).1 hmem)
  | flag _ ha hb =>
    have hmem := hv.resolve_right nofun
    rw [values_giveFlag hb] at hmem
    exact .inl ((mem_values_of_settle ha ho).1 hmem)
  | await _ ha => exact .inl ((mem_values_of_settle ha ho).1 (hv.resolve_right nofun))
  | own hended ha hb =>
    rcases (mem_values_giveValue hb ho).1 (hv.resolve_right nofun) with hmem | ⟨rfl, rfl⟩
    · exact .inl ((mem_values_of_settle ha ho).1 hmem)
    · exact .inr (.inl ⟨hended, rfl⟩)
  | letters _ _ ha hp =>
    have hmem := hv.resolve_right (by rcases hp with rfl | rfl <;> nofun)
    rw [values_letters _ _ _ ho] at hmem
    exact .inl ((mem_values_of_settle ha ho).1 hmem)

/-- What has been read is kept. -/
theorem Reads.has_of_has (h : Reads s w t) (ho : o ≠ .config) (hv : s.Has o v) : t.Has o v := by
  cases h with
  | ends => exact hv
  | value _ hpending _ => exact .inl (hv.resolve_right (by simp [hpending]))
  | place _ ha _ => exact .inl ((mem_values_of_settle ha ho).2 hv)
  | flag _ ha hb =>
    have hmem := (mem_values_of_settle ha ho).2 hv
    rw [← values_giveFlag hb] at hmem
    exact .inl hmem
  | await _ ha => exact .inl ((mem_values_of_settle ha ho).2 hv)
  | own _ ha hb =>
    exact .inl ((mem_values_giveValue hb ho).2 (.inl ((mem_values_of_settle ha ho).2 hv)))
  | letters _ _ ha _ =>
    refine .inl ?_
    rw [values_letters _ _ _ ho]
    exact (mem_values_of_settle ha ho).2 hv

/-- A word gives an option a value if it is the value that the option waits for, or the option with
a value of its own. -/
theorem has_iff_of_word (h : s.word w = .ok t) (ho : o ≠ .config) :
    t.Has o v ↔ s.Has o v ∨ (s.ended = false ∧ w = o.word ++ "=" ++ v) ∨
      (s.ended = false ∧ s.pending = .option o none ∧ IsPlain w ∧ w = v) := by
  constructor
  · exact (reads_of_word h).has ho
  · rintro (hv | ⟨hended, rfl⟩ | ⟨hended, hpending, hw, rfl⟩)
    · exact (reads_of_word h).has_of_has ho hv
    · rw [word_own hended] at h
      obtain ⟨a, b, -, hb, rfl⟩ := attach_eq_ok h
      exact .inl ((mem_values_giveValue hb ho).2 (.inr ⟨rfl, rfl⟩))
    · rw [word_plain hended hw, plain_of_awaits hpending] at h
      cases h
      exact .inr rfl

/-- An option waits for a value if it was read without one. -/
theorem awaits_iff_of_word (h : s.word w = .ok t) (ho : o ≠ .config) :
    t.pending = .option o none ↔ (s.ended = false ∧ w = o.word) ∨
      (s.ended = false ∧ s.pending = .option o none ∧ w = "--") := by
  constructor
  · intro hp
    cases reads_of_word h with
    | ends hended => exact .inr ⟨hended, hp, rfl⟩
    | value => cases hp
    | place _ _ hplace => exact absurd hp (place?_ne_option hplace o none)
    | flag => cases hp
    | await hended =>
      cases hp
      exact .inl ⟨hended, rfl⟩
    | own => cases hp
    | letters _ _ _ hletters =>
      rcases hletters with rfl | rfl
      · cases hp
      · cases hp
        exact absurd rfl ho
  · rintro (⟨hended, rfl⟩ | ⟨hended, hp, rfl⟩)
    · rw [word_value hended] at h
      obtain ⟨a, -, rfl⟩ := await_eq_ok h
      rfl
    · rw [word_end hended] at h
      cases h
      exact hp

theorem value_word_ne_end (o : ValueOption) : o.word ≠ "--" := by cases o <;> decide

theorem ended_iff_of_word (h : s.word w = .ok t) :
    t.ended = false ↔ s.ended = false ∧ w ≠ "--" := by
  cases reads_of_word h with
  | ends => simp
  | value hended _ hw =>
    refine ⟨fun _ ↦ ⟨hended, ?_⟩, fun _ ↦ hended⟩
    rintro rfl
    exact hw '-' [] (by simp)
  | place hw =>
    refine ⟨fun hended ↦ ⟨hended, ?_⟩, And.left⟩
    rintro rfl
    exact hw hended '-' [] (by simp)
  | @flag f _ _ hended => exact ⟨fun _ ↦ ⟨hended, by cases f <;> decide⟩, And.left⟩
  | await hended => exact ⟨fun _ ↦ ⟨hended, value_word_ne_end _⟩, And.left⟩
  | @own o v _ _ hended =>
    refine ⟨fun _ ↦ ⟨hended, fun heq ↦ ?_⟩, And.left⟩
    have hchars := congrArg String.toList heq
    cases o <;> simp [ValueOption.word] at hchars
  | letters hended hw => exact ⟨fun _ ↦ ⟨hended, hw⟩, And.left⟩

/-- As long as a value is missing nothing can be settled. -/
theorem settle_ne_ok_of_awaits (hp : s.pending = .option o none) : s.settle ≠ .ok a := by
  rw [State.settle, hp]
  nofun

/-- Once the options have come to an end, a value that is still missing remains so. -/
theorem settle_ne_ok_of_ended (hended : s.ended = true) (hp : s.pending = .option o none)
    (h : words.foldlM State.word s = .ok t) : t.settle ≠ .ok a := by
  cases words with
  | nil =>
    cases h
    exact settle_ne_ok_of_awaits hp
  | cons w words =>
    obtain ⟨s', hs', -⟩ := exists_of_bind_ok h
    rw [State.word, if_pos hended] at hs'
    obtain ⟨b, p, hb, -⟩ := positional_eq_ok hs'
    exact absurd hb (settle_ne_ok_of_awaits hp)

/-- In a command line that is accepted, a value that is waited for is the next word. -/
theorem isPlain_of_awaits (hp : s.pending = .option o none) (hw : s.word w = .ok s')
    (h : words.foldlM State.word s' = .ok t) (ha : t.settle = .ok a) :
    s.ended = false ∧ IsPlain w := by
  cases reads_of_word hw with
  | ends => exact absurd ha (settle_ne_ok_of_ended (s := { s with ended := true }) rfl hp h)
  | value hended _ hplain => exact ⟨hended, hplain⟩
  | place _ hb => exact absurd hb (settle_ne_ok_of_awaits hp)
  | flag _ hb => exact absurd hb (settle_ne_ok_of_awaits hp)
  | await _ hb => exact absurd hb (settle_ne_ok_of_awaits hp)
  | own _ hb => exact absurd hb (settle_ne_ok_of_awaits hp)
  | letters _ _ hb => exact absurd hb (settle_ne_ok_of_awaits hp)

theorem IsPlain.ne_end (h : IsPlain w) : w ≠ "--" := by
  rintro rfl
  exact h '-' [] (by simp)

/-- **What the rest of a command line gives is added to what has been read.** -/
theorem mem_values_iff_of_foldlM (h : words.foldlM State.word s = .ok t) (ha : t.settle = .ok a)
    (ho : o ≠ .config) :
    v ∈ a.values o ↔ s.Has o v ∨ (s.pending = .option o none ∧ words.head? = some v) ∨
      (s.ended = false ∧ Gives o.word v words) := by
  induction words generalizing s with
  | nil =>
    cases h
    rw [mem_values_of_settle ha ho]
    simp [gives_nil]
  | cons w words ih =>
    obtain ⟨s', hs', hrest⟩ := exists_of_bind_ok h
    have hawaits (hp : s.pending = .option o none) : s.ended = false ∧ IsPlain w ∧ w ≠ "--" := by
      obtain ⟨hended, hplain⟩ := isPlain_of_awaits hp hs' hrest ha
      exact ⟨hended, hplain, hplain.ne_end⟩
    rw [ih hrest, has_iff_of_word hs' ho, awaits_iff_of_word hs' ho, ended_iff_of_word hs',
      gives_cons_iff, List.head?_cons, Option.some.injEq]
    tauto

/-! ## What a command line has -/

theorem check_eq_ok (h : check a = .ok b) : a = b := by
  rw [check] at h
  split at h
  · cases h
  · exact Except.ok.inj h

theorem exists_of_parse_eq_ok (h : parse words = .ok a) :
    ∃ s, words.foldlM State.word State.start = .ok s ∧ s.settle = .ok a := by
  obtain ⟨s, hs, h⟩ := exists_of_bind_ok h
  obtain ⟨b, hb, h⟩ := exists_of_bind_ok h
  obtain rfl := check_eq_ok h
  exact ⟨s, hs, hb⟩

/-- **The exceptions of a command line are those that its options give.** -/
theorem mem_values_iff (h : parse words = .ok a) (ho : o ≠ .config) :
    v ∈ a.values o ↔ Gives o.word v words := by
  obtain ⟨s, hs, ha⟩ := exists_of_parse_eq_ok h
  rw [mem_values_iff_of_foldlM hs ha ho]
  constructor
  · rintro ((hv | hv) | ⟨hp, -⟩ | ⟨-, hgives⟩)
    · cases o <;> cases hv
    · cases hv
    · cases hp
    · exact hgives
  · exact fun hgives ↦ .inr (.inr ⟨rfl, hgives⟩)

/-! ## Doing without the standard policy -/

theorem noDefaultPolicy_giveValue (h : a.giveValue v o = .ok b) :
    b.noDefaultPolicy = a.noDefaultPolicy := by
  cases o with
  | config => rw [giveValue_config h]
  | deny =>
    cases h
    rfl
  | includes =>
    cases h
    rfl

theorem noDefaultPolicy_giveFlag (h : a.giveFlag f = .ok b) :
    b.noDefaultPolicy = true ↔ a.noDefaultPolicy = true ∨ f = .noDefaultPolicy := by
  cases f <;> try cases h
  all_goals
    obtain ⟨given, hgiven, h⟩ := exists_of_bind_ok h
    cases h
  case noDefaultPolicy =>
    rw [once] at hgiven
    split at hgiven <;> cases hgiven
    simp
  all_goals simp

theorem noDefaultPolicy_of_settle (h : s.settle = .ok a) :
    a.noDefaultPolicy = s.arguments.noDefaultPolicy := by
  rw [State.settle] at h
  split at h
  · cases h
    rfl
  · cases h
  · exact noDefaultPolicy_giveValue h
  · obtain ⟨schema, -, h⟩ := exists_of_bind_ok h
    cases h
    rfl
  · cases h
    rfl

theorem noDefaultPolicy_iff_of_word (h : s.word w = .ok t) :
    t.arguments.noDefaultPolicy = true ↔
      s.arguments.noDefaultPolicy = true ∨ (s.ended = false ∧ w = Flag.noDefaultPolicy.word) := by
  constructor
  · intro ht
    cases reads_of_word h with
    | ends => exact .inl ht
    | value => exact .inl ht
    | place _ ha => exact .inl (noDefaultPolicy_of_settle ha ▸ ht)
    | flag hended ha hb =>
      rcases (noDefaultPolicy_giveFlag hb).1 ht with ht | rfl
      · exact .inl (noDefaultPolicy_of_settle ha ▸ ht)
      · exact .inr ⟨hended, rfl⟩
    | await _ ha => exact .inl (noDefaultPolicy_of_settle ha ▸ ht)
    | own _ ha hb =>
      have hb := noDefaultPolicy_giveValue hb
      exact .inl (noDefaultPolicy_of_settle ha ▸ hb ▸ ht)
    | letters _ _ ha => exact .inl (noDefaultPolicy_of_settle ha ▸ ht)
  · rintro (hs | ⟨hended, rfl⟩)
    · cases reads_of_word h with
      | ends => exact hs
      | value => exact hs
      | place _ ha => exact (noDefaultPolicy_of_settle ha).trans hs
      | flag _ ha hb =>
        exact (noDefaultPolicy_giveFlag hb).2 (.inl ((noDefaultPolicy_of_settle ha).trans hs))
      | await _ ha => exact (noDefaultPolicy_of_settle ha).trans hs
      | own _ ha hb =>
        exact (noDefaultPolicy_giveValue hb).trans ((noDefaultPolicy_of_settle ha).trans hs)
      | letters _ _ ha => exact (noDefaultPolicy_of_settle ha).trans hs
    · rw [word_flag hended] at h
      obtain ⟨a, b, -, hb, rfl⟩ := flag_eq_ok h
      exact (noDefaultPolicy_giveFlag hb).2 (.inr rfl)

theorem noDefaultPolicy_iff_of_foldlM (h : words.foldlM State.word s = .ok t)
    (ha : t.settle = .ok a) :
    a.noDefaultPolicy = true ↔ s.arguments.noDefaultPolicy = true ∨
      (s.ended = false ∧ "--no-default-policy" ∈ words.takeWhile (· != "--")) := by
  induction words generalizing s with
  | nil =>
    cases h
    rw [noDefaultPolicy_of_settle ha]
    simp
  | cons w words ih =>
    obtain ⟨s', hs', hrest⟩ := exists_of_bind_ok h
    rw [ih hrest, noDefaultPolicy_iff_of_word hs', ended_iff_of_word hs', Flag.word]
    by_cases hw : w = "--"
    · subst hw
      simp
    · rw [List.takeWhile_cons_of_pos (by simpa using hw), List.mem_cons,
        eq_comm (a := "--no-default-policy")]
      tauto

/-- **The standard policy is done without if a word of the command line says so.** -/
theorem noDefaultPolicy_iff (h : parse words = .ok a) :
    a.noDefaultPolicy = true ↔ "--no-default-policy" ∈ words.takeWhile (· != "--") := by
  obtain ⟨s, hs, ha⟩ := exists_of_parse_eq_ok h
  rw [noDefaultPolicy_iff_of_foldlM hs ha]
  simp [State.start, empty]

end TypeFootprint.Arguments
