import TypeFootprint.Proofs.Inference.Parts

/-!
# What is entered is left

Every function of a walk leaves what it entered, and nothing else.  `Called` says which calls are
made in a walk through a document, and in which contexts; `Walk.Rests` says of a walk from a context
that it is back there at its end and that its steps are well nested.

* `Part.rests_walk` — a call rests, if the part may be called in the context;
* `walk_isBalanced` — what this means for every call in every walk.

The directive is no stack: at the end of a directive its slot is emptied, whatever was in it before.
So what reads directives may only be called while no directive is being read.  This is `Part.Ready`,
and `Ready.part` hands it down: the arguments of a directive have no directives themselves.
-/

set_option autoImplicit false

namespace TypeFootprint

/-- Whether a stack has nothing to pop.  The directive is no stack. -/
def Context.IsExhausted (cx : Context) : Frame → Prop
  | .output => cx.outputs = []
  | .parentOutput => cx.parents = []
  | .input => cx.inputs = []
  | .field => cx.fields = []
  | .directive => False

namespace Part

variable {p q : Part}

/-- Whether a part stands in arguments, where there are no directives. -/
def isWritten : Part → Bool
  | arguments _ | argument _ | value _ | objectField _ _ => true
  | _ => false

/-- Whether a part may be called in a context: no directive is being read, unless there are none in
the part. -/
def Ready (p : Part) (cx : Context) : Prop := p.isWritten = true ∨ cx.directive = none

/-- The context inside a part. -/
def inside (schema : Schema) (p : Part) (cx : Context) : Context :=
  match p.bracket? with
  | none => cx
  | some b => b.enter schema cx

variable {schema : Schema} {cx : Context}

/-- Inside a part its parts may be called. -/
theorem Ready.part (h : p.Ready cx) (hq : q ∈ p.parts) : q.Ready (p.inside schema cx) := by
  cases p with
  | directive d =>
    obtain rfl : q = arguments d.arguments := by simpa [parts] using hq
    exact .inl rfl
  | arguments as =>
    obtain ⟨a, -, rfl⟩ := List.mem_map.1 hq
    exact .inl rfl
  | argument a =>
    obtain rfl : q = value a.value := by simpa [parts] using hq
    exact .inl rfl
  | objectField n v =>
    obtain rfl : q = value v := by simpa [parts] using hq
    exact .inl rfl
  | value v =>
    cases v with
    | list items =>
      obtain ⟨v, -, rfl⟩ := List.mem_map.1 hq
      exact .inl rfl
    | object fields =>
      obtain ⟨field, -, rfl⟩ := List.mem_map.1 hq
      exact .inl rfl
    | _ => cases hq
  | definition d => cases d <;> exact .inr (h.resolve_left Bool.false_ne_true)
  | declaration v => exact .inr (h.resolve_left Bool.false_ne_true)
  | selectionSet selections => cases selections <;> exact .inr (h.resolve_left Bool.false_ne_true)
  | selection s => cases s <;> exact .inr (h.resolve_left Bool.false_ne_true)
  | directives ds => exact .inr (h.resolve_left Bool.false_ne_true)

/-- Leaving takes back what entering did. -/
theorem Ready.leave_enter (h : p.Ready cx) {b : Bracket} (hb : p.bracket? = some b) :
    b.leave (b.enter schema cx) = cx := by
  cases b with
  | directive n =>
    have hp : p.isWritten = false := by
      unfold bracket? at hb
      split at hb <;> simp_all [isWritten]
    have hcx : cx.directive = none := h.resolve_left (by simp [hp])
    rw [Bracket.leave, Bracket.enter, Context.leaveDirective, Context.enterDirective, ← hcx]
  | _ => rfl

end Part

/-! ## Well nested steps -/

/-- Steps in which every frame that is entered is left again, the innermost one first, and none is
left that was not entered. -/
inductive WellNested : List Step → Prop
  | nil : WellNested []
  | call (c : Call) {steps : List Step} (h : WellNested steps) : WellNested (.call c :: steps)
  | frame (f : Frame) {inner outer : List Step} (hinner : WellNested inner)
      (houter : WellNested outer) : WellNested (.enter f :: (inner ++ .leave f :: outer))

theorem WellNested.append {steps steps' : List Step} (h : WellNested steps)
    (h' : WellNested steps') : WellNested (steps ++ steps') := by
  induction h with
  | nil => exact h'
  | call c _ ih => exact .call c ih
  | frame f hinner _ _ ih =>
    rw [List.cons_append, List.append_assoc, List.cons_append]
    exact .frame f hinner ih

theorem WellNested.frames {steps : List Step} (h : WellNested steps) (fs : List Frame) :
    WellNested (fs.map Step.enter ++ (steps ++ fs.reverse.map Step.leave)) := by
  induction fs with
  | nil => simpa using h
  | cons f fs ih =>
    have hframe := WellNested.frame f ih .nil
    simpa [List.append_assoc] using hframe

/-! ## Calls leave the context as it was -/

/-- A walk is back where it started, and its steps are well nested. -/
structure Walk.Rests (w : Walk) (cx : Context) : Prop where
  back : (w cx).2 = cx
  wellNested : WellNested (w cx).1

namespace Walk

variable {schema : Schema} {rules : Rules} {w : Walk} {cx : Context}

theorem rests_stay (cx : Context) : stay.Rests cx := ⟨rfl, .nil⟩

theorem Rests.andThen {w' : Walk} (h : w.Rests cx) (h' : w'.Rests cx) :
    (w.andThen w').Rests cx := by
  refine ⟨?_, ?_⟩
  · rw [Walk.andThen, h.back, h'.back]
  · rw [Walk.andThen, h.back]
    exact h.wellNested.append h'.wellNested

theorem rests_each {α : Type} {f : α → Walk} {as : List α} (h : ∀ a ∈ as, (f a).Rests cx) :
    (each f as).Rests cx := by
  induction as with
  | nil => exact rests_stay cx
  | cons a as ih =>
    obtain ⟨ha, has⟩ := List.forall_mem_cons.1 h
    exact ha.andThen (ih has)

theorem Rests.visit (h : w.Rests cx) (n : Node) : (visit rules n w).Rests cx := by
  cases hskip : (rules n cx.position).skipChildren with
  | true =>
    refine ⟨?_, ?_⟩ <;> rw [Walk.visit] <;> simp only [hskip, if_true]
    exact .call _ .nil
  | false =>
    refine ⟨?_, ?_⟩ <;> rw [Walk.visit] <;> simp only [hskip, Bool.false_eq_true, if_false]
    · exact h.back
    · exact .call _ h.wellNested

theorem Rests.asking (h : w.Rests cx) (node : Option Node) : (asking rules node w).Rests cx := by
  cases node with
  | none => exact h
  | some n => exact h.visit n

end Walk

section

variable {schema : Schema} {rules : Rules} {document : Document} {p : Part} {cx : Context}

open Walk

/-- **A call leaves the context as it was, and its steps are well nested.** -/
theorem Part.rests_walk (p : Part) (h : p.Ready cx) : (p.walk schema rules).Rests cx := by
  induction p using Part.parts_induction generalizing cx with
  | step p ih =>
    have hparts : (each (walk schema rules) p.parts).Rests (p.inside schema cx) :=
      rests_each fun q hq ↦ ih q hq (h.part hq)
    have hasking : (asking rules p.node? (each (walk schema rules) p.parts)).Rests
        (p.inside schema cx) := hparts.asking p.node?
    rw [Part.walk_eq]
    cases hb : p.bracket? with
    | none =>
      rw [Part.inside, hb] at hasking
      exact hasking
    | some b =>
      rw [Part.inside, hb] at hasking
      refine ⟨?_, ?_⟩
      · simp only [within, Walk.andThen, enter, leave, hasking.back, h.leave_enter hb]
      · simp only [within, Walk.andThen, enter, leave]
        exact hasking.wellNested.frames b.frames

/-! ## All calls of a walk -/

/-- Whether the parts of a part are walked through: no rule is asked, or the rule does not pass over
them. -/
def Part.Descends (schema : Schema) (rules : Rules) (p : Part) (cx : Context) : Prop :=
  ∀ n ∈ p.node?, (rules n (p.inside schema cx).position).skipChildren = false

/-- The calls that are made in a walk through a document, each with the context that it finds.  A
definition finds what the definitions before it have left, and a part what the parts before it have
left. -/
inductive Called (schema : Schema) (rules : Rules) (document : Document) : Part → Context → Prop
  | definition {before after : List Definition} {d : Definition}
      (h : document = before ++ d :: after) :
      Called schema rules document (.definition d)
        (each (walkDefinition schema rules) before .empty).2
  | part {p q : Part} {cx : Context} {before after : List Part}
      (hp : Called schema rules document p cx) (hdescends : p.Descends schema rules cx)
      (h : p.parts = before ++ q :: after) :
      Called schema rules document q
        (each (Part.walk schema rules) before (p.inside schema cx)).2

/-- The context that a part is about to leave. -/
def Part.beforeLeaving (schema : Schema) (rules : Rules) (p : Part) (cx : Context) : Context :=
  (asking rules p.node? (each (walk schema rules) p.parts) (p.inside schema cx)).2

theorem rests_definitions (ds : List Definition) :
    (each (walkDefinition schema rules) ds).Rests .empty :=
  rests_each fun d _ ↦ (Part.definition d).rests_walk (.inr rfl)

theorem Part.rests_parts (h : p.Ready cx) {qs : List Part} (hqs : ∀ q ∈ qs, q ∈ p.parts) :
    (each (walk schema rules) qs).Rests (p.inside schema cx) :=
  rests_each fun q hq ↦ q.rests_walk (h.part (hqs q hq))

theorem Called.ready (h : Called schema rules document p cx) : p.Ready cx := by
  induction h with
  | @definition before after d h =>
    rw [(rests_definitions before).back]
    exact .inr rfl
  | @part p q cx before after _ _ h ih =>
    have hbefore : ∀ r ∈ before, r ∈ p.parts := fun r hr ↦ h ▸ List.mem_append_left _ hr
    rw [(Part.rests_parts ih hbefore).back]
    exact ih.part (h ▸ List.mem_append_right _ (.head _))

theorem Part.beforeLeaving_eq (h : p.Ready cx) :
    p.beforeLeaving schema rules cx = p.inside schema cx :=
  ((Part.rests_parts h fun _ hq ↦ hq).asking p.node?).back

/-- What has just been entered can be left. -/
theorem Bracket.not_isExhausted_enter (b : Bracket) {f : Frame} (hf : f ∈ b.frames) :
    ¬ (b.enter schema cx).IsExhausted f := by
  cases b with
  | field n =>
    rcases List.mem_cons.1 hf with rfl | hf
    · exact List.cons_ne_nil _ _
    · obtain rfl := List.mem_singleton.1 hf
      exact List.cons_ne_nil _ _
  | directive n =>
    obtain rfl := List.mem_singleton.1 hf
    exact id
  | _ =>
    obtain rfl := List.mem_singleton.1 hf
    exact List.cons_ne_nil _ _

/-! ## Consultations are made in calls -/

theorem exists_of_mem_each {α : Type} {f : α → Walk} {as : List α} {s : Step}
    (h : s ∈ (each f as cx).1) :
    ∃ before a after, as = before ++ a :: after ∧ s ∈ (f a (each f before cx).2).1 := by
  induction as generalizing cx with
  | nil => cases h
  | cons a as ih =>
    rcases List.mem_append.1 h with h | h
    · exact ⟨[], a, as, rfl, h⟩
    · obtain ⟨before, b, after, rfl, hs⟩ := ih h
      exact ⟨a :: before, b, after, rfl, hs⟩

/-- A call among the steps of a consultation is the consultation itself, or it is made in the walk
that the rule does not pass over. -/
theorem call_mem_asking {c : Call} {node : Option Node} {w : Walk}
    (h : Step.call c ∈ (asking rules node w cx).1) :
    (node = some c.node ∧ cx.position = c.position) ∨
      (∀ n ∈ node, (rules n cx.position).skipChildren = false) ∧ Step.call c ∈ (w cx).1 := by
  cases node with
  | none => exact .inr ⟨nofun, h⟩
  | some n =>
    rw [asking, visit] at h
    cases hskip : (rules n cx.position).skipChildren with
    | true =>
      simp only [hskip, if_true, List.mem_singleton, Step.call.injEq] at h
      exact .inl (h ▸ ⟨rfl, rfl⟩)
    | false =>
      simp only [hskip, Bool.false_eq_true, if_false, List.mem_cons, Step.call.injEq] at h
      rcases h with rfl | h
      · exact .inl ⟨rfl, rfl⟩
      · refine .inr ⟨fun m hm ↦ ?_, h⟩
        obtain rfl := Option.some.inj hm
        exact hskip

theorem exists_called_of_mem_walk {c : Call} (hp : Called schema rules document p cx)
    (hc : Step.call c ∈ (p.walk schema rules cx).1) :
    ∃ q cx', Called schema rules document q cx' ∧ q.node? = some c.node ∧
      (q.inside schema cx').position = c.position := by
  induction p using Part.parts_induction generalizing cx with
  | step p ih =>
    have hasking : Step.call c ∈
        (asking rules p.node? (each (Part.walk schema rules) p.parts) (p.inside schema cx)).1 := by
      rw [Part.walk_eq] at hc
      rw [Part.inside]
      cases hb : p.bracket? with
      | none => rwa [hb] at hc
      | some b =>
        rw [hb] at hc
        simpa [within, Walk.andThen, enter, leave] using hc
    rcases call_mem_asking hasking with ⟨hnode, hposition⟩ | ⟨hdescends, hmem⟩
    · exact ⟨p, cx, hp, hnode, hposition⟩
    · obtain ⟨before, q, after, hparts, hq⟩ := exists_of_mem_each hmem
      exact ih q (hparts ▸ List.mem_append_right _ (.head _)) (.part hp hdescends hparts) hq

/-- **Entering and leaving are balanced.** -/
theorem walk_isBalanced (schema : Schema) (rules : Rules) (document : Document) :
    (∀ p cx, Called schema rules document p cx → (p.walk schema rules cx).2 = cx) ∧
    (∀ p cx b, Called schema rules document p cx → p.bracket? = some b →
      ∀ f ∈ b.frames, ¬ (p.beforeLeaving schema rules cx).IsExhausted f) ∧
    (∀ before after, document = before ++ after →
      (each (walkDefinition schema rules) before .empty).2 = .empty) ∧
    WellNested (walkSteps schema rules document) ∧
    (∀ c ∈ walkDocument schema rules document, ∃ p cx, Called schema rules document p cx ∧
      p.node? = some c.node ∧ (p.inside schema cx).position = c.position) := by
  refine ⟨fun p cx hp ↦ (p.rests_walk hp.ready).back, fun p cx b hp hb f hf ↦ ?_,
    fun before after _ ↦ (rests_definitions before).back, (rests_definitions document).wellNested,
    fun c hc ↦ ?_⟩
  · rw [Part.beforeLeaving_eq hp.ready, Part.inside, hb]
    exact b.not_isExhausted_enter hf
  · obtain ⟨step, hstep, hcall⟩ := List.mem_filterMap.1 hc
    obtain rfl : step = .call c := by
      cases step <;> simp_all [Step.call?]
    obtain ⟨before, d, after, hsplit, hd⟩ := exists_of_mem_each hstep
    exact exists_called_of_mem_walk (.definition hsplit) hd

end

end TypeFootprint
