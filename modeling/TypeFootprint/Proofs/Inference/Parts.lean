import Mathlib.Data.List.Basic
import TypeFootprint.Inference.Walk

/-!
# The form of a walk

The functions of a walk call each other.  A `Part` is what one of them is called with, and all of
them have one form (`Part.walk_eq`): something is entered, a rule is asked, the parts of the part are
walked through one after the other unless the rule passes over them, and what was entered is left.
So what holds of every part is shown by one induction, `Part.parts_induction`, and not by one for
each of the functions.
-/

set_option autoImplicit false

namespace TypeFootprint

/-- What a function of the walk is called with. -/
inductive Part where
  | definition (d : Definition)
  | declaration (v : VariableDefinition)
  | selectionSet (selections : List Selection)
  | selection (s : Selection)
  | arguments (as : List Argument)
  | argument (a : Argument)
  | directives (ds : List Directive)
  | directive (d : Directive)
  | value (v : Value)
  | objectField (n : Name) (v : Value)

/-- What is entered before something, and left after it. -/
inductive Bracket where
  | operation (kind : OperationKind)
  | fragment (condition : Option Name)
  | declaration (type : TypeRef)
  | selections
  | field (n : Name)
  | argument (n : Name)
  | directive (n : Name)
  | list
  | objectField (n : Name)

namespace Bracket

/-- What entering does to the context. -/
def enter (schema : Schema) : Bracket → Context → Context
  | operation kind => Context.enterOperation schema kind
  | fragment condition => Context.enterFragment schema condition
  | declaration type => Context.enterVariable schema type
  | selections => Context.enterSelections schema
  | field n => Context.enterField schema n
  | argument n => Context.enterArgument schema n
  | directive n => Context.enterDirective schema n
  | list => Context.enterList schema
  | objectField n => Context.enterObjectField schema n

/-- What leaving does to the context.  Different things are left in the same way. -/
def leave : Bracket → Context → Context
  | operation _ | fragment _ => Context.leaveOutput
  | declaration _ | argument _ | list | objectField _ => Context.leaveInput
  | selections => Context.leaveSelections
  | field _ => Context.leaveField
  | directive _ => Context.leaveDirective

/-- What is entered, the outermost first. -/
def frames : Bracket → List Frame
  | operation _ | fragment _ => [.output]
  | declaration _ | argument _ | list | objectField _ => [.input]
  | selections => [.parentOutput]
  | field _ => [.field, .output]
  | directive _ => [.directive]

end Bracket

namespace Part

/-- What is entered before a part and left after it.  An empty selection set is not entered. -/
def bracket? : Part → Option Bracket
  | definition (.operation op) => some (.operation op.kind)
  | definition (.fragment f) => some (.fragment (some f.condition))
  | definition (.typeSystem _) => none
  | declaration v => some (.declaration v.type)
  | selectionSet [] => none
  | selectionSet (_ :: _) => some .selections
  | selection (.field _ n _ _ _) => some (.field n)
  | selection (.spread _ _) => none
  | selection (.inline condition _ _) => some (.fragment condition)
  | arguments _ => none
  | argument a => some (.argument a.name)
  | directives _ => none
  | directive d => some (.directive d.name)
  | value (.list _) => some .list
  | value _ => none
  | objectField n _ => some (.objectField n)

/-- The node whose rule is asked, if one is. -/
def node? : Part → Option Node
  | definition (.operation op) => some (.operation op)
  | definition (.fragment f) => some (.fragmentDefinition f)
  | definition (.typeSystem _) => none
  | declaration v => some (.variableDefinition v)
  | selectionSet _ => none
  | selection s => some (.selection s)
  | arguments _ => none
  | argument a => some (.argument a)
  | directives _ => none
  | directive d => some (.directive d)
  | value v => some (.value v)
  | objectField n v => some (.objectField n v)

/-- The parts of a part, in order. -/
def parts : Part → List Part
  | definition (.operation op) =>
    op.declarations.map declaration ++ [directives op.directives, selectionSet op.selections]
  | definition (.fragment f) => [directives f.directives, selectionSet f.selections]
  | definition (.typeSystem _) => []
  | declaration v =>
    value (.var v.name) :: (v.defaultValue.toList.map value ++ [directives v.directives])
  | selectionSet selections => selections.map selection
  | selection (.field _ _ as ds selections) => [arguments as, directives ds, selectionSet selections]
  | selection (.spread _ ds) => [directives ds]
  | selection (.inline _ ds selections) => [directives ds, selectionSet selections]
  | arguments as => as.map argument
  | argument a => [value a.value]
  | directives ds => ds.map directive
  | directive d => [arguments d.arguments]
  | value (.list items) => items.map value
  | value (.object fields) => fields.map fun field ↦ objectField field.1 field.2
  | value _ => []
  | objectField _ v => [value v]

-- The tag makes the equations of `parts` here, once.  Most of the proofs below rewrite with them.
attribute [grind =] parts

/-- The function of the walk that is called with a part. -/
def walk (schema : Schema) (rules : Rules) : Part → Walk
  | definition d => walkDefinition schema rules d
  | declaration v => walkVariable schema rules v
  | selectionSet selections => walkSelectionSet schema rules selections
  | selection s => walkSelection schema rules s
  | arguments as => walkArguments schema rules as
  | argument a => walkArgument schema rules a
  | directives ds => walkDirectives schema rules ds
  | directive d => walkDirective schema rules d
  | value v => walkValue schema rules v
  | objectField n v => walkFields schema rules [(n, v)]

end Part

namespace Walk

/-- A walk inside a bracket, if there is one. -/
def within (schema : Schema) (bracket : Option Bracket) (w : Walk) : Walk :=
  match bracket with
  | none => w
  | some b => (enter b.frames (b.enter schema)).andThen (w.andThen (leave b.frames.reverse b.leave))

/-- A walk that the rule of a node may pass over, if there is one. -/
def asking (rules : Rules) (node : Option Node) (w : Walk) : Walk :=
  match node with
  | none => w
  | some n => visit rules n w

theorem andThen_stay (w : Walk) : w.andThen stay = w := by
  funext cx
  simp [andThen, stay]

theorem andThen_assoc (u v w : Walk) : (u.andThen v).andThen w = u.andThen (v.andThen w) := by
  funext cx
  simp [andThen]

theorem each_append {α : Type} (f : α → Walk) (as bs : List α) :
    each f (as ++ bs) = (each f as).andThen (each f bs) := by
  induction as with
  | nil => rfl
  | cons a as ih => rw [List.cons_append, each, ih, each, andThen_assoc]

theorem each_map {α β : Type} (f : β → Walk) (g : α → β) (as : List α) :
    each f (as.map g) = each (fun a ↦ f (g a)) as := by
  induction as with
  | nil => rfl
  | cons a as ih => rw [List.map_cons, each, ih, each]

theorem each_singleton {α : Type} (f : α → Walk) (a : α) : each f [a] = f a := andThen_stay (f a)

end Walk

section

variable {schema : Schema} {rules : Rules}

open Walk

theorem walkValues_eq_each (vs : List Value) :
    walkValues schema rules vs = each (walkValue schema rules) vs := by
  induction vs with
  | nil => rfl
  | cons v vs ih => rw [walkValues, ih, each]

theorem walkFields_eq_each (fields : List (Name × Value)) :
    walkFields schema rules fields =
      each (fun field ↦ walkFields schema rules [(field.1, field.2)]) fields := by
  induction fields with
  | nil => rfl
  | cons field fields ih =>
    rw [each, ← ih, walkFields, walkFields, walkFields, andThen_stay]

theorem walkSelections_eq_each (selections : List Selection) :
    walkSelections schema rules selections = each (walkSelection schema rules) selections := by
  induction selections with
  | nil => rfl
  | cons s selections ih => rw [walkSelections, ih, each]

/-- What the function of a part does: its bracket is put around the consultation of its rule, and
this around its parts. -/
def Part.HasForm (schema : Schema) (rules : Rules) (p : Part) : Prop :=
  p.walk schema rules =
    within schema p.bracket? (asking rules p.node? (each (walk schema rules) p.parts))

theorem Part.hasForm_definition (d : Definition) : (definition d).HasForm schema rules := by
  rw [HasForm]
  cases d with
  | operation op =>
    rw [parts, each_append, each_map, each, each_singleton]
    rfl
  | fragment f =>
    rw [parts, each, each_singleton]
    rfl
  | typeSystem t => rfl

theorem Part.hasForm_selectionSet (selections : List Selection) :
    (selectionSet selections).HasForm schema rules := by
  rw [HasForm, parts, each_map]
  cases selections with
  | nil => rfl
  | cons s selections =>
    change walkSelectionSet schema rules _ = _
    rw [walkSelectionSet, walkSelections_eq_each]
    rfl

theorem Part.hasForm_selection (s : Selection) : (selection s).HasForm schema rules := by
  rw [HasForm]
  change walkSelection schema rules s = _
  cases s with
  | field responseName n as ds selections =>
    rw [parts, each, each, each_singleton, walkSelection]
    rfl
  | spread n ds =>
    rw [parts, each_singleton, walkSelection]
    rfl
  | inline condition ds selections =>
    rw [parts, each, each_singleton, walkSelection]
    rfl

theorem Part.hasForm_value (v : Value) : (value v).HasForm schema rules := by
  rw [HasForm]
  cases v with
  | list items =>
    rw [parts, each_map]
    change walkValue schema rules _ = _
    rw [walkValue, walkValues_eq_each]
    rfl
  | object fields =>
    rw [parts, each_map]
    change walkValue schema rules _ = _
    rw [walkValue, walkFields_eq_each]
    rfl
  | _ => rfl

theorem Part.hasForm_objectField (n : Name) (v : Value) :
    (objectField n v).HasForm schema rules := by
  rw [HasForm, parts, each_singleton]
  change walkFields schema rules _ = _
  rw [walkFields, walkFields, andThen_stay]
  rfl

/-- **All functions of the walk have one form.** -/
theorem Part.walk_eq (p : Part) :
    p.walk schema rules =
      within schema p.bracket? (asking rules p.node? (each (walk schema rules) p.parts)) := by
  cases p with
  | definition d => exact hasForm_definition d
  | declaration v =>
    rw [parts, each, each_append, each_map, each_singleton]
    rfl
  | selectionSet selections => exact hasForm_selectionSet selections
  | selection s => exact hasForm_selection s
  | arguments as =>
    rw [parts, each_map]
    rfl
  | argument a =>
    rw [parts, each_singleton]
    rfl
  | directives ds =>
    rw [parts, each_map]
    rfl
  | directive d =>
    rw [parts, each_singleton]
    rfl
  | value v => exact hasForm_value v
  | objectField n v => exact hasForm_objectField n v

end

/-! ## Parts of parts -/

namespace Part

variable {p q : Part}

theorem sizeOf_lt_of_mem_parts_definition {d : Definition} (h : q ∈ (definition d).parts) :
    sizeOf q < sizeOf (definition d) := by
  cases d with
  | operation op =>
    obtain ⟨kind, name, declarations, ds, selections⟩ := op
    simp only [parts, List.mem_append, List.mem_map, List.mem_cons, List.not_mem_nil,
      or_false] at h
    simp only [definition.sizeOf_spec, Definition.operation.sizeOf_spec, Operation.mk.sizeOf_spec]
    rcases h with ⟨v, hv, rfl⟩ | rfl | rfl
    · have hsize := List.sizeOf_lt_of_mem hv
      rw [declaration.sizeOf_spec]
      omega
    · rw [directives.sizeOf_spec]
      omega
    · rw [selectionSet.sizeOf_spec]
      omega
  | fragment f =>
    obtain ⟨n, condition, ds, selections⟩ := f
    simp only [parts, List.mem_cons, List.not_mem_nil, or_false] at h
    simp only [definition.sizeOf_spec, Definition.fragment.sizeOf_spec, Fragment.mk.sizeOf_spec]
    rcases h with rfl | rfl
    · rw [directives.sizeOf_spec]
      omega
    · rw [selectionSet.sizeOf_spec]
      omega
  | typeSystem t => cases h

theorem sizeOf_lt_of_mem_parts_declaration {v : VariableDefinition}
    (h : q ∈ (declaration v).parts) : sizeOf q < sizeOf (declaration v) := by
  obtain ⟨n, type, default, ds⟩ := v
  simp only [parts, List.mem_cons, List.mem_append, List.mem_map, Option.mem_toList,
    List.not_mem_nil, or_false] at h
  rw [declaration.sizeOf_spec, VariableDefinition.mk.sizeOf_spec]
  rcases h with rfl | ⟨v, rfl, rfl⟩ | rfl
  · have hsize : 0 < sizeOf default := by
      cases default with
      | none => exact Nat.one_pos
      | some v =>
        rw [Option.some.sizeOf_spec]
        omega
    rw [value.sizeOf_spec, Value.var.sizeOf_spec]
    omega
  · rw [value.sizeOf_spec, Option.some.sizeOf_spec]
    omega
  · rw [directives.sizeOf_spec]
    omega

theorem sizeOf_lt_of_mem_parts_selection {s : Selection} (h : q ∈ (selection s).parts) :
    sizeOf q < sizeOf (selection s) := by
  cases s with
  | field responseName n as ds selections =>
    simp only [parts, List.mem_cons, List.not_mem_nil, or_false] at h
    rw [selection.sizeOf_spec, Selection.field.sizeOf_spec]
    rcases h with rfl | rfl | rfl
    · rw [arguments.sizeOf_spec]
      omega
    · rw [directives.sizeOf_spec]
      omega
    · rw [selectionSet.sizeOf_spec]
      omega
  | spread n ds =>
    obtain rfl : q = directives ds := by simpa [parts] using h
    rw [selection.sizeOf_spec, Selection.spread.sizeOf_spec, directives.sizeOf_spec]
    omega
  | inline condition ds selections =>
    simp only [parts, List.mem_cons, List.not_mem_nil, or_false] at h
    rw [selection.sizeOf_spec, Selection.inline.sizeOf_spec]
    rcases h with rfl | rfl
    · rw [directives.sizeOf_spec]
      omega
    · rw [selectionSet.sizeOf_spec]
      omega

theorem sizeOf_lt_of_mem_parts_value {v : Value} (h : q ∈ (value v).parts) :
    sizeOf q < sizeOf (value v) := by
  cases v with
  | list items =>
    obtain ⟨v, hv, rfl⟩ := List.mem_map.1 h
    have hsize := List.sizeOf_lt_of_mem hv
    rw [value.sizeOf_spec, value.sizeOf_spec, Value.list.sizeOf_spec]
    omega
  | object fields =>
    obtain ⟨⟨n, v⟩, hv, rfl⟩ := List.mem_map.1 h
    have hsize := List.sizeOf_lt_of_mem hv
    rw [Prod.mk.sizeOf_spec] at hsize
    change sizeOf (objectField n v) < _
    rw [objectField.sizeOf_spec, value.sizeOf_spec, Value.object.sizeOf_spec]
    omega
  | _ => cases h

/-- The parts of a part are smaller than it. -/
theorem sizeOf_lt_of_mem_parts (h : q ∈ p.parts) : sizeOf q < sizeOf p := by
  cases p with
  | definition d => exact sizeOf_lt_of_mem_parts_definition h
  | declaration v => exact sizeOf_lt_of_mem_parts_declaration h
  | selectionSet selections =>
    obtain ⟨s, hs, rfl⟩ := List.mem_map.1 h
    have hsize := List.sizeOf_lt_of_mem hs
    rw [selection.sizeOf_spec, selectionSet.sizeOf_spec]
    omega
  | selection s => exact sizeOf_lt_of_mem_parts_selection h
  | arguments as =>
    obtain ⟨a, ha, rfl⟩ := List.mem_map.1 h
    have hsize := List.sizeOf_lt_of_mem ha
    rw [argument.sizeOf_spec, arguments.sizeOf_spec]
    omega
  | argument a =>
    obtain ⟨n, v⟩ := a
    obtain rfl : q = value v := by simpa [parts] using h
    rw [value.sizeOf_spec, argument.sizeOf_spec, Argument.mk.sizeOf_spec]
    omega
  | directives ds =>
    obtain ⟨d, hd, rfl⟩ := List.mem_map.1 h
    have hsize := List.sizeOf_lt_of_mem hd
    rw [directive.sizeOf_spec, directives.sizeOf_spec]
    omega
  | directive d =>
    obtain ⟨n, as⟩ := d
    obtain rfl : q = arguments as := by simpa [parts] using h
    rw [arguments.sizeOf_spec, directive.sizeOf_spec, Directive.mk.sizeOf_spec]
    omega
  | value v => exact sizeOf_lt_of_mem_parts_value h
  | objectField n v =>
    obtain ⟨text, isName⟩ := n
    obtain rfl : q = value v := by simpa [parts] using h
    rw [value.sizeOf_spec, objectField.sizeOf_spec, Name.mk.sizeOf_spec]
    omega

/-- What holds of a part as soon as it holds of its parts holds of every part. -/
@[elab_as_elim]
theorem parts_induction {motive : Part → Prop}
    (step : ∀ p : Part, (∀ q ∈ p.parts, motive q) → motive p) (p : Part) : motive p :=
  step p fun q hq ↦
    have := sizeOf_lt_of_mem_parts hq
    parts_induction step q
termination_by sizeOf p

end Part

end TypeFootprint
