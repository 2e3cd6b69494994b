import TypeFootprint.Introspection.Sdl
import TypeFootprint.Proofs.Grammar.Constants
import TypeFootprint.Proofs.Token.Strings
import TypeFootprint.Schema.Build

/-!
# Introspected schemas and the definitions that say the same

`Result.WellFormed depth r` collects what a server has to keep to for its answer to be a schema:
names are names, references are complete, default values are constants, no list says the same name
twice.  The `depth` bounds how deep the brackets of references and of default values are nested.

`ReadAs` relates each part of an answer to a definition of the type system: `t.ReadAs w` says that
`w` has the kind, the name and the parts of `t`, in the same order.  A description is related to
what becomes of it as a quoted string or a block string; arguments are written without theirs.
-/

set_option autoImplicit false

namespace TypeFootprint

namespace TypeRef

/-- The same type, required; nothing if it is required already. -/
def require? : TypeRef → Option TypeRef
  | named n false => some (named n true)
  | list item false => some (list item true)
  | _ => none

theorem chars_of_require? {t u : TypeRef} (h : t.require? = some u) :
    u.chars = t.chars ++ ['!'] ∧ u.depth = t.depth := by
  cases t with
  | named n required =>
    cases required
    · obtain rfl := Option.some.inj h
      simp [chars, mark, depth]
    · cases h
  | list item required =>
    cases required
    · obtain rfl := Option.some.inj h
      simp [chars, mark, depth]
    · cases h

end TypeRef

namespace Introspection

/-! ## Well-formed answers -/

/-- Whether a character is no control character, or is a tab or a newline. -/
def isTextChar (c : Char) : Bool :=
  c == '\t' || c == '\n' || (0x20 ≤ c.toNat && !(0x7F ≤ c.toNat && c.toNat ≤ 0x9F))

/-- Whether a text has no control characters but tabs and newlines. -/
def isText (text : String) : Bool := text.toList.all isTextChar

/-- Whether named kinds have a name and hold nothing, wrappers hold something, and nothing is
required twice. -/
def Reference.isComplete : Reference → Bool
  | plain .list _ => false
  | plain .nonNull _ => false
  | plain _ name => name.any fun text ↦ isName text.toList
  | wrapping .list _ inner => inner.isComplete
  | wrapping .nonNull _ inner => inner.kind != .nonNull && inner.isComplete
  | wrapping _ _ _ => false

/-- How deep lists are nested in a reference. -/
def Reference.listDepth : Reference → Nat
  | plain _ _ => 0
  | wrapping .list _ inner => inner.listDepth + 1
  | wrapping _ _ inner => inner.listDepth

/-- An argument or an input field with a name, a type and a default value that is a constant. -/
structure InputEntry.WellFormed (depth : Nat) (v : InputEntry) : Prop where
  name : isName v.name.toList = true
  description : v.description.all isText = true
  type : v.type.isComplete = true
  typeDepth : v.type.listDepth ≤ depth
  defaultValue : v.defaultValue.all (fun text ↦ (Parser.constant? depth text).isSome) = true

/-- A field whose arguments have distinct names. -/
structure FieldEntry.WellFormed (depth : Nat) (f : FieldEntry) : Prop where
  name : isName f.name.toList = true
  description : f.description.all isText = true
  arguments : ∀ v ∈ f.arguments, v.WellFormed depth
  distinct : (f.arguments.map InputEntry.name).Nodup
  type : f.type.isComplete = true
  typeDepth : f.type.listDepth ≤ depth
  reason : f.deprecationReason.all isText = true

/-- An enum value whose name is none of the names that stand for other values. -/
structure EnumEntry.WellFormed (v : EnumEntry) : Prop where
  name : isName v.name.toList = true
  reserved : v.name ≠ "true" ∧ v.name ≠ "false" ∧ v.name ≠ "null"
  description : v.description.all isText = true
  reason : v.deprecationReason.all isText = true

/-- Names without repetitions. -/
def AreNames (names : List String) : Prop :=
  (∀ text ∈ names, isName text.toList = true) ∧ names.Nodup

/-- Well-formed items with distinct names. -/
def EntryBody.WellFormed (depth : Nat) : EntryBody → Prop
  | scalar => True
  | object fields interfaces =>
    (∀ f ∈ fields, f.WellFormed depth) ∧ (fields.map FieldEntry.name).Nodup ∧ AreNames interfaces
  | interface fields interfaces =>
    (∀ f ∈ fields, f.WellFormed depth) ∧ (fields.map FieldEntry.name).Nodup ∧ AreNames interfaces
  | union possibleTypes => AreNames possibleTypes
  | enum values => (∀ v ∈ values, v.WellFormed) ∧ (values.map EnumEntry.name).Nodup
  | inputObject fields =>
    (∀ v ∈ fields, v.WellFormed depth) ∧ (fields.map InputEntry.name).Nodup

/-- A type with a name and a body. -/
structure TypeEntry.WellFormed (depth : Nat) (t : TypeEntry) : Prop where
  name : isName t.name.toList = true
  description : t.description.all isText = true
  body : t.body.WellFormed depth

/-- A directive with one location or more, all of which exist. -/
structure DirectiveEntry.WellFormed (depth : Nat) (d : DirectiveEntry) : Prop where
  name : isName d.name.toList = true
  description : d.description.all isText = true
  arguments : ∀ v ∈ d.arguments, v.WellFormed depth
  distinct : (d.arguments.map InputEntry.name).Nodup
  locations : ∀ l ∈ d.locations, (DirectiveLocation.ofKeyword? l).isSome = true
  someLocation : d.locations ≠ []

/-- The types that have to be defined. -/
def Result.ownTypes (r : Result) : List TypeEntry := r.types.filter fun t ↦ !t.isBuiltIn

/-- The directives that have to be defined. -/
def Result.ownDirectives (r : Result) : List DirectiveEntry :=
  r.directives.filter fun d ↦ !d.isBuiltIn

/-- An answer whose own types and directives are well-formed and have distinct names. -/
structure Result.WellFormed (depth : Nat) (r : Result) : Prop where
  roots : ∀ root ∈ [r.queryType, r.mutationType, r.subscriptionType],
    root.all (fun text ↦ isName text.toList) = true
  types : ∀ t ∈ r.ownTypes, t.WellFormed depth
  directives : ∀ d ∈ r.ownDirectives, d.WellFormed depth
  distinctTypes : (r.ownTypes.map TypeEntry.name).Nodup
  distinctDirectives : (r.ownDirectives.map DirectiveEntry.name).Nodup

section Decidable

variable (depth : Nat)

instance (v : InputEntry) : Decidable (v.WellFormed depth) :=
  decidable_of_iff (isName v.name.toList = true ∧ v.description.all isText = true ∧
      v.type.isComplete = true ∧ v.type.listDepth ≤ depth ∧
      v.defaultValue.all (fun text ↦ (Parser.constant? depth text).isSome) = true)
    ⟨fun ⟨a, b, c, d, e⟩ ↦ ⟨a, b, c, d, e⟩, fun ⟨a, b, c, d, e⟩ ↦ ⟨a, b, c, d, e⟩⟩

instance (f : FieldEntry) : Decidable (f.WellFormed depth) :=
  decidable_of_iff (isName f.name.toList = true ∧ f.description.all isText = true ∧
      (∀ v ∈ f.arguments, v.WellFormed depth) ∧ (f.arguments.map InputEntry.name).Nodup ∧
      f.type.isComplete = true ∧ f.type.listDepth ≤ depth ∧
      f.deprecationReason.all isText = true)
    ⟨fun ⟨a, b, c, d, e, g, h⟩ ↦ ⟨a, b, c, d, e, g, h⟩,
      fun ⟨a, b, c, d, e, g, h⟩ ↦ ⟨a, b, c, d, e, g, h⟩⟩

instance (v : EnumEntry) : Decidable v.WellFormed :=
  decidable_of_iff (isName v.name.toList = true ∧
      (v.name ≠ "true" ∧ v.name ≠ "false" ∧ v.name ≠ "null") ∧
      v.description.all isText = true ∧ v.deprecationReason.all isText = true)
    ⟨fun ⟨a, b, c, d⟩ ↦ ⟨a, b, c, d⟩, fun ⟨a, b, c, d⟩ ↦ ⟨a, b, c, d⟩⟩

instance (names : List String) : Decidable (AreNames names) :=
  inferInstanceAs (Decidable (_ ∧ _))

instance : (b : EntryBody) → Decidable (b.WellFormed depth)
  | .scalar => inferInstanceAs (Decidable True)
  | .object _ _ => inferInstanceAs (Decidable (_ ∧ _ ∧ _))
  | .interface _ _ => inferInstanceAs (Decidable (_ ∧ _ ∧ _))
  | .union possibleTypes => inferInstanceAs (Decidable (AreNames possibleTypes))
  | .enum _ => inferInstanceAs (Decidable (_ ∧ _))
  | .inputObject _ => inferInstanceAs (Decidable (_ ∧ _))

instance (t : TypeEntry) : Decidable (t.WellFormed depth) :=
  decidable_of_iff (isName t.name.toList = true ∧ t.description.all isText = true ∧
      t.body.WellFormed depth)
    ⟨fun ⟨a, b, c⟩ ↦ ⟨a, b, c⟩, fun ⟨a, b, c⟩ ↦ ⟨a, b, c⟩⟩

instance (d : DirectiveEntry) : Decidable (d.WellFormed depth) :=
  decidable_of_iff (isName d.name.toList = true ∧ d.description.all isText = true ∧
      (∀ v ∈ d.arguments, v.WellFormed depth) ∧ (d.arguments.map InputEntry.name).Nodup ∧
      (∀ l ∈ d.locations, (DirectiveLocation.ofKeyword? l).isSome = true) ∧ d.locations ≠ [])
    ⟨fun ⟨a, b, c, d, e, g⟩ ↦ ⟨a, b, c, d, e, g⟩, fun ⟨a, b, c, d, e, g⟩ ↦ ⟨a, b, c, d, e, g⟩⟩

instance (r : Result) : Decidable (r.WellFormed depth) :=
  decidable_of_iff ((∀ root ∈ [r.queryType, r.mutationType, r.subscriptionType],
        root.all (fun text ↦ isName text.toList) = true) ∧
      (∀ t ∈ r.ownTypes, t.WellFormed depth) ∧ (∀ d ∈ r.ownDirectives, d.WellFormed depth) ∧
      (r.ownTypes.map TypeEntry.name).Nodup ∧ (r.ownDirectives.map DirectiveEntry.name).Nodup)
    ⟨fun ⟨a, b, c, d, e⟩ ↦ ⟨a, b, c, d, e⟩, fun ⟨a, b, c, d, e⟩ ↦ ⟨a, b, c, d, e⟩⟩

end Decidable

/-! ## What an answer is read as -/

/-- The type reference that a complete reference stands for. -/
def Reference.typeRef? : Reference → Option TypeRef
  | plain .list _ => none
  | plain .nonNull _ => none
  | plain _ name => (name.bind Name.ofText?).map TypeRef.ofName
  | wrapping .list _ inner => inner.typeRef?.map fun t ↦ .list t false
  | wrapping .nonNull _ inner => inner.typeRef?.bind TypeRef.require?
  | wrapping _ _ _ => none

/-- A description after it has been written and read: text of one line stays as it is, text of
several lines is the value of a block string. -/
def shownDescription (indent : List Char) (description : Option String) : Option String :=
  description.map fun text ↦
    if text.toList.contains '\n' then
      String.ofList (Block.value (Token.blockText indent text.toList))
    else text

/-- The name of the directive that marks something as deprecated. -/
def deprecatedName : Name := BuiltIn.named "deprecated" (Eq.refl true)

/-- The name of its argument. -/
def reasonName : Name := BuiltIn.named "reason" (Eq.refl true)

/-- The directives of something that may be deprecated. -/
def deprecation (isDeprecated : Bool) (reason : Option String) : List Directive :=
  if isDeprecated then
    [⟨deprecatedName, (reason.map fun text ↦ ⟨reasonName, .string text⟩).toList⟩]
  else []

/-- An argument or an input field, with the description that is shown for it. -/
structure InputEntry.ReadAs (shown : Option String) (v : InputEntry) (w : InputValue) : Prop where
  description : w.description = shown
  name : w.name.text = v.name
  type : v.type.typeRef? = some w.type
  defaultValue : v.defaultValue.map (Parser.constant? maxDepth) = w.defaultValue.map some
  directives : w.directives = []

/-- A field of an input object. -/
def InputEntry.ReadAsField (v : InputEntry) (w : InputValue) : Prop :=
  v.ReadAs (shownDescription itemIndent v.description) w

/-- A field of an object type or of an interface. -/
structure FieldEntry.ReadAs (f : FieldEntry) (w : FieldDefinition) : Prop where
  description : w.description = shownDescription itemIndent f.description
  name : w.name.text = f.name
  arguments : List.Forall₂ (InputEntry.ReadAs none) f.arguments w.arguments
  type : f.type.typeRef? = some w.type
  directives : w.directives = deprecation f.isDeprecated f.deprecationReason

/-- A value of an enum type. -/
structure EnumEntry.ReadAs (v : EnumEntry) (w : EnumValue) : Prop where
  description : w.description = shownDescription itemIndent v.description
  name : w.name.text = v.name
  directives : w.directives = deprecation v.isDeprecated v.deprecationReason

/-- A body of the same kind with the same items. -/
inductive EntryBody.ReadAs : EntryBody → TypeBody → Prop
  | scalar : ReadAs .scalar .scalar
  | object {fields : List FieldEntry} {is : List Name} {ws : List FieldDefinition}
      (h : List.Forall₂ FieldEntry.ReadAs fields ws) :
      ReadAs (.object fields (is.map Name.text)) (.object is ws)
  | interface {fields : List FieldEntry} {is : List Name} {ws : List FieldDefinition}
      (h : List.Forall₂ FieldEntry.ReadAs fields ws) :
      ReadAs (.interface fields (is.map Name.text)) (.interface is ws)
  | union {ms : List Name} : ReadAs (.union (ms.map Name.text)) (.union ms)
  | enum {values : List EnumEntry} {ws : List EnumValue}
      (h : List.Forall₂ EnumEntry.ReadAs values ws) : ReadAs (.enum values) (.enum ws)
  | inputObject {fields : List InputEntry} {ws : List InputValue}
      (h : List.Forall₂ InputEntry.ReadAsField fields ws) :
      ReadAs (.inputObject fields) (.inputObject ws)

/-- A type. -/
structure TypeEntry.ReadAs (t : TypeEntry) (w : TypeDefinition) : Prop where
  description : w.description = shownDescription [] t.description
  name : w.name.text = t.name
  directives : w.directives = []
  body : t.body.ReadAs w.body

/-- A directive. -/
structure DirectiveEntry.ReadAs (d : DirectiveEntry) (w : DirectiveDefinition) : Prop where
  description : w.description = shownDescription [] d.description
  name : w.name.text = d.name
  arguments : List.Forall₂ (InputEntry.ReadAs none) d.arguments w.arguments
  repeatable : w.repeatable = d.isRepeatable
  locations : w.locations.map DirectiveLocation.keyword = d.locations

/-- A schema with the types and the directives of an answer, in the same order, and with those that
every schema has. -/
structure Result.ReadAs (r : Result) (schema : Schema) : Prop where
  types : ∃ ws, schema.types = BuiltIn.types ++ ws ∧ List.Forall₂ TypeEntry.ReadAs r.ownTypes ws
  directives : ∃ ws, schema.directives = ws ++ BuiltIn.directives ∧
    List.Forall₂ DirectiveEntry.ReadAs r.ownDirectives ws

/-! ## Complete references -/

theorem Reference.exists_typeRef {ref : Reference} (h : ref.isComplete = true) :
    ∃ t, ref.typeRef? = some t ∧ (ref.kind ≠ .nonNull → t.nullable = t) := by
  induction ref with
  | plain kind name =>
    have named (hname : name.any (fun text ↦ isName text.toList) = true) :
        ∃ t, (name.bind Name.ofText?).map TypeRef.ofName = some t ∧
          (kind ≠ .nonNull → t.nullable = t) := by
      obtain ⟨text, rfl, htext⟩ := (Option.any_eq_true _ _).1 hname
      exact ⟨.ofName ⟨text, htext⟩, by simp [Name.ofText?, htext], fun _ ↦ rfl⟩
    cases kind <;> first | exact named h | cases h
  | wrapping kind name inner ih =>
    cases kind with
    | list =>
      obtain ⟨t, ht, -⟩ := ih h
      exact ⟨.list t false, by simp [typeRef?, ht], fun _ ↦ rfl⟩
    | nonNull =>
      simp only [isComplete, Bool.and_eq_true, bne_iff_ne] at h
      obtain ⟨t, ht, hnull⟩ := ih h.2
      have hreq : ∃ u, t.require? = some u := by
        have := hnull h.1
        cases t with
        | named n required =>
          obtain rfl : false = required := by simpa [TypeRef.nullable] using this
          exact ⟨_, rfl⟩
        | list item required =>
          obtain rfl : false = required := by simpa [TypeRef.nullable] using this
          exact ⟨_, rfl⟩
      obtain ⟨u, hu⟩ := hreq
      exact ⟨u, by simp [typeRef?, ht, hu], fun hk ↦ absurd rfl hk⟩
    | _ => cases h

/-- What is written for a complete reference is the type reference that it stands for. -/
theorem Reference.toList_render {ref : Reference} {t : TypeRef} (h : ref.typeRef? = some t) :
    ref.render.toList = t.chars ∧ t.depth = ref.listDepth := by
  induction ref generalizing t with
  | plain kind name =>
    have named (hname : (name.bind Name.ofText?).map TypeRef.ofName = some t) :
        (name.getD "").toList = t.chars ∧ t.depth = 0 := by
      obtain ⟨n, hn, rfl⟩ := Option.map_eq_some_iff.1 hname
      obtain ⟨text, rfl, htext⟩ := Option.bind_eq_some_iff.1 hn
      obtain rfl := Name.text_of_ofText? htext
      simp [TypeRef.ofName, TypeRef.chars, TypeRef.mark, TypeRef.depth, Name.toList]
    cases kind <;> first | exact named h | cases h
  | wrapping kind name inner ih =>
    cases kind with
    | list =>
      obtain ⟨u, hu, rfl⟩ := Option.map_eq_some_iff.1 h
      obtain ⟨hrender, hdepth⟩ := ih hu
      simp [render, TypeRef.chars, TypeRef.mark, TypeRef.depth, listDepth, hrender, hdepth]
    | nonNull =>
      obtain ⟨u, hu, hreq⟩ := Option.bind_eq_some_iff.1 h
      obtain ⟨hrender, hdepth⟩ := ih hu
      obtain ⟨hchars, hdepth'⟩ := TypeRef.chars_of_require? hreq
      simp [render, hrender, hchars, hdepth', hdepth, listDepth]
    | _ => cases h

end Introspection
end TypeFootprint
