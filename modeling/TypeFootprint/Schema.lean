import TypeFootprint.TypeSystem

/-!
# Schemas

A schema is a list of types, no two of one name, a list of directive definitions, and the root
types of the three kinds of operation.  References to types that the schema does not define are
allowed everywhere; looking one of them up gives nothing.

* `Schema.type?` finds a type, `Schema.kind?` its kind.
* `Schema.field?` finds the field that a selection on a type means, the meta fields `__typename`,
  `__schema` and `__type` among them.
* `Schema.resolve?` keeps a reference if its core is defined.
-/

set_option autoImplicit false

namespace TypeFootprint

/-- The root type of each kind of operation, where there is one. -/
structure RootTypes where
  query : Option Name
  mutation : Option Name
  subscription : Option Name
deriving DecidableEq

namespace RootTypes

/-- No roots at all. -/
def empty : RootTypes := ⟨none, none, none⟩

/-- The root type of one kind of operation. -/
def get? (roots : RootTypes) : OperationKind → Option Name
  | .query => roots.query
  | .mutation => roots.mutation
  | .subscription => roots.subscription

/-- Sets the root type of one kind of operation. -/
def set (roots : RootTypes) (kind : OperationKind) (type : Name) : RootTypes :=
  match kind with
  | .query => { roots with query := some type }
  | .mutation => { roots with mutation := some type }
  | .subscription => { roots with subscription := some type }

end RootTypes

/-- The types, directives and root types that documents are written against. -/
structure Schema where
  types : List TypeDefinition
  directives : List DirectiveDefinition
  roots : RootTypes
  types_nodup : (types.map TypeDefinition.name).Nodup

namespace Schema

variable (schema : Schema)

/-- The type of this name. -/
def type? (n : Name) : Option TypeDefinition := schema.types.find? fun t ↦ t.name = n

/-- The kind of the type of this name. -/
def kind? (n : Name) : Option TypeKind := (schema.type? n).map TypeDefinition.kind

/-- Whether this name is the name of a type of such a kind. -/
def hasKind (p : TypeKind → Bool) (n : Name) : Bool := (schema.kind? n).any p

/-- The reference, if its core is a type of such a kind. -/
def keepKind (p : TypeKind → Bool) (t : TypeRef) : Option TypeRef :=
  if schema.hasKind p t.core then some t else none

/-- The reference, if its core is defined. -/
def resolve? (t : TypeRef) : Option TypeRef := (schema.kind? t.core).map fun _ ↦ t

/-- The reference that is this name, if the name is defined. -/
def resolveName? (n : Name) : Option TypeRef := schema.resolve? (.ofName n)

theorem hasKind_iff {schema : Schema} {p : TypeKind → Bool} {n : Name} :
    schema.hasKind p n = true ↔ ∃ k, schema.kind? n = some k ∧ p k = true := by
  rw [hasKind]
  cases schema.kind? n <;> simp

theorem keepKind_eq_some_iff {schema : Schema} {p : TypeKind → Bool} {t u : TypeRef} :
    schema.keepKind p t = some u ↔ schema.hasKind p t.core = true ∧ t = u := by
  rw [keepKind]
  split <;> simp [*]

/-- A defined type is one of any kind. -/
theorem resolve?_eq_keepKind (t : TypeRef) : schema.resolve? t = schema.keepKind (fun _ ↦ true) t := by
  rw [resolve?, keepKind, hasKind]
  cases schema.kind? t.core <;> rfl

/-- The definition of a directive. -/
def directive? (n : Name) : Option DirectiveDefinition :=
  schema.directives.find? fun d ↦ d.name = n

/-- The fields of the input object of this name. -/
def inputObject? (n : Name) : Option (List InputValue) :=
  match (schema.type? n).map TypeDefinition.body with
  | some (.inputObject fields) => some fields
  | _ => none

/-- The declared types of all fields of an input object; nothing for any other type. -/
def inputFieldTypes (n : Name) : List TypeRef :=
  ((schema.inputObject? n).getD []).map InputValue.type

end Schema

/-- The fields that a body declares for selection. -/
def TypeBody.outputFields : TypeBody → List FieldDefinition
  | object _ fields => fields
  | interface _ fields => fields
  | _ => []

namespace Name

/-- The name of the scalar of texts. -/
def string : Name := ⟨"String", by decide⟩

/-- The name of the type of schemas. -/
def schemaType : Name := ⟨"__Schema", by decide⟩

/-- The name of the type of types. -/
def typeType : Name := ⟨"__Type", by decide⟩

/-- The name of what holds names: a field of most introspection types, and the argument by which
a type is looked up. -/
def name : Name := ⟨"name", by decide⟩

end Name

namespace MetaField

/-- The field `__typename`, which every composite type has. -/
def typename : FieldDefinition :=
  ⟨none, ⟨"__typename", by decide⟩, [], .named .string true, []⟩

/-- The field `__schema` of the root type of queries. -/
def schema : FieldDefinition :=
  ⟨none, ⟨"__schema", by decide⟩, [], .named .schemaType true, []⟩

/-- The field `__type` of the root type of queries. -/
def type : FieldDefinition :=
  ⟨none, ⟨"__type", by decide⟩, [⟨none, .name, .named .string true, none, []⟩],
    .named .typeType false, []⟩

end MetaField

namespace Schema

/-- The meta fields of a type: they need no declaration, and a declared field of the same name
comes before them. -/
def metaFields (schema : Schema) (t : TypeDefinition) : List FieldDefinition :=
  (if t.kind.isComposite then [MetaField.typename] else []) ++
    (if schema.roots.query = some t.name then [MetaField.schema, MetaField.type]
      else [])

/-- The field that a selection of this name means on a type. -/
def field? (schema : Schema) (type field : Name) : Option FieldDefinition := do
  let t ← schema.type? type
  (t.body.outputFields ++ schema.metaFields t).find? fun f ↦ f.name = field

end Schema
end TypeFootprint
