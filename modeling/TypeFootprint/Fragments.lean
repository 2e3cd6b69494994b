import TypeFootprint.Document
import TypeFootprint.OrderedSet
import TypeFootprint.Schema

/-!
# The fragments of a document by name

Where a document defines a fragment name several times, the last definition counts.
-/

set_option autoImplicit false

namespace TypeFootprint

/-- The fragment definitions of a document, in order. -/
structure Fragments where
  definitions : List Fragment

namespace Fragments

/-- The fragments that a document defines. -/
def ofDocument (document : Document) : Fragments := ⟨document.fragments⟩

/-- The last definition of this name. -/
def find? (fragments : Fragments) (n : Name) : Option Fragment :=
  fragments.definitions.reverse.find? fun f ↦ f.name = n

/-- The names that are defined. -/
def names (fragments : Fragments) : OrderedSet Name :=
  OrderedSet.ofList (fragments.definitions.map Fragment.name)

/-- The type condition of a fragment, if it is the name of a composite type. -/
def type? (fragments : Fragments) (schema : Schema) (n : Name) : Option TypeRef := do
  let f ← fragments.find? n
  schema.keepKind TypeKind.isComposite (.ofName f.condition)

end Fragments
end TypeFootprint
