import TypeFootprint.Footprint.Collect
import TypeFootprint.Footprint.Expand
import TypeFootprint.Footprint.Policy

/-!
# The names of the types that a document needs

The types that a document touches are collected, abstract types among them are expanded, and what
is left is reduced to canonical names under a policy.  Names come in the order in which they were
first found; `sortNames` orders them by code point, which is also the order of their UTF-8 bytes.
-/

set_option autoImplicit false

namespace TypeFootprint

/-- The names of the types that a document needs, in the order of their first discovery. -/
def resolveTypeNames (schema : Schema) (document : Document) (policy : Policy) :
    OrderedSet String :=
  canonicalize policy (expand schema (collect schema document))

/-- The names in the order of their code points. -/
def sortNames (names : List String) : List String :=
  names.mergeSort fun m n ↦ decide (m ≤ n)

/-- The names one to a line, or a remark that there are none. -/
def listNames (names : List String) : String :=
  if names.isEmpty then "(no types)" else "\n".intercalate names

end TypeFootprint
