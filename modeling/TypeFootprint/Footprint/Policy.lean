import TypeFootprint.OrderedSet
import TypeFootprint.TypeRef

/-!
# Names of types, and the exceptions made for some of them

The canonical name of a type reference keeps the ASCII letters and the underscores of its notation:
brackets, exclamation marks and digits go.  A `Policy` then removes the names it denies and adds the
names it forces, in this order, so a name that is denied and forced is there in the end.
-/

set_option autoImplicit false

namespace TypeFootprint

/-- An ASCII letter or an underscore: what a canonical name consists of. -/
def isCanonicalChar (c : Char) : Bool := c.isAlpha || c == '_'

/-- The ASCII letters and underscores of a text, if there are any. -/
def canonicalText? (text : String) : Option String :=
  match text.toList.filter isCanonicalChar with
  | [] => none
  | cs => some (String.ofList cs)

/-- The canonical name of a type reference. -/
def TypeRef.canonicalName? (t : TypeRef) : Option String := canonicalText? t.render

/-- Names to remove from every result, and names to add to it. -/
structure Policy where
  denied : OrderedSet String
  forced : OrderedSet String

namespace Policy

/-- No exceptions. -/
def empty : Policy := ⟨.empty, .empty⟩

/-- The exceptions that are made unless others are asked for. -/
def standard : Policy :=
  ⟨.ofList ["_VInputParsingError_"], .ofList ["Common_GovernmentId"]⟩

/-- Denies a name. -/
def deny (p : Policy) (n : String) : Policy := { p with denied := p.denied.insert n }

/-- Forces a name. -/
def force (p : Policy) (n : String) : Policy := { p with forced := p.forced.insert n }

/-- Removes the denied names and then adds the forced ones. -/
def apply (p : Policy) (names : OrderedSet String) : OrderedSet String :=
  (names.filter fun n ↦ decide (n ∉ p.denied)).insertMany p.forced.toList

/-- Whether two policies deny the same names and force the same names. -/
def sameExceptions (p q : Policy) : Bool :=
  p.denied.sameElements q.denied && p.forced.sameElements q.forced

end Policy

/-- The canonical forms of some texts, under a policy. -/
def canonicalizeTexts (policy : Policy) (texts : List String) : OrderedSet String :=
  policy.apply (.ofList (texts.filterMap canonicalText?))

/-- The canonical names of some types, under a policy. -/
def canonicalize (policy : Policy) (types : OrderedSet TypeRef) : OrderedSet String :=
  policy.apply (.ofList (types.toList.filterMap TypeRef.canonicalName?))

end TypeFootprint
