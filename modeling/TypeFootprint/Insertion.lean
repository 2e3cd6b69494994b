import TypeFootprint.OrderedSet

/-!
# Insertions

An ordered set is filled by insertions of three sorts: of one element, of an element if there is
one, and of several elements in their order.  The first two are answered with whether the element
is new.
-/

set_option autoImplicit false

namespace TypeFootprint

/-- An insertion, with what it hands over. -/
inductive Insertion (α : Type) where
  | one (a : α)
  | optional (a? : Option α)
  | many (as : List α)

namespace Insertion

variable {α : Type}

/-- What is handed over, in order. -/
def elements : Insertion α → List α
  | one a => [a]
  | optional a? => a?.toList
  | many as => as

variable [DecidableEq α]

/-- The set after an insertion. -/
def apply (s : OrderedSet α) : Insertion α → OrderedSet α
  | one a => s.insert a
  | optional none => s
  | optional (some a) => s.insert a
  | many as => s.insertMany as

/-- Whether the element is new.  An insertion of several elements is not answered. -/
def answer? (s : OrderedSet α) : Insertion α → Option Bool
  | one a => some (decide (a ∉ s))
  | optional none => some false
  | optional (some a) => some (decide (a ∉ s))
  | many _ => none

end Insertion

/-- The set after insertions into the empty set, one after the other. -/
def OrderedSet.ofInsertions {α : Type} [DecidableEq α] (insertions : List (Insertion α)) :
    OrderedSet α :=
  insertions.foldl Insertion.apply .empty

end TypeFootprint
