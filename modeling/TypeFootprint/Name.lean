/-!
# Names

A GraphQL name is a non-empty run of ASCII letters, digits and underscores that does not start
with a digit.  The rule is part of the type `Name`, so whatever holds a name — a type, a field, a
fragment — holds a text that the grammar admits.

* `isName` is the rule on a list of characters.
* `Name.ofText?` reads a text as a name, and `Name.ofText?_text` says that the text of a name is
  read as that name.
-/

set_option autoImplicit false

namespace TypeFootprint

/-- An ASCII letter or an underscore: what a name may start with. -/
def isNameStart (c : Char) : Bool := c.isAlpha || c == '_'

/-- An ASCII letter, a digit or an underscore: what a name may go on with. -/
def isNameContinue (c : Char) : Bool := c.isAlphanum || c == '_'

/-- The rule for names. -/
def isName : List Char → Bool
  | [] => false
  | c :: cs => isNameStart c && cs.all isNameContinue

/-- A text that the grammar admits as a name. -/
structure Name where
  text : String
  valid : isName text.toList = true
deriving DecidableEq

namespace Name

/-- The name with this text, if the text is a name. -/
def ofText? (text : String) : Option Name :=
  if h : isName text.toList = true then some ⟨text, h⟩ else none

/-- The characters of a name. -/
def toList (n : Name) : List Char := n.text.toList

theorem ext_text {m n : Name} (h : m.text = n.text) : m = n := by
  cases m; cases n; cases h; rfl

theorem ofText?_text (n : Name) : ofText? n.text = some n := by
  rw [ofText?, dif_pos n.valid]

theorem text_of_ofText? {s : String} {n : Name} (h : ofText? s = some n) : n.text = s := by
  rw [ofText?] at h
  split at h
  · cases h; rfl
  · cases h

end Name
end TypeFootprint
