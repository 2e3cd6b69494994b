/-!
# Blank text

The characters that leave no mark: the white space of Unicode, neither zero-width characters nor the
byte order mark among them.  A text of nothing else is blank.
-/

set_option autoImplicit false

namespace TypeFootprint.Text

/-- The ranges of code points that are white space. -/
def whiteSpaceRanges : List (Nat × Nat) :=
  [(0x09, 0x0D), (0x20, 0x20), (0x85, 0x85), (0xA0, 0xA0), (0x1680, 0x1680), (0x2000, 0x200A),
   (0x2028, 0x2029), (0x202F, 0x202F), (0x205F, 0x205F), (0x3000, 0x3000)]

/-- Whether a character is white space. -/
def isWhiteSpace (c : Char) : Bool :=
  whiteSpaceRanges.any fun r ↦ r.1 ≤ c.toNat && c.toNat ≤ r.2

/-- Whether a text is white space throughout. -/
def isBlank (cs : List Char) : Bool := cs.all isWhiteSpace

end TypeFootprint.Text
