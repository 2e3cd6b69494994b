/-!
# Bytes in letters

Three bytes are written as four letters of six bits each.  At the end one or two letters may be
missing; signs for equality stand in their place, and the bits that are left over are zero.
-/

set_option autoImplicit false

namespace TypeFootprint.Yaml.Binary

/-- The value of a letter. -/
def sextet? (c : Char) : Option Nat :=
  if c.isUpper then some (c.toNat - 'A'.toNat)
  else if c.isLower then some (c.toNat - 'a'.toNat + 26)
  else if c.isDigit then some (c.toNat - '0'.toNat + 52)
  else if c = '+' then some 62
  else if c = '/' then some 63
  else none

/-- Takes one more letter: the bytes that are complete, last first, and the bits that are left with
their number. -/
def addSextet (s : List UInt8 × Nat × Nat) (sextet : Nat) : List UInt8 × Nat × Nat :=
  let (bytes, value, width) := s
  let value := value * 64 + sextet
  if width < 2 then (bytes, value, width + 6)
  else
    let left := 1 <<< (width - 2)
    (UInt8.ofNat (value / left) :: bytes, value % left, width - 2)

/-- The bytes that letters stand for; blanks do not count. -/
def bytes? (cs : List Char) : Option ByteArray := do
  let written := cs.filter fun c ↦ !c.isWhitespace
  let padding := written.reverse.takeWhile fun c ↦ c == '='
  let sextets ← (written.take (written.length - padding.length)).mapM sextet?
  let (bytes, value, _) := sextets.foldl addSextet ([], 0, 0)
  if written.length % 4 = 0 && decide (padding.length ≤ 2) && value = 0 then
    some ⟨bytes.reverse.toArray⟩
  else none

/-- The text that letters stand for. -/
def text? (s : String) : Option String := (bytes? s.toList).bind String.fromUTF8?

end TypeFootprint.Yaml.Binary
