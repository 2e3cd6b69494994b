/-!
# The shortest decimal of a binary number

A finite binary number of 64 bits is `m · 2 ^ q`, and every real number nearer to it than to its
neighbours reads back as it.  `Decimal.shortest` finds the coarsest grid of multiples of a power of
ten that has a point among these reals, and on it the point nearest to the number.

`Decimal.compact` writes it, with an exponent for very large and very small numbers.
-/

set_option autoImplicit false

namespace TypeFootprint

/-- The number `digits · 10 ^ exponent`. -/
structure Decimal where
  digits : Nat
  exponent : Int
deriving DecidableEq

namespace Decimal

/-- A positive number `m · 2 ^ q`, and whether its lower neighbour is at half the distance of the
upper one. -/
structure Binary where
  m : Nat
  q : Int
  lowerIsNear : Bool

/-- The magnitude of the number with these bits. -/
def Binary.ofBits (bits : UInt64) : Binary :=
  let fraction : Nat := bits.toNat % Nat.pow 2 52
  let exponent : Nat := bits.toNat / Nat.pow 2 52 % Nat.pow 2 11
  if exponent = 0 then ⟨fraction, -1074, false⟩
  else ⟨Nat.pow 2 52 + fraction, (exponent : Int) - 1075, fraction = 0 && 1 < exponent⟩

/-- Whether the sign bit is set. -/
def isNegative (bits : UInt64) : Bool := bits.toNat / Nat.pow 2 63 = 1

/-- Whether `num / den` reads back as the number: it is at most half way to a neighbour, and the
middle belongs to the even one. -/
def Binary.readsBack (b : Binary) (num den : Nat) : Bool :=
  -- all in quarters of the last place: value 4m, upper bound 4m + 2, lower bound 4m - 2 or 4m - 1
  let up := Nat.pow 2 (b.q - 2).toNat
  let down := Nat.pow 2 (2 - b.q).toNat
  let point := num * down
  let quarter := den * up
  let low := (4 * b.m - if b.lowerIsNear then 1 else 2) * quarter
  let high := (4 * b.m + 2) * quarter
  if b.m % 2 = 0 then low ≤ point && point ≤ high else low < point && point < high

/-- The decimal on the grid of multiples of `10 ^ g`, if that grid has a point that reads back. -/
def onGrid? (b : Binary) (g : Int) : Option Decimal :=
  -- the number is `num / den` grid steps
  let num := b.m * Nat.pow 2 b.q.toNat * Nat.pow 10 (-g).toNat
  let den := Nat.pow 2 (-b.q).toNat * Nat.pow 10 g.toNat
  let below := num / den
  let hits (d : Nat) : Bool :=
    d != 0 && b.readsBack (d * Nat.pow 10 g.toNat) (Nat.pow 10 (-g).toNat)
  let nearBelow := 2 * (num % den)
  if hits below && (!hits (below + 1) || nearBelow < den || (nearBelow = den && below % 2 = 0)) then
    some ⟨below, g⟩
  else if hits (below + 1) then some ⟨below + 1, g⟩
  else none

/-- The first grid with a hit among `steps` of them, from `10 ^ g` downwards. -/
def search (b : Binary) : (steps : Nat) → (g : Int) → Decimal
  | 0, g => ⟨0, g⟩
  | steps + 1, g => (onGrid? b g).getD (search b steps (g - 1))

/-- The shortest decimal that reads back as the magnitude of the number with these bits. -/
def shortest (bits : UInt64) : Decimal :=
  let b := Binary.ofBits bits
  if b.m = 0 then ⟨0, 0⟩ else search b 660 309

/-- The decimal digits of a natural number. -/
def digitChars (n : Nat) : List Char := Nat.toDigits 10 n

/-- So many zeros. -/
def zeros (n : Nat) : List Char := List.replicate n '0'

/-- Digits with a point after the first `k` of them, `0 < k`; zeros fill the gap, and an integer
gets a zero behind the point. -/
def withPoint (ds : List Char) (k : Nat) : List Char :=
  if ds.length ≤ k then ds ++ zeros (k - ds.length) ++ ['.', '0']
  else ds.take k ++ '.' :: ds.drop k

/-- The digits of `0.000…` with so many zeros behind the point. -/
def belowOne (ds : List Char) (n : Nat) : List Char := '0' :: '.' :: (zeros n ++ ds)

/-- Digits with a point after the first, unless there is just one. -/
def leading (ds : List Char) : List Char :=
  match ds with
  | [] => []
  | [d] => [d]
  | d :: rest => d :: '.' :: rest

/-- An exponent, which always has a sign. -/
def exponentChars (e : Int) : List Char :=
  'e' :: (if e < 0 then '-' else '+') :: digitChars e.natAbs

/-- Written with an exponent if the point would be more than sixteen digits behind the first digit
or more than four zeros in front of it. -/
def compactChars (d : Decimal) : List Char :=
  let ds := digitChars d.digits
  let k := d.exponent + ds.length
  if d.digits = 0 then ['0', '.', '0']
  else if 0 < k && k ≤ 16 then withPoint ds k.toNat
  else if -5 < k && k ≤ 0 then belowOne ds (-k).toNat
  else leading ds ++ exponentChars (k - 1)

/-- A sign for the negative numbers, minus zero among them. -/
def signChars (bits : UInt64) : List Char := if isNegative bits then ['-'] else []

/-- How the number with these bits is written. -/
def compact (bits : UInt64) : String :=
  String.ofList (signChars bits ++ compactChars (shortest bits))

end Decimal
end TypeFootprint
