import TypeFootprint.Json
import TypeFootprint.Json.Fault

/-!
# Reading JSON numbers

A number without fraction and exponent that fits into 64 bits is an integer.  Every other number is
a binary floating point number: the leading digits that fit into an unsigned integer of 64 bits are
converted, and the result is multiplied or divided by a power of ten.  Digits beyond those only move
the point.  Minus zero is a floating point number, and a number that is too large is refused.
-/

set_option autoImplicit false

namespace TypeFootprint

/-- The parts of a number literal: its sign, the digits before and after the point, and the digits
of its exponent with their sign. -/
structure NumberLiteral where
  negative : Bool
  whole : List Char
  fraction : List Char
  exponent : Option (Bool × List Char)

namespace NumberLiteral

/-- The digits at the start of a text, and the rest; there must be one at least. -/
def digits (cs : List Char) : Except JsonFault (List Char × List Char) :=
  match cs.takeWhile Char.isDigit with
  | [] => .error (if cs.isEmpty then .truncated else .malformed)
  | ds => .ok (ds, cs.dropWhile Char.isDigit)

/-- The digits before the point: a zero stands alone. -/
def readWhole : List Char → Except JsonFault (List Char × List Char)
  | '0' :: c :: cs => if c.isDigit then .error .malformed else .ok (['0'], c :: cs)
  | cs => digits cs

/-- The digits behind the point, if there is one. -/
def readFraction : List Char → Except JsonFault (List Char × List Char)
  | '.' :: cs => digits cs
  | cs => .ok ([], cs)

/-- The sign and the digits of an exponent behind its letter. -/
def readSigned : List Char → Except JsonFault ((Bool × List Char) × List Char)
  | '+' :: cs => do
    let (ds, rest) ← digits cs
    .ok ((false, ds), rest)
  | '-' :: cs => do
    let (ds, rest) ← digits cs
    .ok ((true, ds), rest)
  | cs => do
    let (ds, rest) ← digits cs
    .ok ((false, ds), rest)

/-- The exponent, if there is one. -/
def readExponent : List Char → Except JsonFault (Option (Bool × List Char) × List Char)
  | [] => .ok (none, [])
  | c :: cs =>
    if c = 'e' || c = 'E' then do
      let (signed, rest) ← readSigned cs
      .ok (some signed, rest)
    else .ok (none, c :: cs)

/-- Takes the sign off a text. -/
def readSign : List Char → Bool × List Char
  | '-' :: cs => (true, cs)
  | cs => (false, cs)

/-- The literal at the start of a text, and the rest. -/
def read (cs : List Char) : Except JsonFault (NumberLiteral × List Char) := do
  let (negative, cs) := readSign cs
  let (whole, cs) ← readWhole cs
  let (fraction, cs) ← readFraction cs
  let (exponent, cs) ← readExponent cs
  .ok (⟨negative, whole, fraction, exponent⟩, cs)

/-- The value of a digit. -/
def digitValue (c : Char) : Nat := c.toNat - '0'.toNat

/-- The digits that fit into 64 bits, as a number, and those that do not. -/
def takeDigits (n : Nat) : List Char → Nat × List Char
  | [] => (n, [])
  | c :: cs =>
    let m := n * 10 + digitValue c
    if m < Nat.pow 2 64 then takeDigits m cs else (n, c :: cs)

/-- The number that digits write, as far as it matters: a larger one counts as `2 ^ 31`. -/
def exponentSize (ds : List Char) : Nat :=
  ds.foldl (fun n c ↦ min (n * 10 + digitValue c) (Nat.pow 2 31)) 0

/-- `10 ^ n`, for `n` up to 308. -/
def powerOfTen (n : Nat) : Float := Float.ofScientific 1 false n

/-- Divides by `10 ^ n`, in steps if need be. -/
def divideByPower (f : Float) (n : Nat) : Float :=
  if n ≤ 308 then f / powerOfTen n
  else if f == 0 then f
  else divideByPower (f / powerOfTen 308) (n - 308)
termination_by n

/-- `significand · 10 ^ exponent`, unless it is too large. -/
def scale? (significand : Nat) (exponent : Int) : Option Float :=
  let f := significand.toUInt64.toFloat
  if exponent < 0 then some (divideByPower f (-exponent).toNat)
  else if exponent ≤ 308 then
    let g := f * powerOfTen exponent.toNat
    if g.isInf then none else some g
  else if significand = 0 then some f else none

/-- A floating point number with a sign. -/
def signed (negative : Bool) (f : Float) : JsonNumber :=
  .float (if negative then -f else f).toBits

/-- The floating point number of a literal, unless it is too large. -/
def float? (l : NumberLiteral) : Option JsonNumber :=
  let (significand, unread) := takeDigits 0 l.whole
  let (significand, dropped) := takeDigits significand l.fraction
  let exponent : Int := (unread.length : Int) - ((l.fraction.length : Int) - dropped.length)
  match l.exponent with
  | none => (scale? significand exponent).map (signed l.negative)
  | some (down, ds) =>
    let size := exponentSize ds
    if Nat.pow 2 31 ≤ size then
      if significand ≠ 0 && !down then none else some (signed l.negative 0)
    else
      (scale? significand (if down then exponent - size else exponent + size)).map
        (signed l.negative)

/-- The number that a literal stands for, unless it is too large. -/
def value? (l : NumberLiteral) : Option JsonNumber :=
  match l.fraction, l.exponent, takeDigits 0 l.whole with
  | [], none, (n, []) =>
    if !l.negative then some (.integer n)
    else if n = 0 || Nat.pow 2 63 < n then some (signed true n.toUInt64.toFloat)
    else some (.integer (-n))
  | _, _, _ => l.float?

end NumberLiteral

/-- Reads the number at the start of a text. -/
def JsonNumber.read (cs : List Char) : Except JsonFault (JsonNumber × List Char) := do
  let (literal, rest) ← NumberLiteral.read cs
  match literal.value? with
  | some n => .ok (n, rest)
  | none => .error .malformed

end TypeFootprint
