import TypeFootprint.Decimal.Shortest
import TypeFootprint.Text.Visible

/-!
# What can be wrong with a JSON text

A text may be malformed, it may end too early, or it may hold a value of another shape than the one
that was expected.  A `ShapeFault` says what was found and what was expected; `ShapeFault.message`
says it in words.
-/

set_option autoImplicit false

namespace TypeFootprint

/-- A value as it is mentioned in a message. -/
inductive Found where
  | boolean (value : Bool)
  | integer (value : Int)
  | float (bits : UInt64)
  | string (text : String)
  | null
  | sequence
  | map
deriving DecidableEq

/-- How a found value is mentioned. -/
def Found.describe : Found → String
  | boolean true => "boolean `true`"
  | boolean false => "boolean `false`"
  | integer n => "integer `" ++ toString n ++ "`"
  | float bits => "floating point `" ++ Decimal.compact bits ++ "`"
  | string text => "string " ++ Visible.quote text
  | null => "null"
  | sequence => "sequence"
  | map => "map"

/-- What is wrong with the shape of a value. -/
inductive ShapeFault where
  | wrongType (found : Found) (expected : String)
  | tooShort (length : Nat) (record : String) (size : Nat)
  | tooLong (length : Nat)
  | tooLongBy (length size : Nat)
  | missingField (key : String)
  | duplicateField (key : String)
  | unknownField (key : String) (known : List String)
  | unknownVariant (variant : String) (known : List String)
  | notSingleKey
deriving DecidableEq

/-- A number of elements. -/
def countElements (n : Nat) : String := toString n ++ if n = 1 then " element" else " elements"

/-- A key in a message. -/
def quoteKey (key : String) : String := "`" ++ key ++ "`"

/-- What may stand in a place, in words: the key, the two keys, or one of the keys. -/
def describeKnown : List String → String
  | [] => "there are none"
  | [a] => "expected " ++ quoteKey a
  | [a, b] => "expected " ++ quoteKey a ++ " or " ++ quoteKey b
  | keys => "expected one of " ++ ", ".intercalate (keys.map quoteKey)

/-- A fault in words. -/
def ShapeFault.message : ShapeFault → String
  | wrongType found expected => "invalid type: " ++ found.describe ++ ", expected " ++ expected
  | tooShort length record size =>
    "invalid length " ++ toString length ++ ", expected " ++ record ++ " with " ++
      countElements size
  | tooLong length =>
    "invalid length " ++ toString length ++ ", expected fewer elements in array"
  | tooLongBy length size =>
    "invalid length " ++ toString length ++ ", expected " ++ countElements size ++ " in sequence"
  | missingField key => "missing field " ++ quoteKey key
  | duplicateField key => "duplicate field " ++ quoteKey key
  | unknownField key known => "unknown field " ++ quoteKey key ++ ", " ++ describeKnown known
  | unknownVariant variant known =>
    "unknown variant " ++ quoteKey variant ++ ", " ++ describeKnown known
  | notSingleKey => "invalid value: map, expected map with a single key"

/-- What is wrong with a JSON text. -/
inductive JsonFault where
  | malformed
  | truncated
  | shape (fault : ShapeFault)
deriving DecidableEq

end TypeFootprint
