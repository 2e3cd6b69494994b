import TypeFootprint.Grammar.Parser
import TypeFootprint.TypeSystem

/-!
# The grammar of values, directives and type references

A value is *constant* where no variables are in scope: in the default values of variables and
everywhere in the type system.

Selection sets, lists and objects, and the brackets of a type may be nested up to `maxDepth` levels
deep.  A value counts the selection sets around it, so the parsers of values take the number of
levels that are left.
-/

set_option autoImplicit false

namespace TypeFootprint

/-- How deep the brackets and braces of a text may be nested. -/
def maxDepth : Nat := 500

namespace Parser

/-- The value that a name stands for. -/
def namedValue (n : Name) : Value :=
  if n.text = "true" then .boolean true
  else if n.text = "false" then .boolean false
  else if n.text = "null" then .null
  else .enum n

/-- A field of an object literal. -/
def valueField (item : Parser Value) : Parser (Name × Value) := do
  let n ← name
  mark .colon
  let v ← item
  return (n, v)

/-- A value with brackets nested at most `depth - 1` deep. -/
def valueUpTo (constant : Bool) : (depth : Nat) → Parser Value
  | 0 => failure
  | depth + 1 => do
    match ← next with
    | .int text => return .int text
    | .float text => return .float text
    | .string text => return .string text
    | .name n => return namedValue n
    | .punctuator .dollar => if constant then failure else return .var (← name)
    | .punctuator .bracketOpen =>
      return .list (← itemsTill .bracketClose (valueUpTo constant depth))
    | .punctuator .braceOpen =>
      return .object (← itemsTill .braceClose (valueField (valueUpTo constant depth)))
    | _ => failure

/-- A value where so many levels are left. -/
def value (constant : Bool) (depth : Nat) : Parser Value := valueUpTo constant (depth + 1)

/-- An argument. -/
def argument (constant : Bool) (depth : Nat) : Parser Argument := do
  let n ← name
  mark .colon
  let v ← value constant depth
  return ⟨n, v⟩

/-- Arguments in parentheses, or none at all. -/
def arguments (constant : Bool) (depth : Nat) : Parser (List Argument) :=
  optionalGroup .parenOpen .parenClose (argument constant depth)

/-- The application of a directive. -/
def directive (constant : Bool) (depth : Nat) : Parser Directive := do
  mark .atSign
  let n ← name
  let args ← arguments constant depth
  return ⟨n, args⟩

/-- Directives, or none at all. -/
def directives (constant : Bool) (depth : Nat) : Parser (List Directive) :=
  whileStarts .atSign (directive constant depth)

/-- The directives of a definition outside of selection sets. -/
def outerDirectives (constant : Bool) : Parser (List Directive) := directives constant maxDepth

/-- A default value, if there is one. -/
def defaultValue : Parser (Option Value) := do
  if ← takeMark .equals then return some (← value true maxDepth) else return none

/-- A type reference with brackets nested at most so many levels deep. -/
def typeRefUpTo : (depth : Nat) → Parser TypeRef
  | 0 => do
    let n ← name
    return .named n (← takeMark .bang)
  | depth + 1 => do
    if ← takeMark .bracketOpen then
      let item ← typeRefUpTo depth
      mark .bracketClose
      return .list item (← takeMark .bang)
    else
      let n ← name
      return .named n (← takeMark .bang)

/-- A type reference. -/
def typeRef : Parser TypeRef := typeRefUpTo maxDepth

end Parser
end TypeFootprint
