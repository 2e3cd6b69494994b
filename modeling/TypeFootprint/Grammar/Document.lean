import TypeFootprint.Document
import TypeFootprint.Grammar.TypeSystem
import TypeFootprint.Token.Scan

/-!
# The grammar of documents

A text is scanned and then read as one definition or more.  `Document.parse?` is the way from a
text to its definitions; there is no partial result, a fault anywhere refuses the whole text.
-/

set_option autoImplicit false

namespace TypeFootprint
namespace Parser

/-- A type condition behind the keyword `on`. -/
def typeCondition : Parser Name := do
  keyword "on"
  name

/-- What follows the three dots of a fragment: the name of a spread, or an inline fragment. -/
def fragmentSelection (depth : Nat) (selections : Parser (List Selection)) :
    Parser Selection := do
  noComma
  match ← peek with
  | some (.name n) =>
    if n.text = "on" then
      let condition ← typeCondition
      let ds ← directives false depth
      let sels ← selections
      return .inline (some condition) ds sels
    else
      let n ← name
      let ds ← directives false depth
      return .spread n ds
  | _ =>
    let ds ← directives false depth
    let sels ← selections
    return .inline none ds sels

/-- The name of a field behind another name; no comma may come before the colon. -/
def aliasedName : Parser (Option Name) := do
  if ← commaNext then return none
  if ← takeMark .colon then return some (← name) else return none

/-- A field, with a selection set behind it if there is one. -/
def fieldSelection (depth : Nat) (selections : Parser (List Selection)) : Parser Selection := do
  let first ← name
  let second ← aliasedName
  let args ← arguments false depth
  let ds ← directives false depth
  let sels ← (do
    if (← peek) = some (.punctuator .braceOpen) then selections else return [])
  match second with
  | some n => return .field (some first) n args ds sels
  | none => return .field none first args ds sels

/-- An item of a selection set; `selections` reads the selection sets inside it. -/
def selection (depth : Nat) (selections : Parser (List Selection)) : Parser Selection := do
  if ← takeMark .spread then fragmentSelection depth selections
  else fieldSelection depth selections

/-- A selection set, nested at most `depth` deep. -/
def selectionsUpTo : (depth : Nat) → Parser (List Selection)
  | 0 => failure
  | depth + 1 => do
    mark .braceOpen
    someTill .braceClose (selection depth (selectionsUpTo depth))

/-- A selection set. -/
def selectionSet : Parser (List Selection) := selectionsUpTo maxDepth

/-- The declaration of a variable. -/
def variableDefinition : Parser VariableDefinition := do
  mark .dollar
  let n ← name
  mark .colon
  let type ← typeRef
  let default? ← defaultValue
  let ds ← outerDirectives true
  return ⟨n, type, default?, ds⟩

/-- An operation behind its keyword. -/
def operation (kind : OperationKind) : Parser Operation := do
  let n ← (do
    match ← peek with
    | some (.name _) => return some (← name)
    | _ => return none)
  let vars ← optionalGroup .parenOpen .parenClose variableDefinition
  let ds ← outerDirectives false
  let sels ← selectionSet
  return ⟨kind, n, vars, ds, sels⟩

/-- A fragment definition behind its keyword. -/
def fragmentDefinition : Parser Fragment := do
  let n ← name
  if n.text = "on" then failure
  else
    let condition ← typeCondition
    let ds ← outerDirectives false
    let sels ← selectionSet
    return ⟨n, condition, ds, sels⟩

/-- A definition that a name starts. -/
def namedDefinition (start : Name) : Parser Definition := do
  match operationKind? start.text with
  | some kind => return .operation (← operation kind)
  | none =>
    if start.text = "fragment" then return .fragment (← fragmentDefinition)
    else if start.text = "extend" then
      noComma
      return .typeSystem (← extension)
    else return .typeSystem (← typeSystemDefinition none start)

/-- A definition of any sort. -/
def definition : Parser Definition := do
  match ← peek with
  | some (.punctuator .braceOpen) =>
    let sels ← selectionSet
    return .operation ⟨.query, none, [], [], sels⟩
  | some (.string description) =>
    let _ ← next
    noComma
    let start ← name
    return .typeSystem (← typeSystemDefinition (some description) start)
  | _ =>
    let start ← name
    namedDefinition start

end Parser

/-- Reads a text as a document. -/
def Document.parse? (text : String) : Option Document := do
  let tokens ← Token.scan text.toList
  Parser.someToEnd Parser.definition tokens

end TypeFootprint
