import TypeFootprint.Config
import TypeFootprint.Json.Reader

/-!
# Configurations in JSON

The text is read against the shape of a configuration, from front to back, so the first fault of
whatever sort is the one that is reported.  An unknown key or one that comes a second time is
reported before its value is read.

Each record may also be written as an array of its slots in order.
-/

set_option autoImplicit false

namespace TypeFootprint
namespace Config

open JsonReader

/-- A value that is mentioned because another one was expected.  A scalar is read to its end
before it is mentioned. -/
def readFound (first : Option Char) : JsonReader Found := do
  match first with
  | none => fail .truncated
  | some 'n' => do word "null".toList; return .null
  | some 't' => do word "true".toList; return .boolean true
  | some 'f' => do word "false".toList; return .boolean false
  | some '"' => do drop; return .string (← stringRest)
  | some '[' => return .sequence
  | some '{' => return .map
  | some c =>
    if c.isDigit || c = '-' then
      match ← number with
      | .integer n => return .integer n
      | .float bits => return .float bits
    else fail .malformed

/-- Fails because something else was expected. -/
def failExpecting {α : Type} (first : Option Char) (expected : String) : JsonReader α := do
  let found ← readFound first
  failShape (.wrongType found expected)

/-- A string. -/
def readText : JsonReader String := do
  match ← peek with
  | some '"' => do drop; stringRest
  | first => failExpecting first "a string"

/-- A list of strings. -/
def readTexts : JsonReader (List String) := do
  match ← peek with
  | some '[' => do drop; items readText
  | first => failExpecting first "a sequence"

/-- A value, or `null`. -/
def readOptional {α : Type} (read : JsonReader α) : JsonReader (Option α) := do
  match ← peek with
  | some 'n' => do word "null".toList; return none
  | _ => return some (← read)

/-- The end of an array that holds a record: nothing may follow the last slot. -/
def endRecord : JsonReader Unit := do
  match ← peek with
  | some ']' => drop
  | some _ => fail .malformed
  | none => fail .truncated

/-- A slot of a record in an array; `ifCut` says what it holds where the array ends before it. -/
def readSlot {α : Type} (first : Bool) (read : JsonReader α) (ifCut : Except ShapeFault α) :
    JsonReader α := do
  if ← hasItem first then read
  else match ifCut with
    | .ok a => return a
    | .error e => failShape e

/-- `n` members at most; each is taken in by `step`, which sees the key and the state so far. -/
def membersUpTo {σ : Type} (step : String → σ → JsonReader σ) : Bool → σ → Nat → JsonReader σ
  | _, _, 0 => fail .malformed
  | first, s, n + 1 => do
    if ← hasMember first then
      let k ← key
      let s ← step k s
      membersUpTo step false s n
    else return s

/-- The members of an object behind its opening brace. -/
def readMembers {σ : Type} (step : String → σ → JsonReader σ) (start : σ) : JsonReader σ := do
  let s ← fun cs ↦ membersUpTo step true start (cs.length + 1) cs
  drop
  return s

/-- A record, as an array or as an object. -/
def readRecord {α : Type} (name : String) (fromArray fromObject : JsonReader α) :
    JsonReader α := do
  match ← peek with
  | some '[' => do drop; fromArray
  | some '{' => do drop; fromObject
  | first => failExpecting first name

/-- The value of a key that comes for the first time. -/
def readOnce {α : Type} (name : String) (before : Option α) (read : JsonReader α) :
    JsonReader (Option α) := do
  match before with
  | some _ => failShape (.duplicateField name)
  | none => do
    colon
    return some (← read)

/-- Takes in a member of a policy. -/
def policyMember (k : String) (s : Option (List String) × Option (List String)) :
    JsonReader (Option (List String) × Option (List String)) := do
  if k = "denylist" then return (← readOnce k s.1 readTexts, s.2)
  else if k = "forcedInclude" then return (s.1, ← readOnce k s.2 readTexts)
  else failShape (.unknownField k ["denylist", "forcedInclude"])

/-- A policy. -/
def readPolicy : JsonReader PolicyConfig :=
  readRecord "struct PolicyConfig"
    (do
      let denylist ← readSlot true readTexts (.ok [])
      let forced ← readSlot false readTexts (.ok [])
      endRecord
      return ⟨denylist, forced⟩)
    (do
      let (denylist, forced) ← readMembers policyMember (none, none)
      return ⟨denylist.getD [], forced.getD []⟩)

/-- Takes in a member of a choice of documents. -/
def documentsMember (k : String) (s : Option (Option (List String))) :
    JsonReader (Option (Option (List String))) := do
  if k = "extensions" then readOnce k s (readOptional readTexts)
  else failShape (.unknownField k ["extensions"])

/-- A choice of documents. -/
def readDocuments : JsonReader DocumentsConfig :=
  let name := "struct DocumentsConfig"
  readRecord name
    (do
      let extensions ← readSlot true (readOptional readTexts) (.error (.tooShort 0 name 1))
      endRecord
      return ⟨extensions⟩)
    (do
      let extensions ← readMembers documentsMember none
      return ⟨extensions.join⟩)

/-- The parts of a configuration that have been read so far. -/
abbrev ReadParts := Option (Option PolicyConfig) × Option (Option DocumentsConfig)

/-- Takes in a member of a configuration. -/
def configMember (k : String) (s : ReadParts) : JsonReader ReadParts := do
  if k = "policy" then return (← readOnce k s.1 (readOptional readPolicy), s.2)
  else if k = "documents" then return (s.1, ← readOnce k s.2 (readOptional readDocuments))
  else failShape (.unknownField k ["policy", "documents"])

/-- A configuration. -/
def readConfig : JsonReader Config :=
  let name := "struct TypesConfig"
  readRecord name
    (do
      let policy ← readSlot true (readOptional readPolicy) (.error (.tooShort 0 name 2))
      let documents ← readSlot false (readOptional readDocuments) (.error (.tooShort 1 name 2))
      endRecord
      return ⟨policy, documents⟩)
    (do
      let (policy, documents) ← readMembers configMember (none, none)
      return ⟨policy.join, documents.join⟩)

/-- Reads a whole JSON text as a configuration. -/
def parseJson (text : String) : Except JsonFault Config := do
  let (c, _) ← (do
    let c ← readConfig
    finish
    return c : JsonReader Config) text.toList
  .ok c

end Config
end TypeFootprint
