/-!
# Wildcard patterns

A pattern is a text in which `?` stands for any character, `*` for any characters, `[…]` for one of
some characters and `[!…]` for one of the others.  Two stars stand for any number of folders; they
have to be a component of their own.

* `Pattern.compile` reads a pattern, or says what is wrong with it and where.
* `Pattern.isMatch` tells whether a name matches.
-/

set_option autoImplicit false

namespace TypeFootprint

/-- One character, or the characters from one to another. -/
inductive CharRange where
  | single (c : Char)
  | range (first last : Char)
deriving DecidableEq

/-- A part of a pattern. -/
inductive PatternToken where
  | char (c : Char)
  | anyChar
  | anyText
  | anyFolders
  | oneOf (ranges : List CharRange)
  | noneOf (ranges : List CharRange)
deriving DecidableEq

/-- What may be wrong with a pattern. -/
inductive PatternFault where
  | wildcards
  | recursion
  | range
deriving DecidableEq

/-- A fault of a pattern, with the number of characters before it. -/
structure PatternError where
  position : Nat
  fault : PatternFault
deriving DecidableEq

/-- A fault in words. -/
def PatternFault.message : PatternFault → String
  | wildcards => "wildcards are either regular `*` or recursive `**`"
  | recursion => "recursive wildcards must form a single path component"
  | range => "invalid range pattern"

/-- A fault with its position in words. -/
def PatternError.message (e : PatternError) : String :=
  "Pattern syntax error near position " ++ toString e.position ++ ": " ++ e.fault.message

namespace Pattern

/-- The ranges of a bracket; a hyphen between two characters makes a range of them. -/
def ranges : List Char → List CharRange
  | a :: '-' :: b :: cs => .range a b :: ranges cs
  | a :: cs => .single a :: ranges cs
  | [] => []

/-- The characters in a bracket behind the first one, and what follows the closing bracket. -/
def untilBracket : List Char → Option (List Char × List Char)
  | [] => none
  | c :: cs =>
    if c = ']' then some ([], cs)
    else (untilBracket cs).map fun (inside, rest) ↦ (c :: inside, rest)

/-- A bracket behind its opening character.  The first character in it is never its end. -/
def bracket? : List Char → Option (PatternToken × List Char)
  | '!' :: c :: cs =>
    (untilBracket cs).map fun (inside, rest) ↦ (.noneOf (ranges (c :: inside)), rest)
  | ['!'] => none
  | c :: cs => (untilBracket cs).map fun (inside, rest) ↦ (.oneOf (ranges (c :: inside)), rest)
  | [] => none

/-- How many stars a text starts with. -/
def countStars (cs : List Char) : Nat := (cs.takeWhile fun c ↦ c == '*').length

/-- Two stars at a position behind some character: they start a component and end one. -/
def folders (position : Nat) (before : Option Char) (rest : List Char) :
    Except PatternError (PatternToken × List Char) :=
  if before.any fun c ↦ c != '/' then .error ⟨position - 1, .recursion⟩
  else match rest with
    | [] => .ok (.anyFolders, [])
    | c :: cs =>
      if c = '/' then .ok (.anyFolders, cs) else .error ⟨position + 2, .recursion⟩

/-- Reads a pattern from a position on, where `before` is the character before it.  The fuel is the
number of characters left. -/
def compileFrom : (fuel : Nat) → (position : Nat) → (before : Option Char) → List Char →
    Except PatternError (List PatternToken)
  | 0, _, _, _ => .ok []
  | _, _, _, [] => .ok []
  | fuel + 1, position, before, c :: cs =>
    if c = '?' then do
      let ts ← compileFrom fuel (position + 1) (some c) cs
      .ok (.anyChar :: ts)
    else if c = '*' then
      match countStars (c :: cs) with
      | 1 => do
        let ts ← compileFrom fuel (position + 1) (some c) cs
        .ok (.anyText :: ts)
      | 2 => do
        let (t, rest) ← folders position before (cs.drop 1)
        let used := cs.length + 1 - rest.length
        let ts ← compileFrom fuel (position + used) (if used = 2 then some '*' else some '/') rest
        .ok (t :: ts)
      | _ => .error ⟨position + 2, .wildcards⟩
    else if c = '[' then
      match bracket? cs with
      | none => .error ⟨position, .range⟩
      | some (t, rest) => do
        let ts ← compileFrom fuel (position + (cs.length + 1 - rest.length)) (some ']') rest
        .ok (t :: ts)
    else do
      let ts ← compileFrom fuel (position + 1) (some c) cs
      .ok (.char c :: ts)

/-- Reads a pattern. -/
def compile (pattern : List Char) : Except PatternError (List PatternToken) :=
  compileFrom pattern.length 0 none pattern

/-- Whether a character is in a range. -/
def inRange (c : Char) : CharRange → Bool
  | .single d => c == d
  | .range first last => first ≤ c && c ≤ last

/-- Whether a character may stand where a token stands. -/
def admits : PatternToken → Char → Bool
  | .char d, c => c == d
  | .anyChar, _ => true
  | .oneOf ranges, c => ranges.any (inRange c)
  | .noneOf ranges, c => !ranges.any (inRange c)
  | .anyText, _ => false
  | .anyFolders, _ => false

/-- For each place in a list, whether something there or behind it is true. -/
def someFrom : List Bool → List Bool
  | [] => []
  | b :: bs =>
    let later := someFrom bs
    (b || later.headD false) :: later

/-- For each end of a text, the text itself first, whether it matches a pattern.  All ends are
decided together, so that many stars take no longer than a few. -/
def endMatches : List PatternToken → List Char → List Bool
  | [], cs => cs.map (fun _ ↦ false) ++ [true]
  | .anyText :: ts, cs => someFrom (endMatches ts cs)
  | .anyFolders :: ts, cs => someFrom (endMatches ts cs)
  | t :: ts, cs => List.zipWith (fun c b ↦ admits t c && b) cs (endMatches ts cs).tail ++ [false]

/-- Whether a text matches a pattern. -/
def isMatch (tokens : List PatternToken) (text : List Char) : Bool :=
  (endMatches tokens text).headD false

/-- The characters of a pattern, if it has nothing else. -/
def literal? (tokens : List PatternToken) : Option (List Char) :=
  tokens.mapM fun
    | .char c => some c
    | _ => none

end Pattern
end TypeFootprint
