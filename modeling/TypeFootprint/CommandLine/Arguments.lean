/-!
# Arguments

A command line is a list of words.  Words that start with a dash are options, up to the word `--`;
the other words are the schema and then the documents.

* A flag says yes and may be given once.
* A value option takes the rest of its own word, behind an equals sign if there is one, or the whole
  next word.
* A word of one dash and several letters is several options; the first one among them that takes a
  value takes the letters behind it.

`Arguments.parse` reads the words from left to right.  A value is checked when the next argument
begins or the words end, so an option that nobody knows, or one word too many, is reported even if
the value before it is bad.  Asking for help or for the version ends the reading.
-/

set_option autoImplicit false

namespace TypeFootprint

/-- What a command line says. -/
structure Arguments where
  schema : Option String
  documents : Option String
  sorted : Bool
  config : Option String
  deny : List String
  includes : List String
  noDefaultPolicy : Bool
  verbose : Bool
  color : Bool
  noColor : Bool
deriving DecidableEq

/-- Why the reading of a command line ends without arguments: it asks for help or for the version,
or something is wrong with it. -/
inductive ArgumentStop where
  | help
  | version
  | unknownArgument
  | invalidValue
  | tooManyValues
  | argumentConflict
deriving DecidableEq

/-- Whether something is wrong with the command line. -/
def ArgumentStop.isError : ArgumentStop → Bool
  | help => false
  | version => false
  | _ => true

namespace Arguments

/-- A command line without words. -/
def empty : Arguments := ⟨none, none, false, none, [], [], false, false, false, false⟩

/-- An option without a value. -/
inductive Flag where
  | sorted
  | noDefaultPolicy
  | verbose
  | color
  | noColor
  | help
  | version
deriving DecidableEq

/-- An option with a value. -/
inductive ValueOption where
  | config
  | deny
  | includes
deriving DecidableEq

/-- An option. -/
inductive Switch where
  | flag (flag : Flag)
  | value (option : ValueOption)
deriving DecidableEq

/-- The option of a long name. -/
def Switch.ofName? : String → Option Switch
  | "sorted" => some (.flag .sorted)
  | "no-default-policy" => some (.flag .noDefaultPolicy)
  | "verbose" => some (.flag .verbose)
  | "color" => some (.flag .color)
  | "no-color" => some (.flag .noColor)
  | "help" => some (.flag .help)
  | "version" => some (.flag .version)
  | "config" => some (.value .config)
  | "deny" => some (.value .deny)
  | "include" => some (.value .includes)
  | _ => none

/-- The option of a letter. -/
def Switch.ofLetter? : Char → Option Switch
  | 'v' => some (.flag .verbose)
  | 'h' => some (.flag .help)
  | 'V' => some (.flag .version)
  | 'c' => some (.value .config)
  | _ => none

/-! ## Giving arguments -/

/-- Gives a path; the empty text is none. -/
def path (text : String) : Except ArgumentStop (Option String) :=
  if text.isEmpty then .error .invalidValue else .ok (some text)

/-- Gives a flag that was not given before. -/
def once (given : Bool) : Except ArgumentStop Bool :=
  if given then .error .argumentConflict else .ok true

/-- Gives a flag. -/
def giveFlag (a : Arguments) : Flag → Except ArgumentStop Arguments
  | .sorted => do return { a with sorted := ← once a.sorted }
  | .noDefaultPolicy => do return { a with noDefaultPolicy := ← once a.noDefaultPolicy }
  | .verbose => do return { a with verbose := ← once a.verbose }
  | .color => do return { a with color := ← once a.color }
  | .noColor => do return { a with noColor := ← once a.noColor }
  | .help => .error .help
  | .version => .error .version

/-- Gives an option its value. -/
def giveValue (a : Arguments) (value : String) : ValueOption → Except ArgumentStop Arguments
  | .config =>
    if a.config.isSome then .error .argumentConflict
    else do return { a with config := ← path value }
  | .deny => .ok { a with deny := a.deny ++ [value] }
  | .includes => .ok { a with includes := a.includes ++ [value] }

/-! ## Reading words -/

/-- The last argument as long as nothing is known about the next one. -/
inductive Pending where
  | none
  | option (option : ValueOption) (value : Option String)
  | schema (path : String)
  | documents (pattern : String)
deriving DecidableEq

/-- What has been read: the arguments up to the last one, the last one, and whether options have
come to an end. -/
structure State where
  arguments : Arguments
  pending : Pending
  ended : Bool
deriving DecidableEq

namespace State

/-- Nothing has been read. -/
def start : State := ⟨.empty, .none, false⟩

/-- The arguments together with the last one. -/
def settle (s : State) : Except ArgumentStop Arguments :=
  match s.pending with
  | .none => .ok s.arguments
  | .option _ none => .error .invalidValue
  | .option o (some value) => s.arguments.giveValue value o
  | .schema text => do return { s.arguments with schema := ← path text }
  | .documents pattern => .ok { s.arguments with documents := some pattern }

/-- Gives a flag behind the last argument. -/
def flag (s : State) (f : Flag) : Except ArgumentStop State := do
  let before ← s.settle
  let arguments ← before.giveFlag f
  return { s with arguments, pending := .none }

/-- Gives an option with a value of its own word behind the last argument. -/
def attach (s : State) (o : ValueOption) (value : String) : Except ArgumentStop State := do
  let before ← s.settle
  let arguments ← before.giveValue value o
  return { s with arguments, pending := .none }

/-- Gives an option whose value is the next word behind the last argument. -/
def await (s : State) (o : ValueOption) : Except ArgumentStop State := do
  let arguments ← s.settle
  return { s with arguments, pending := .option o none }

/-- The place that the next word without a dash takes, if one is left. -/
def place? (s : State) (word : String) : Option Pending :=
  match s.pending with
  | .documents _ => none
  | .schema _ => some (.documents word)
  | _ =>
    if s.arguments.documents.isSome then none
    else if s.arguments.schema.isSome then some (.documents word)
    else some (.schema word)

/-- Reads a word as the schema or the documents. -/
def positional (s : State) (word : String) : Except ArgumentStop State :=
  match s.place? word with
  | none => .error .unknownArgument
  | some pending => do
    let arguments ← s.settle
    return { s with arguments, pending }

/-- Reads a word without a dash, which is the value of an option that waits for one. -/
def plain (s : State) (word : String) : Except ArgumentStop State :=
  match s.pending with
  | .option o none => .ok { s with pending := .option o (some word) }
  | _ => s.positional word

/-- Reads a word of two dashes and a name, and perhaps an equals sign and a value. -/
def long (s : State) (name : String) (value : Option String) : Except ArgumentStop State :=
  match Switch.ofName? name, value with
  | none, _ => .error .unknownArgument
  | some (.flag f), none => s.flag f
  | some (.flag _), some _ => .error .tooManyValues
  | some (.value o), none => s.await o
  | some (.value o), some v => s.attach o v

/-- Reads the letters behind one dash. -/
def letters (s : State) : List Char → Except ArgumentStop State
  | [] => .ok s
  | c :: cs =>
    match Switch.ofLetter? c with
    | none => .error .unknownArgument
    | some (.flag f) => do
      let t ← s.flag f
      t.letters cs
    | some (.value o) =>
      match cs with
      | [] => s.await o
      | '=' :: value => s.attach o (String.ofList value)
      | value => s.attach o (String.ofList value)

end State

/-- The name in front of the first equals sign, and what is behind it. -/
def splitName (cs : List Char) : String × Option String :=
  (String.ofList (cs.takeWhile fun c ↦ c != '='),
    match cs.dropWhile fun c ↦ c != '=' with
    | [] => none
    | _ :: value => some (String.ofList value))

/-- Reads a word. -/
def State.word (s : State) (word : String) : Except ArgumentStop State :=
  if s.ended then s.positional word
  else match word.toList with
    | ['-', '-'] => .ok { s with ended := true }
    | '-' :: '-' :: cs => s.long (splitName cs).1 (splitName cs).2
    | '-' :: c :: cs => s.letters (c :: cs)
    | _ => s.plain word

/-- The arguments, unless two of them exclude each other. -/
def check (a : Arguments) : Except ArgumentStop Arguments :=
  if a.color && a.noColor then .error .argumentConflict else .ok a

/-- Reads a command line. -/
def parse (words : List String) : Except ArgumentStop Arguments := do
  let s ← words.foldlM State.word State.start
  check (← s.settle)

end Arguments
end TypeFootprint
