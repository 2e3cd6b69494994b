import TypeFootprint.Introspection.Result
import TypeFootprint.Text.Block
import TypeFootprint.Text.Quoted

/-!
# Writing an introspected schema in the schema definition language

`Result.sdl` writes the directives and the types that are not built in, in the order of the result,
with a blank line between each two.  A schema definition comes before them if a root type has
another name than the one that it would have without a definition.

A description is a quoted string, or a block string if it has more than one line.  A deprecation is
written as a directive.  Default values are copied as they are.
-/

set_option autoImplicit false

namespace TypeFootprint.Introspection

/-- A newline between each two parts. -/
def joinWith (separator : List Char) : List (List Char) → List Char
  | [] => []
  | [part] => part
  | part :: next :: rest => part ++ separator ++ joinWith separator (next :: rest)

/-- A quoted string. -/
def quoted (text : String) : List Char := '"' :: (Quoted.encode text.toList ++ ['"'])

/-- Three quotes. -/
def tripleQuote : List Char := ['"', '"', '"']

/-- A description on lines of its own, or nothing. -/
def descriptionChars (indent : List Char) : Option String → List Char
  | none => []
  | some text =>
    if text.toList.contains '\n' then
      indent ++ tripleQuote ++ '\n' :: (Block.encode text.toList ++ '\n' ::
        (indent ++ tripleQuote ++ ['\n']))
    else indent ++ quoted text ++ ['\n']

/-- The directive of something deprecated, or nothing. -/
def deprecationChars (deprecated : Bool) (reason : Option String) : List Char :=
  if deprecated then
    match reason with
    | some reason => " @deprecated(reason: ".toList ++ quoted reason ++ [')']
    | none => " @deprecated".toList
  else []

/-- An argument or a field of an input object, without its description. -/
def inputChars (v : InputEntry) : List Char :=
  v.name.toList ++ ": ".toList ++ v.type.render.toList ++
    match v.defaultValue with
    | some value => " = ".toList ++ value.toList
    | none => []

/-- Arguments in parentheses, or nothing. -/
def argumentChars (arguments : List InputEntry) : List Char :=
  if arguments.isEmpty then []
  else '(' :: (joinWith [',', ' '] (arguments.map inputChars) ++ [')'])

/-- The indentation of the items of a type. -/
def itemIndent : List Char := [' ', ' ']

/-- A field. -/
def fieldChars (f : FieldEntry) : List Char :=
  descriptionChars itemIndent f.description ++ itemIndent ++ f.name.toList ++
    argumentChars f.arguments ++ ": ".toList ++ f.type.render.toList ++
    deprecationChars f.isDeprecated f.deprecationReason

/-- A value of an enum type. -/
def enumValueChars (v : EnumEntry) : List Char :=
  descriptionChars itemIndent v.description ++ itemIndent ++ v.name.toList ++
    deprecationChars v.isDeprecated v.deprecationReason

/-- A field of an input object. -/
def inputFieldChars (v : InputEntry) : List Char :=
  descriptionChars itemIndent v.description ++ itemIndent ++ inputChars v

/-- Items in braces, one to a line, or nothing. -/
def bodyChars (items : List (List Char)) : List Char :=
  if items.isEmpty then []
  else [' ', '{', '\n'] ++ items.flatMap (fun item ↦ item ++ ['\n']) ++ ['}']

/-- Names behind a first mark and with another mark between each two, or nothing. -/
def nameListChars (first between : String) (names : List String) : List Char :=
  if names.isEmpty then []
  else first.toList ++ joinWith between.toList (names.map String.toList)

/-- The keyword that introduces a type. -/
def EntryBody.keyword : EntryBody → String
  | scalar => "scalar "
  | object _ _ => "type "
  | interface _ _ => "interface "
  | union _ => "union "
  | enum _ => "enum "
  | inputObject _ => "input "

/-- What follows the name of a type. -/
def EntryBody.chars : EntryBody → List Char
  | scalar => []
  | object fields interfaces =>
    nameListChars " implements " " & " interfaces ++ bodyChars (fields.map fieldChars)
  | interface fields interfaces =>
    nameListChars " implements " " & " interfaces ++ bodyChars (fields.map fieldChars)
  | union possibleTypes => nameListChars " = " " | " possibleTypes
  | enum values => bodyChars (values.map enumValueChars)
  | inputObject fields => bodyChars (fields.map inputFieldChars)

/-- A type. -/
def TypeEntry.chars (t : TypeEntry) : List Char :=
  descriptionChars [] t.description ++ t.body.keyword.toList ++ t.name.toList ++ t.body.chars

/-- A directive. -/
def DirectiveEntry.chars (d : DirectiveEntry) : List Char :=
  descriptionChars [] d.description ++ "directive @".toList ++ d.name.toList ++
    argumentChars d.arguments ++ (if d.isRepeatable then " repeatable".toList else []) ++
    " on ".toList ++ joinWith [' ', '|', ' '] (d.locations.map String.toList)

/-- The directives that need no definition. -/
def builtInDirectives : List String := ["skip", "include", "deprecated", "specifiedBy", "oneOf"]

/-- Whether a directive needs no definition. -/
def DirectiveEntry.isBuiltIn (d : DirectiveEntry) : Bool := builtInDirectives.contains d.name

/-- The kinds of operation, with the root type of each and the name it would have without a schema
definition. -/
def Result.roots (r : Result) : List (String × Option String × String) :=
  [("query", r.queryType, "Query"), ("mutation", r.mutationType, "Mutation"),
    ("subscription", r.subscriptionType, "Subscription")]

/-- Whether some root type has another name than it would have without a schema definition. -/
def Result.hasRenamedRoot (r : Result) : Bool :=
  r.roots.any fun (_, root, usual) ↦ root.any fun name ↦ name != usual

/-- The line of a root type in a schema definition. -/
def rootLine : String × Option String × String → List Char
  | (operation, some name, _) =>
    itemIndent ++ operation.toList ++ ": ".toList ++ name.toList ++ ['\n']
  | (_, none, _) => []

/-- The schema definition. -/
def Result.schemaChars (r : Result) : List Char :=
  "schema ".toList ++ ['{', '\n'] ++ r.roots.flatMap rootLine ++ ['}']

/-- The definitions, one by one. -/
def Result.definitions (r : Result) : List (List Char) :=
  (if r.hasRenamedRoot then [r.schemaChars] else []) ++
    (r.directives.filter fun d ↦ !d.isBuiltIn).map DirectiveEntry.chars ++
    (r.types.filter fun t ↦ !t.isBuiltIn).map TypeEntry.chars

/-- The schema in the schema definition language. -/
def Result.sdl (r : Result) : String := String.ofList (joinWith ['\n', '\n'] r.definitions)

end TypeFootprint.Introspection
