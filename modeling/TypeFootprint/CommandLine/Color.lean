/-!
# Colour

Whether a message is coloured: the command line decides, then the environment, in the order
`NO_COLOR`, `CLICOLOR_FORCE`, `CLICOLOR`, and if none of them says anything, whether the output is a
terminal.
-/

set_option autoImplicit false

namespace TypeFootprint

/-- The values of environment variables. -/
abbrev Environment := String → Option String

/-- What the command line and the environment say about colour, if they say anything.  `CLICOLOR`
can only turn colour off; and a `CLICOLOR_FORCE` that does not force anything keeps it from being
asked. -/
def colorOverride (color noColor : Bool) (environment : Environment) : Option Bool :=
  if color then some true
  else if noColor || (environment "NO_COLOR").isSome then some false
  else match environment "CLICOLOR_FORCE" with
    | some force => if force = "" || force = "0" then none else some true
    | none => if environment "CLICOLOR" = some "0" then some false else none

/-- The word in front of an error message, bold and red if it is coloured. -/
def errorLabel (colored : Bool) : String :=
  if colored then "\x1b[1;31merror:\x1b[0m" else "error:"

end TypeFootprint
