import TypeFootprint.CommandLine.Arguments
import TypeFootprint.Config.File
import TypeFootprint.Loading

/-!
# Failures and exit codes

Everything that can keep the program from its result is a `Failure`, and each sort of failure has
its own exit code, so that a script can tell them apart.
-/

set_option autoImplicit false

namespace TypeFootprint

/-- How the program ends. -/
inductive ExitCode where
  | success
  | usageError
  | configError
  | schemaError
  | ioError
  | parseError
deriving DecidableEq

/-- The number of an exit code. -/
def ExitCode.code : ExitCode → Nat
  | success => 0
  | usageError => 1
  | configError => 2
  | schemaError => 3
  | ioError => 4
  | parseError => 5

/-- An exit code in words. -/
def ExitCode.label : ExitCode → String
  | success => "success"
  | usageError => "usage error"
  | configError => "configuration error"
  | schemaError => "schema load error"
  | ioError => "I/O error"
  | parseError => "document parse error"

/-- The exit code for what could not be loaded. -/
def LoadError.exitCode : LoadError → ExitCode
  | unreadableSchema .. => .schemaError
  | invalidIntrospection .. => .schemaError
  | invalidSchema .. => .schemaError
  | invalidPattern .. => .usageError
  | unfinishedMatch .. => .ioError
  | unfinishedWalk .. => .ioError
  | unreadableDocument .. => .ioError
  | invalidDocument .. => .parseError

/-- Why there is no result. -/
inductive Failure where
  | arguments (stop : ArgumentStop)
  | missingSchema
  | missingDocuments
  | config (error : ConfigError)
  | load (error : LoadError)

/-- The exit code for a failure.  Showing help or the version is a success. -/
def Failure.exitCode : Failure → ExitCode
  | arguments stop => if stop.isError then .usageError else .success
  | missingSchema => .usageError
  | missingDocuments => .usageError
  | config _ => .configError
  | load error => error.exitCode

/-- What is wrong with a command line in words. -/
def ArgumentStop.message : ArgumentStop → String
  | help => "help was asked for"
  | version => "the version was asked for"
  | unknownArgument => "unknown argument"
  | invalidValue => "an argument has no value or an invalid one"
  | tooManyValues => "a flag takes no value"
  | argumentConflict => "an argument is repeated or excludes another one"

/-- A failure in words. -/
def Failure.message : Failure → String
  | arguments stop => stop.message
  | missingSchema => "missing required argument <SCHEMA>"
  | missingDocuments => "missing required argument <DOCUMENTS>"
  | config error => error.message
  | load error => error.message

end TypeFootprint
