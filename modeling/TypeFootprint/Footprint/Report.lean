import TypeFootprint.Json.Writer

/-!
# The report

What the program prints: one line of JSON, an object with the list of names under the key `types`.
Line breaks inside a name are escaped, so there is no other line.
-/

set_option autoImplicit false

namespace TypeFootprint

/-- The names as a JSON value. -/
def reportValue (names : List String) : Json :=
  .object [("types", .array (names.map Json.string))]

/-- The names as a line of JSON, without a line end. -/
def report (names : List String) : String := (reportValue names).compact

end TypeFootprint
