/-!
# Paths

A path is a text of segments between slashes.  An empty segment and a dot say nothing about where
the path leads, a dot in front excepted; the other segments are the components of the path.

* `FilePath.extension?` is what stands behind the last dot of the last component.
* `FilePath.join` puts a name behind a path, `FilePath.upward` goes up from it.
* `FilePath.le` orders paths component by component.
-/

set_option autoImplicit false

namespace TypeFootprint
namespace FilePath

/-- The parts of a text between slashes. -/
def splitSlash : List Char → List (List Char)
  | [] => [[]]
  | c :: cs =>
    if c = '/' then [] :: splitSlash cs
    else match splitSlash cs with
      | [] => [[c]]
      | s :: ss => (c :: s) :: ss

/-- The segments of a path. -/
def segments (path : String) : List String := (splitSlash path.toList).map String.ofList

/-- Whether a path starts at the top of the file system. -/
def isAbsolute (path : String) : Bool := path.toList.head? == some '/'

/-- Whether a segment leads nowhere else. -/
def isIdle (segment : String) : Bool := segment == "" || segment == "."

/-- A step of a path. -/
inductive Component where
  | top
  | here
  | up
  | name (text : String)
deriving DecidableEq

/-- The component that a segment is, the first one apart. -/
def component? (segment : String) : Option Component :=
  if isIdle segment then none
  else if segment = ".." then some .up
  else some (.name segment)

/-- The components of a path.  A dot counts only in front. -/
def components (path : String) : List Component :=
  match segments path with
  | [] => []
  | first :: rest =>
    let front : List Component :=
      if isAbsolute path then [.top]
      else if first = "." then [.here]
      else (component? first).toList
    front ++ rest.filterMap component?

/-- The last component, if it is a name. -/
def fileName? (path : String) : Option String :=
  match (components path).getLast? with
  | some (.name n) => some n
  | _ => none

/-- What stands behind the last dot of a name; a name has no extension if its only dot comes
first. -/
def extensionOfName? (name : String) : Option String :=
  let reversed := name.toList.reverse
  let stem := (reversed.dropWhile fun c ↦ c != '.').drop 1
  if stem.isEmpty then none
  else some (String.ofList (reversed.takeWhile fun c ↦ c != '.').reverse)

/-- The extension of the file that a path names. -/
def extension? (path : String) : Option String := (fileName? path).bind extensionOfName?

/-- A name behind a path. -/
def join (path name : String) : String :=
  if path.isEmpty || isAbsolute name then name
  else if path.toList.getLast? == some '/' then path ++ name
  else path ++ "/" ++ name

/-- Segments without the idle ones at the end. -/
def dropIdle (segments : List String) : List String :=
  (segments.reverse.dropWhile isIdle).reverse

/-- Segments without the idle ones at the end; a dot in front stays. -/
def dropIdleEnd : List String → List String
  | [] => []
  | first :: rest =>
    if first = "" && (dropIdle rest).isEmpty then [] else first :: dropIdle rest

/-- The segments before the last component; `none` if there is no component. -/
def parentSegments? (segments : List String) : Option (List String) :=
  match dropIdleEnd segments with
  | [] => none
  | s :: ss => some (dropIdleEnd (s :: ss).dropLast)

theorem length_dropIdle_le (segments : List String) :
    (dropIdle segments).length ≤ segments.length := by
  simpa [dropIdle] using (List.dropWhile_suffix isIdle (l := segments.reverse)).length_le

theorem length_dropIdleEnd_le (segments : List String) :
    (dropIdleEnd segments).length ≤ segments.length := by
  cases segments with
  | nil => simp [dropIdleEnd]
  | cons first rest =>
    have h := length_dropIdle_le rest
    simp only [dropIdleEnd]
    split <;> simp [h]

theorem length_lt_of_parentSegments? {segments parent : List String}
    (h : parentSegments? segments = some parent) : parent.length < segments.length := by
  unfold parentSegments? at h
  split at h
  · cases h
  · rename_i s ss heq
    have kept := length_dropIdleEnd_le segments
    have dropped := length_dropIdleEnd_le (s :: ss).dropLast
    rw [heq] at kept
    cases h
    simp only [List.length_cons, List.length_dropLast] at kept dropped ⊢
    omega

/-- The path along some segments; without any it is the top or the place where it starts. -/
def ofSegments (absolute : Bool) (segments : List String) : String :=
  if segments.isEmpty then (if absolute then "/" else "") else "/".intercalate segments

/-- The paths above some segments, the nearest one first. -/
def pathsAbove (absolute : Bool) (segments : List String) : List String :=
  match _h : parentSegments? segments with
  | none => []
  | some parent => ofSegments absolute parent :: pathsAbove absolute parent
termination_by segments.length
decreasing_by exact length_lt_of_parentSegments? _h

/-- A path, and the paths that are left when its components are taken off from behind, one after
the other. -/
def upward (path : String) : List String :=
  path :: pathsAbove (isAbsolute path) (segments path)

/-- The place of a component in the order: the top, then a dot, then two dots, then names. -/
def Component.rank : Component → Nat
  | top => 0
  | here => 1
  | up => 2
  | name _ => 3

/-- Whether a component comes before another one. -/
def Component.lt (a b : Component) : Bool :=
  match a, b with
  | name m, name n => decide (m < n)
  | a, b => decide (a.rank < b.rank)

/-- Whether components come before others in the order of paths, or are the same. -/
def componentsLe : List Component → List Component → Bool
  | [], _ => true
  | _ :: _, [] => false
  | a :: as, b :: bs => if a = b then componentsLe as bs else a.lt b

/-- Whether a path comes before another one, or leads along the same components. -/
def le (p q : String) : Bool := componentsLe (components p) (components q)

end FilePath
end TypeFootprint
