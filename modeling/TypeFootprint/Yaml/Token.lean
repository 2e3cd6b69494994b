/-!
# The tokens of YAML

Scalars, the marks of collections, the names and tags that nodes may have, and the marks and
directives around a document.

A collection in flow style stands in brackets or braces.  One in block style is indented; tokens of
its own mark where it starts and ends, and each key is marked by a token in front of it.
-/

set_option autoImplicit false

namespace TypeFootprint.Yaml

/-- A tag as it is written: a handle that may stand for a longer text, and a text behind it. -/
structure Tag where
  handle : String
  suffix : String
deriving DecidableEq

/-- What a document may be told beforehand: the version of YAML, or what a handle stands for.
Nothing else has a meaning. -/
inductive Directive where
  | version
  | handle (handle : String) (meaning : String)
  | other
deriving DecidableEq

/-- What a token is. -/
inductive Token where
  | sequenceStart
  | mappingStart
  | collectionEnd
  | entry
  | key
  | value
  | bracketOpen
  | bracketClose
  | braceOpen
  | braceClose
  | comma
  | directive (d : Directive)
  | documentStart
  | documentEnd
  | textEnd
  | anchor (name : String)
  | aliasTo (name : String)
  | tag (t : Tag)
  | plain (text : String)
  | quoted (text : String)
  | block (text : String)
deriving DecidableEq

end TypeFootprint.Yaml
