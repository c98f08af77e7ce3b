/-
The formats of a log.
-/

namespace TypeCatalog

/-- How a log is written. -/
inductive LogFormat where
  | text
  | tree
  | json
  deriving DecidableEq

namespace LogFormat

/-- The name of a format. -/
def name : LogFormat → String
  | text => "text"
  | tree => "tree"
  | json => "json"

/-- The format that a word names, in letters of any size; every other word names plain text. -/
def ofWord (word : String) : LogFormat :=
  let plain := String.ofList (word.toList.map Char.toLower)
  if plain = "tree" then .tree else if plain = "json" then .json else .text

end LogFormat

end TypeCatalog
