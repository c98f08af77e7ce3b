/-
Names that a script can write without quotes.
-/

namespace TypeCatalog

namespace Identifier

/-- Whether a character may stand at the head of a name. -/
def startsName (c : Char) : Bool :=
  c.isAlpha || c == '_' || c == '$' || decide (0xA0 ≤ c.toNat)

/-- Whether a character may stand inside a name, behind the first one. -/
def continuesName (c : Char) : Bool := startsName c || c.isDigit

/-- A name in which every character that may not stand where it does is an underscore. -/
def sanitize (name : String) : String :=
  match name.toList with
  | [] => ""
  | c :: rest =>
    String.ofList ((if startsName c then c else '_')
      :: rest.map fun c => if continuesName c then c else '_')

/-- Whether a name can be written as it is. -/
def isPlain (name : String) : Bool := name != "" && sanitize name == name

end Identifier

end TypeCatalog
