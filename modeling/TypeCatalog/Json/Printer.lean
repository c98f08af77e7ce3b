/-
The text of JSON values.

`compact` puts no blank anywhere; `pretty` puts every item and every field on a
line of its own, indented by two blanks a level, and writes an empty container
on one line.  Both write strings through `quote`, which escapes the quotation
mark, the backslash and the control characters below U+0020, and nothing else.
-/
import TypeCatalog.Json
import TypeCatalog.Binary64.Shortest

namespace TypeCatalog

namespace Json

/-- The last `count` hexadecimal digits of a number, in small letters. -/
def hexDigits : Nat → Nat → List Char
  | 0, _ => []
  | count + 1, n => hexDigits count (n / 16) ++ [Nat.digitChar (n % 16)]

/-- How a character stands inside a string. -/
def escape (c : Char) : List Char :=
  if c = '"' then ['\\', '"']
  else if c = '\\' then ['\\', '\\']
  else if c = '\n' then ['\\', 'n']
  else if c = '\r' then ['\\', 'r']
  else if c = '\t' then ['\\', 't']
  else if c.toNat = 8 then ['\\', 'b']
  else if c.toNat = 12 then ['\\', 'f']
  else if c.toNat < 32 then '\\' :: 'u' :: hexDigits 4 c.toNat
  else [c]

/-- A text as a JSON string. -/
def quote (s : String) : List Char :=
  '"' :: (s.toList.flatMap escape ++ ['"'])

/-- The digits of an integer. -/
def digits (i : Int) : List Char :=
  if i < 0 then '-' :: Nat.toDigits 10 i.natAbs else Nat.toDigits 10 i.natAbs

/-- The text of a value that is not a container; containers have none. -/
def scalar : Json → List Char
  | .null => ['n', 'u', 'l', 'l']
  | .bool true => ['t', 'r', 'u', 'e']
  | .bool false => ['f', 'a', 'l', 's', 'e']
  | .integer i => digits i
  | .real x => x.render .data
  | .string s => quote s
  | .array _ => []
  | .object _ => []

mutual

/-- The text without blanks. -/
def compact : Json → List Char
  | .array items => '[' :: (compactItems items ++ [']'])
  | .object fields => '{' :: (compactFields fields ++ ['}'])
  | .null => scalar .null
  | .bool b => scalar (.bool b)
  | .integer i => scalar (.integer i)
  | .real x => scalar (.real x)
  | .string s => scalar (.string s)

/-- Items with commas between them. -/
def compactItems : List Json → List Char
  | [] => []
  | [item] => compact item
  | item :: rest => compact item ++ ',' :: compactItems rest

/-- Fields with commas between them. -/
def compactFields : List (String × Json) → List Char
  | [] => []
  | [(name, value)] => quote name ++ ':' :: compact value
  | (name, value) :: rest => quote name ++ ':' :: (compact value ++ ',' :: compactFields rest)

end

/-- A new line, indented by two blanks a level. -/
def newLine (level : Nat) : List Char := '\n' :: List.replicate (2 * level) ' '

mutual

/-- The text over several lines; the value stands at the given level. -/
def prettyAt (level : Nat) : Json → List Char
  | .array [] => ['[', ']']
  | .array (item :: rest) =>
    '[' :: (newLine (level + 1) ++ prettyAt (level + 1) item
      ++ prettyItems (level + 1) rest ++ newLine level ++ [']'])
  | .object [] => ['{', '}']
  | .object ((name, value) :: rest) =>
    '{' :: (newLine (level + 1) ++ quote name ++ ':' :: ' ' :: prettyAt (level + 1) value
      ++ prettyFields (level + 1) rest ++ newLine level ++ ['}'])
  | .null => scalar .null
  | .bool b => scalar (.bool b)
  | .integer i => scalar (.integer i)
  | .real x => scalar (.real x)
  | .string s => scalar (.string s)

/-- The items after the first, each behind a comma and on its own line. -/
def prettyItems (level : Nat) : List Json → List Char
  | [] => []
  | item :: rest => ',' :: (newLine level ++ prettyAt level item ++ prettyItems level rest)

/-- The fields after the first, each behind a comma and on its own line. -/
def prettyFields (level : Nat) : List (String × Json) → List Char
  | [] => []
  | (name, value) :: rest =>
    ',' :: (newLine level ++ quote name ++ ':' :: ' ' :: prettyAt level value
      ++ prettyFields level rest)

end

/-- The text over several lines. -/
def pretty (value : Json) : String := String.ofList (prettyAt 0 value)

/-- The text without blanks, as a string. -/
def toCompactString (value : Json) : String := String.ofList (compact value)

end Json

end TypeCatalog
