/-
Indented text, line by line.

A `Writer` holds the lines that are closed and the one that is open; where one
line ends and the next begins is written only in the end, so that the same
lines can be given with either line ending.  Writing is a list of steps.

A string literal is written between single quotes; `quoteChar` says how every
character stands in it.
-/

namespace TypeCatalog

/-- How lines end. -/
inductive NewLine where
  | lf
  | crlf
  deriving DecidableEq

instance : Inhabited NewLine := ⟨.lf⟩

namespace NewLine

/-- The characters that end a line. -/
def chars : NewLine → List Char
  | lf => ['\n']
  | crlf => ['\r', '\n']

/-- The line endings by their names. -/
def names : List (String × NewLine) := [("lf", .lf), ("crlf", .crlf)]

/-- The name of a line ending. -/
def name : NewLine → String
  | lf => "lf"
  | crlf => "crlf"

end NewLine

namespace Script

/-- A step of writing. -/
inductive Step where
  /-- Writes a text into the open line. -/
  | write (text : List Char)
  /-- Closes the open line. -/
  | newLine
  /-- Indents the lines that follow one level more. -/
  | indent
  /-- Indents the lines that follow one level less. -/
  | dedent
  deriving DecidableEq

/-- The last four hexadecimal digits of a number, in small letters. -/
def fourHex (n : Nat) : List Char :=
  [Nat.digitChar (n / 4096 % 16), Nat.digitChar (n / 256 % 16), Nat.digitChar (n / 16 % 16),
    Nat.digitChar (n % 16)]

/-- Whether a character is one of the control characters below U+0020 or from
U+007F to U+009F. -/
def isControl (c : Char) : Bool :=
  decide (c.toNat < 0x20) || (decide (0x7F ≤ c.toNat) && decide (c.toNat ≤ 0x9F))

/-- How a character stands in a string literal. -/
def quoteChar (c : Char) : List Char :=
  if c = '\'' then ['\\', '\'']
  else if c = '\\' then ['\\', '\\']
  else if c = '\n' then ['\\', 'n']
  else if c = '\r' then ['\\', 'r']
  else if c = '\t' then ['\\', 't']
  else if c.toNat = 0x2028 ∨ c.toNat = 0x2029 ∨ isControl c = true then
    '\\' :: 'u' :: fourHex c.toNat
  else [c]

/-- A text as a string literal. -/
def quote (text : List Char) : List Char := '\'' :: (text.flatMap quoteChar ++ ['\''])

namespace Step

/-- Writes a text. -/
def text (s : String) : Step := .write s.toList

/-- Writes a text as a string literal. -/
def literal (s : String) : Step := .write (quote s.toList)

/-- Writes a text and closes the line. -/
def line (s : String) : List Step := [text s, .newLine]

end Step

/-- Closed lines, the open line and the level of the lines that follow. -/
structure Writer where
  closed : List (List Char)
  opened : List Char
  level : Nat
  deriving DecidableEq

namespace Writer

/-- Nothing has been written. -/
def empty : Writer := ⟨[], [], 0⟩

/-- The blanks at the head of a line. -/
def indentation (level : Nat) : List Char := List.replicate (4 * level) ' '

/-- One step of writing; a line is indented when the first text comes into it. -/
def step (w : Writer) : Step → Writer
  | .write text =>
    if text = [] then w
    else if w.opened = [] then { w with opened := indentation w.level ++ text }
    else { w with opened := w.opened ++ text }
  | .newLine => { w with closed := w.closed ++ [w.opened], opened := [] }
  | .indent => { w with level := w.level + 1 }
  | .dedent => { w with level := w.level - 1 }

/-- Several steps of writing. -/
def steps (w : Writer) (ss : List Step) : Writer := ss.foldl step w

/-- What has been written, with the given line ending. -/
def chars (w : Writer) (newLine : NewLine) : List Char :=
  w.closed.flatMap (· ++ newLine.chars) ++ w.opened

end Writer

/-- The text of some steps. -/
def run (newLine : NewLine) (ss : List Step) : String :=
  String.ofList ((Writer.empty.steps ss).chars newLine)

end Script

end TypeCatalog
