/-
Message templates with numbered places.

`Template.fill` goes through a message once from left to right.  A place is an
opening brace, a number and a closing brace; it is replaced by the argument of
that number, and the replacement is not looked at again.  A brace that opens no
place, or a place without an argument, stays as it is.
-/

namespace TypeCatalog

namespace Template

/-- The number that a run of digits stands for. -/
def decimalValue (digits : List Char) : Nat :=
  digits.foldl (fun n c => n * 10 + (c.toNat - '0'.toNat)) 0

/-- A number in decimal digits, a plus sign before it if need be. -/
def index? (text : List Char) : Option Nat :=
  let digits := match text with
    | '+' :: rest => rest
    | _ => text
  if digits ≠ [] ∧ digits.all Char.isDigit then some (decimalValue digits) else none

/-- The argument of the place whose opening brace stands before the text, and how
many characters of the text belong to the place. -/
def place? (args : List (List Char)) (text : List Char) : Option (List Char × Nat) :=
  let inner := text.takeWhile (· ≠ '\x7d')
  if inner.length < text.length then do
    let i ← index? inner
    let arg ← args[i]?
    return (arg, inner.length + 1)
  else none

/-- Fills a text, after leaving out as many characters as the first number says. -/
def fillFrom (args : List (List Char)) : Nat → List Char → List Char
  | _, [] => []
  | skipped + 1, _ :: text => fillFrom args skipped text
  | 0, c :: text =>
    if c = '\x7b' then
      match place? args text with
      | some (arg, length) => arg ++ fillFrom args length text
      | none => c :: fillFrom args 0 text
    else c :: fillFrom args 0 text

/-- The message with its places filled. -/
def fill (message : String) (args : List String) : String :=
  String.ofList (fillFrom (args.map String.toList) 0 message.toList)

end Template

end TypeCatalog
