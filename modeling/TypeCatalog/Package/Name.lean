/-
The name of a file's package.

The name joins the steps of the file's path with dots, below the root directory
if the file lies there, and without the extension of the last step.
-/
import TypeCatalog.Path

namespace TypeCatalog

namespace Package

open TypeCatalog.Path

/-- The name of a step that has one. -/
def stepName? : Component → Option (List Char)
  | .normal name => some name
  | _ => none

/-- The last step without its extension. -/
def dropExtension (steps : List Component) : List Component :=
  match steps.getLast? with
  | some (.normal name) =>
    steps.dropLast ++ (step? (splitName name).1).toList
  | _ => steps

/-- Names with dots between them. -/
def dotted : List (List Char) → List Char
  | [] => []
  | [name] => name
  | name :: rest => name ++ '.' :: dotted rest

/-- The steps of a file below the root directory, or all of them if it does not lie there. -/
def stepsBelow (fileName : String) (rootDir : Option String) : List Component :=
  let steps := components fileName
  match rootDir with
  | none => steps
  | some root => (stripSteps steps (components root)).getD steps

/-- The name of a file's package. -/
def name (fileName : String) (rootDir : Option String) : String :=
  String.ofList (dotted ((dropExtension (stepsBelow fileName rootDir)).filterMap stepName?))

end Package

end TypeCatalog
