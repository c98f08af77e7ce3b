/-
What a command line asks for.

The first word names the command; the words behind it fill in its form.
-/
import TypeCatalog.CommandLine.Form
import TypeCatalog.Settings

namespace TypeCatalog

/-- Catalogue a program and write its table. -/
structure EmitRequest where
  program : String
  /-- The settings file, if one is named. -/
  settingsPath : Option String
  choices : Choices
  deriving DecidableEq

/-- Read a table and print one record. -/
structure QueryRequest where
  table : String
  name : String
  /-- Whether the name is that of an interface and not of a class. -/
  isInterface : Bool
  deriving DecidableEq

/-- What a command line asks for. -/
inductive Request where
  | emit (request : EmitRequest)
  | query (request : QueryRequest)
  deriving DecidableEq

namespace CommandLine

/-- The value that a word names, in letters of any size. -/
def named? (names : List (String × α)) (word : String) : Option α :=
  (names.find? (·.1 == String.ofList (word.toList.map Char.toLower))).map Prod.snd

/-- A word as a path; an empty word is none. -/
def path? (word : String) : Option String := if word = "" then none else some word

end CommandLine

open CommandLine

namespace EmitRequest

/-- A place for one of the choices. -/
def choice (name : String) (read : String → Option β) (put : β → Choices → Choices) :
    Place EmitRequest :=
  ⟨name, fun word r => (read word).map fun b => { r with choices := put b r.choices }⟩

/-- The form of the command. -/
def form : Form EmitRequest where
  options := [
    ⟨⟨"config", fun word r => (path? word).map fun p => { r with settingsPath := some p }⟩,
      ["config"], some 'c'⟩,
    ⟨choice "out" path? fun p c => { c with outFile := some p }, ["out", "outFile"], some 'o'⟩,
    ⟨choice "format" (named? TableFormat.names) fun f c => { c with format := some f },
      ["format"], none⟩,
    ⟨choice "library" some fun name c => { c with libraryName := some name },
      ["library", "libraryName"], none⟩,
    ⟨choice "layout" (named? PackageLayout.names) fun l c => { c with packageLayout := some l },
      ["layout", "packageLayout"], none⟩,
    ⟨choice "rootDir" path? fun p c => { c with rootDir := some p },
      ["rootDir", "root-dir"], none⟩,
    ⟨choice "newLine" (named? NewLine.names) fun n c => { c with newLine := some n },
      ["newLine", "new-line"], none⟩]
  flags := []
  positions := [⟨"program", fun word r => (path? word).map fun p => { r with program := p }⟩]

/-- Reads the words behind the command. -/
def read (words : List String) : Except UsageError EmitRequest :=
  form.fill ⟨"", none, .undecided⟩ words

end EmitRequest

namespace QueryRequest

/-- The form of the command. -/
def form : Form QueryRequest where
  options := []
  flags := [⟨"interface", fun r => { r with isInterface := true }⟩]
  positions := [
    ⟨"table", fun word r => (path? word).map fun p => { r with table := p }⟩,
    ⟨"name", fun word r => some { r with name := word }⟩]

/-- Reads the words behind the command. -/
def read (words : List String) : Except UsageError QueryRequest :=
  form.fill ⟨"", "", false⟩ words

end QueryRequest

namespace Request

/-- The names of the commands. -/
def commandNames : List String := ["emit", "query", "help"]

/-- What help is asked for: on the program, or on one of its commands. -/
def helpOn : List String → UsageError
  | [] => .help
  | [name] => if name ∈ commandNames then .help else .unknownCommand
  | _ => .unknownCommand

/-- Why a word that is not the name of a command is not carried out. -/
def refuse (word : String) : UsageError :=
  match Word.ofText word with
  | .long name attached =>
    if name ∉ ["help", "version"] then .unknownArgument
    else if attached.isSome then .superfluousValue
    else if name = "help" then .help else .version
  | .short ('h' :: _) => .help
  | .short ('V' :: _) => .version
  | .short _ => .unknownArgument
  | _ => .unknownCommand

/-- Why two dashes in front of the command are not carried out. -/
def refuseDashes : List String → UsageError
  | [] => .nothingToDo
  | word :: _ => if word ∈ commandNames then .unknownArgument else .unknownCommand

/-- Reads a command line. -/
def read : List String → Except UsageError Request
  | [] => .error .nothingToDo
  | "emit" :: words => (EmitRequest.read words).map .emit
  | "query" :: words => (QueryRequest.read words).map .query
  | "help" :: words => .error (helpOn words)
  | "--" :: words => .error (refuseDashes words)
  | word :: _ => .error (refuse word)

end Request

end TypeCatalog
