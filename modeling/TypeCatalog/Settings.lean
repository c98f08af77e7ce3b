/-
The settings of a run.

What a run can be told are `Choices`; a settings file and the command line both
make choices, and every choice may be left open.  Of several sources the first
that makes a choice decides (`Choices.orElse`); a choice that no source makes has
a default (`Settings.resolve`).

A settings file may name a file to build on, and may switch cataloguing off.
-/
import TypeCatalog.Catalog.Pass
import TypeCatalog.Script.Writer
import TypeCatalog.Text.Blank

namespace TypeCatalog

open Json

/-- How a table is written. -/
inductive TableFormat where
  | script
  | json
  deriving DecidableEq

instance : Inhabited TableFormat := ⟨.script⟩

namespace TableFormat

/-- The formats by their names. -/
def names : List (String × TableFormat) := [("script", .script), ("json", .json)]

/-- The name of a format. -/
def name : TableFormat → String
  | script => "script"
  | json => "json"

end TableFormat

/-- What a run can be told. -/
structure Choices where
  libraryName : Option String
  packageLayout : Option PackageLayout
  rootDir : Option String
  outFile : Option String
  format : Option TableFormat
  newLine : Option NewLine
  deriving DecidableEq

namespace Choices

/-- Every choice is left open. -/
def undecided : Choices := ⟨none, none, none, none, none, none⟩

instance : Inhabited Choices := ⟨undecided⟩

/-- The choices of two sources, of which the first one decides. -/
def orElse (first second : Choices) : Choices where
  libraryName := first.libraryName <|> second.libraryName
  packageLayout := first.packageLayout <|> second.packageLayout
  rootDir := first.rootDir <|> second.rootDir
  outFile := first.outFile <|> second.outFile
  format := first.format <|> second.format
  newLine := first.newLine <|> second.newLine

end Choices

/-- What a settings file says. -/
structure SettingsFile where
  /-- The file that this one builds on. -/
  base : Option String
  isEnabled : Option Bool
  choices : Choices
  deriving DecidableEq

namespace SettingsFile

/-- A file that says nothing. -/
def empty : SettingsFile := ⟨none, none, .undecided⟩

instance : Inhabited SettingsFile := ⟨empty⟩

/-- What two files say together, when the first one decides; it builds on nothing more. -/
def orElse (first second : SettingsFile) : SettingsFile where
  base := none
  isEnabled := first.isEnabled <|> second.isEnabled
  choices := first.choices.orElse second.choices

/-- The words for a truth value, in small letters. -/
def switchWords : List (String × Bool) :=
  [("true", true), ("1", true), ("yes", true), ("on", true),
    ("false", false), ("0", false), ("no", false), ("off", false)]

/-- The truth value that a word stands for, in letters of any size and among blanks. -/
def switchOf? (word : String) : Option Bool :=
  let plain := String.ofList ((Text.trim word.toList).map Char.toLower)
  (switchWords.find? (·.1 == plain)).map Prod.snd

/-- Reads a truth value, or a word for one. -/
def decodeSwitch : Decoder Bool
  | _, .bool b => .ok b
  | _, .string word =>
    match switchOf? word with
    | some b => .ok b
    | none => .error (.rejected
        ("invalid boolean value: '" ++ word ++ "'. Expected true, false, 'true', or 'false'"))
  | _, draft => do
    draft.hold
    .error (.noAlternative "BoolOrString")

/-- The fields of a settings file. -/
def fields : Fields SettingsFile :=
  (fun base isEnabled libraryName packageLayout rootDir outFile format newLine =>
    ⟨base, isEnabled, ⟨libraryName, packageLayout, rootDir, outFile, format, newLine⟩⟩)
    <$> .maybe "extends" .text
    <*> .maybe "reflectionEnabled" decodeSwitch
    <*> .maybe "libraryName" .text
    <*> .maybe "packageLayout" (.oneOf PackageLayout.names)
    <*> .maybe "rootDir" .text
    <*> .maybe "outFile" .text
    <*> .maybe "format" (.oneOf TableFormat.names)
    <*> .maybe "newLine" (.oneOf NewLine.names)

/-- Reads a settings file from its text; it may say nothing but what is known. -/
def read (text : String) : Except Problem SettingsFile := decodeText fields.decodeStrictly text

end SettingsFile

/-- The settings of a run. -/
structure Settings where
  isEnabled : Bool
  options : CatalogOptions
  /-- Where the table goes; without it, to the standard output. -/
  outFile : Option String
  format : TableFormat
  newLine : NewLine
  deriving DecidableEq

namespace Settings

/-- The settings that come of a settings file, if there is one, and of choices that go before it. -/
def resolve (file : Option SettingsFile) (overrides : Choices) : Settings :=
  let file := file.getD .empty
  let choices := overrides.orElse file.choices
  { isEnabled := file.isEnabled.getD true
    options :=
      ⟨choices.libraryName.getD defaultLibrary, choices.packageLayout.getD .nested,
        choices.rootDir⟩
    outFile := choices.outFile
    format := choices.format.getD .script
    newLine := choices.newLine.getD .lf }

end Settings

end TypeCatalog
