/-
Carrying out requests.

A command works in a `Workspace`: files to read and write, and two outputs.
What it does there does not depend on what kind of workspace it is, so that the
same commands work on a `Session`, which holds a disk and the texts of both
outputs, and on the machine that the program runs on.
-/
import TypeCatalog.CommandLine.Request
import TypeCatalog.Program.Codec
import TypeCatalog.Script.Renderer
import TypeCatalog.Settings.Chain
import TypeCatalog.Shelf

namespace TypeCatalog

/-- Why a request cannot be carried out. -/
inductive CommandError where
  | settings (error : SettingsError)
  | programUnreadable (path : String) (error : FileError)
  | programMalformed (path : String) (problem : Json.Problem)
  /-- There are more types than a program has; the bound of its own types is never too small. -/
  | endlessProgram (path : String)
  | directoryNotMade (path : String) (error : FileError)
  | tableNotWritten (path : String) (error : FileError)
  | tableUnreadable (path : String) (error : FileError)
  | tableNotLoaded (path : String) (error : LoadError)
  | lookup (error : LookupError)
  deriving DecidableEq

namespace CommandError

/-- The texts of a failure to load a table, the widest first. -/
def loadTexts (error : LoadError) : List String :=
  match error with
  | .unreadable problem => [error.message, problem.message]
  | _ => [error.message]

/-- The texts of an error, the widest first. -/
def texts : CommandError → List String
  | settings error => error.texts
  | programUnreadable path error => ["failed to read program: " ++ path, error.message]
  | programMalformed path problem =>
    ["failed to load program: " ++ path, Program.readFailure problem, problem.message]
  | endlessProgram path => ["failed to load program: " ++ path, "there is no end of types"]
  | directoryNotMade path error => ["failed to create directory: " ++ path, error.message]
  | tableNotWritten path error => ["failed to write " ++ path, error.message]
  | tableUnreadable path error => ["failed to read table: " ++ path, error.message]
  | tableNotLoaded path error => ("failed to load table: " ++ path) :: loadTexts error
  | lookup error => [error.message]

end CommandError

/-- What a command needs from the place where it works. -/
structure Workspace (m : Type → Type) where
  isFile : String → m Bool
  loadSettings : String → m (Except SettingsError SettingsFile)
  read : String → m (Except FileError String)
  createDirectories : String → m (Except FileError Unit)
  write : String → String → m (Except FileError Unit)
  /-- Writes to the standard output. -/
  print : String → m Unit
  /-- Writes to the output for reports. -/
  report : String → m Unit

/-- The text of a table in a format. -/
def TableFormat.render (format : TableFormat) (newLine : NewLine) (t : MetadataTable) : String :=
  match format with
  | script => Script.render newLine t
  | json => t.toText ++ "\n"

namespace Diagnostic

/-- The line in which a diagnostic is reported. -/
def line (d : Diagnostic) : String := d.subject ++ ": " ++ d.display ++ "\n"

end Diagnostic

/-- Catalogues all files of a program. -/
def Program.catalog? (p : Program) (options : CatalogOptions) : Option CatalogOutput :=
  TypeCatalog.catalog? p.host options p.typeCount p.files

namespace Workspace

variable {m : Type → Type} [Monad m]

/-- Takes a step whose failure is the cause of an error. -/
def attempt (cause : ε → CommandError) (step : m (Except ε α)) : ExceptT CommandError m α :=
  ExceptT.mk (Except.mapError cause <$> step)

/-- Goes on with a result, unless it is the cause of an error. -/
def demand (cause : ε → CommandError) (result : Except ε α) : ExceptT CommandError m α :=
  attempt cause (pure result)

/-- The settings file that is named, or the one of the working directory if it is there. -/
def settingsFile? (w : Workspace m) (path : Option String) :
    ExceptT CommandError m (Option SettingsFile) := do
  match path with
  | some path => some <$> attempt .settings (w.loadSettings path)
  | none =>
    if ← w.isFile SettingsFile.standardPath then
      some <$> attempt .settings (w.loadSettings SettingsFile.standardPath)
    else return none

/-- Writes a text to a file, in a directory that is made if it is not there. -/
def deliver (w : Workspace m) (path text : String) : ExceptT CommandError m Unit := do
  let directory := (Path.parent? path).getD ""
  if directory ≠ "" then
    attempt (.directoryNotMade directory) (w.createDirectories directory)
  attempt (.tableNotWritten path) (w.write path text)

/-- Catalogues a program and writes its table. -/
def emit (w : Workspace m) (r : EmitRequest) : ExceptT CommandError m Unit := do
  let file ← w.settingsFile? r.settingsPath
  let settings := Settings.resolve file r.choices
  if settings.isEnabled then
    let text ← attempt (.programUnreadable r.program) (w.read r.program)
    let program ← demand (.programMalformed r.program) (Program.read text)
    match program.catalog? settings.options with
    | none => throw (.endlessProgram r.program)
    | some output =>
      output.diagnostics.forM fun diagnostic => w.report diagnostic.line
      let text := settings.format.render settings.newLine output.table
      match settings.outFile with
      | some path => w.deliver path text
      | none => w.print text

/-- The record that a request is about. -/
def queryIn (r : QueryRequest) (library : Library) : Except LookupError TypeNode := do
  let (package, name) ← splitQualifiedName r.name
  if r.isInterface then library.interfaceForName package name
  else library.classForName package name

/-- Reads a table and prints one record. -/
def query (w : Workspace m) (r : QueryRequest) : ExceptT CommandError m Unit := do
  let text ← attempt (.tableUnreadable r.table) (w.read r.table)
  let (library, _) ← demand (.tableNotLoaded r.table) (Shelf.empty.loadText text)
  let node ← demand .lookup (queryIn r library)
  w.print (node.toJson.pretty ++ "\n")

/-- Carries out a request. -/
def run (w : Workspace m) : Request → ExceptT CommandError m Unit
  | .emit r => w.emit r
  | .query r => w.query r

end Workspace

/-- A disk, and what has been written to the two outputs. -/
structure Session where
  disk : Disk
  output : String
  reports : String
  deriving DecidableEq

namespace Session

/-- A disk, and nothing has been written. -/
def start (disk : Disk) : Session := ⟨disk, "", ""⟩

/-- Takes over a changed disk. -/
def update (change : Disk → Except FileError Disk) : StateM Session (Except FileError Unit) :=
  fun s =>
    match change s.disk with
    | .ok disk => (.ok (), { s with disk := disk })
    | .error error => (.error error, s)

/-- The workspace of a session. -/
def workspace : Workspace (StateM Session) where
  isFile path := return (← get).disk.isFile path
  loadSettings path := return SettingsFile.load (← get).disk.view path
  read path := return (← get).disk.read path
  createDirectories path := update (·.createDirectories path)
  write path text := update (·.write path text)
  print text := modify fun s => { s with output := s.output ++ text }
  report text := modify fun s => { s with reports := s.reports ++ text }

/-- Carries out a request. -/
def run (s : Session) (request : Request) : Except CommandError Unit × Session :=
  (workspace.run request).run s

end Session

end TypeCatalog
