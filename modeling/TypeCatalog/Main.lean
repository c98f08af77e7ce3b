/-
The program.

Everything that is decided is decided elsewhere; here files are read and
written, and outputs printed.
-/
import TypeCatalog.Command

namespace TypeCatalog

namespace Main

/-- The reason that a system gives. -/
def fileError (e : IO.Error) : FileError :=
  match e with
  | .noFileOrDirectory _ _ _ => .notFound
  | .alreadyExists _ _ _ => .alreadyExists
  | .inappropriateType _ code _ =>
    if code = 21 then .isADirectory else if code = 20 then .notADirectory else .other (toString e)
  | e => .other (toString e)

/-- Does something with files, and gives the reason if it cannot be done. -/
def tryFiles (action : IO α) : IO (Except FileError α) := do
  match ← action.toBaseIO with
  | .ok a => return .ok a
  | .error e => return .error (fileError e)

/-- The canonical path that a path leads to. -/
def canonical? (path : String) : IO (Option String) := do
  match ← tryFiles (IO.FS.realPath path) with
  | .ok file => return some file.toString
  | .error _ => return none

/-- Whether a path leads to a file. -/
def isFile (path : String) : IO Bool := do
  match ← tryFiles (IO.FS.realPath path) with
  | .ok file => return (← file.pathExists) && !(← file.isDir)
  | .error _ => return false

/-- The text of a file. -/
def read (path : String) : IO (Except FileError String) := tryFiles (IO.FS.readFile path)

/-- Follows a chain of settings files. -/
partial def follow (chain : Chain) (path : String) :
    IO (Except SettingsError SettingsFile) := do
  match chain.visit path (← canonical? path) (← read path) with
  | .error error => return .error error
  | .ok (next, none) => return .ok next.merged
  | .ok (next, some onward) => follow next onward

/-- The workspace of the machine that the program runs on. -/
def workspace : Workspace IO where
  isFile := isFile
  loadSettings := follow .empty
  read := read
  createDirectories path := tryFiles (IO.FS.createDirAll path)
  write path text := tryFiles (IO.FS.writeFile path text)
  print text := do (← IO.getStdout).putStr text
  report text := do (← IO.getStderr).putStr text

/-- How the program is used. -/
def usage : String :=
  "Emit and inspect static type reflection metadata\n\n"
    ++ "tsr emit <PROGRAM> [-c, --config <PATH>] [-o, --out <PATH>] [--format <script|json>]\n"
    ++ "    [--library <NAME>] [--layout <nested|flat>] [--rootDir <PATH>] [--newLine <lf|crlf>]\n"
    ++ "tsr query <TABLE> <NAME> [--interface]\n"
    ++ "tsr help [COMMAND]\n"

/-- The version of the program. -/
def version : String := "tsr 0.1.0\n"

/-- Says why a command line is not carried out; asking for help or the version is no mistake. -/
def refuse : UsageError → IO UInt32
  | .help => do
    IO.print usage
    return 0
  | .version => do
    IO.print version
    return 0
  | _ => do
    IO.eprint usage
    return 2

/-- Carries out a request. -/
def run (request : Request) : IO UInt32 := do
  match ← (workspace.run request).run with
  | .ok () => return 0
  | .error error =>
    IO.eprintln ("error: " ++ String.intercalate ": " error.texts)
    return 1

end Main

end TypeCatalog

/-- Carries out a command line. -/
def main (words : List String) : IO UInt32 :=
  match TypeCatalog.Request.read words with
  | .ok request => TypeCatalog.Main.run request
  | .error error => TypeCatalog.Main.refuse error
