/-
Settings files that build on each other.

A file that names a base is followed by that base, and so on, until a file
names none.  On the way the settings are put together, the nearest file
deciding; the output file of a file is seen from the directory of that file.  A
file that is met again ends the chain with an error, and so does one that
cannot be read.

`Chain.visit` is one step along the chain.  `Chain.follow` takes all of them:
every step visits another one of the files that there are.
-/
import TypeCatalog.Disk
import TypeCatalog.Settings

namespace TypeCatalog

open Json

/-- Why settings cannot be loaded. -/
inductive SettingsError where
  | unreadable (path : String) (error : FileError)
  | malformed (path : String) (problem : Problem)
  | cycle (file : String)
  /-- The file names a base, but there is no directory from which to look for it. -/
  | noDirectory
  deriving DecidableEq

namespace SettingsError

/-- The texts about a settings file that says what it must not. -/
def problemTexts (problem : Problem) : List String :=
  ["failed to parse tsrconfig JSON", problem.message]

/-- The texts of an error, the widest first. -/
def texts : SettingsError → List String
  | unreadable path error => ["failed to read tsrconfig: " ++ path, error.message]
  | malformed path problem => ("failed to parse tsrconfig: " ++ path) :: problemTexts problem
  | cycle file => ["tsrconfig extends cycle detected at " ++ file]
  | noDirectory => ["tsrconfig has no parent directory"]

end SettingsError

namespace SettingsFile

/-- The file with its output file seen from a directory. -/
def rebase (file : SettingsFile) (directory : String) : SettingsFile :=
  if directory = "" then file
  else { file with choices :=
    { file.choices with outFile := file.choices.outFile.map (Path.join directory) } }

/-- The path with which to go on from a file at its path, if it names a base. -/
def onward? (file : SettingsFile) (path : String) : Except SettingsError (Option String) :=
  match file.base, Path.parent? path with
  | none, _ => .ok none
  | some _, none => .error .noDirectory
  | some base, some directory =>
    .ok (some (Path.join directory (Path.withDefaultExtension base "json")))

end SettingsFile

/-- A chain of settings files on the way. -/
structure Chain where
  /-- The canonical paths of the files that have been visited. -/
  visited : List String
  /-- What they say together. -/
  merged : SettingsFile
  deriving DecidableEq

namespace Chain

/-- No file has been visited. -/
def empty : Chain := ⟨[], .empty⟩

/-- Visits the file at a path, of which the canonical path and the text are
given; gives the path to go on with, if there is one. -/
def visit (chain : Chain) (path : String) (canonical : Option String)
    (content : Except FileError String) : Except SettingsError (Chain × Option String) :=
  -- one file may have many paths, so it is known by the canonical one
  let file := canonical.getD path
  if file ∈ chain.visited then .error (.cycle file)
  else match content with
    | .error error => .error (.unreadable path error)
    | .ok text =>
      match SettingsFile.read text with
      | .error problem => .error (.malformed path problem)
      | .ok settings =>
        match settings.onward? path with
        | .error error => .error error
        | .ok onward =>
          .ok (⟨file :: chain.visited,
              chain.merged.orElse (settings.rebase ((Path.parent? path).getD ""))⟩, onward)

theorem visited_of_visit {chain next : Chain} {path : String} {canonical onward : Option String}
    {content : Except FileError String}
    (h : chain.visit path canonical content = .ok (next, onward)) :
    next.visited = canonical.getD path :: chain.visited
      ∧ canonical.getD path ∉ chain.visited ∧ ∃ text, content = .ok text := by
  by_cases hfresh : canonical.getD path ∈ chain.visited
  · simp [visit, hfresh] at h
  · match content with
    | .error _ => simp [visit, hfresh] at h
    | .ok text =>
      simp only [visit, hfresh, if_false] at h
      split at h
      · simp at h
      · split at h
        · simp at h
        · simp only [Except.ok.injEq, Prod.mk.injEq] at h
          exact ⟨h.1 ▸ rfl, hfresh, text, rfl⟩

/-- How many files have not been visited yet. -/
def unvisited (view : FileView) (chain : Chain) : Nat :=
  (view.files.filter (· ∉ chain.visited)).length

theorem unvisited_lt_of_visit {view : FileView} {chain next : Chain} {path : String}
    {onward : Option String}
    (h : chain.visit path (view.canonical? path) (view.read path) = .ok (next, onward)) :
    unvisited view next < unvisited view chain := by
  obtain ⟨hvisited, hfresh, text, hread⟩ := visited_of_visit h
  -- what can be read is one of the files that there are, and it is a new one
  have hmem := view.known_mem_files hread
  generalize (view.canonical? path).getD path = file at hvisited hfresh hmem
  unfold unvisited
  rw [hvisited, show view.files.filter (· ∉ file :: chain.visited)
    = (view.files.filter (· ∉ chain.visited)).filter (· ≠ file) by
      rw [List.filter_filter]
      refine List.filter_congr fun x _ => ?_
      simp [List.mem_cons]]
  exact List.length_filter_lt_length_iff_exists.2
    ⟨file, List.mem_filter.2 ⟨hmem, by simpa using hfresh⟩, by simp⟩

/-- Follows a chain from the file at a path to its end. -/
def follow (view : FileView) (chain : Chain) (path : String) :
    Except SettingsError SettingsFile :=
  match h : chain.visit path (view.canonical? path) (view.read path) with
  | .error error => .error error
  | .ok (next, none) => .ok next.merged
  | .ok (next, some onward) =>
    have := unvisited_lt_of_visit h
    follow view next onward
termination_by unvisited view chain

end Chain

namespace SettingsFile

/-- Loads the settings file at a path and all that it builds on. -/
def load (view : FileView) (path : String) : Except SettingsError SettingsFile :=
  Chain.empty.follow view path

/-- The settings file that is looked for in the working directory. -/
def standardPath : String := "tsrconfig.json"

end SettingsFile

end TypeCatalog
