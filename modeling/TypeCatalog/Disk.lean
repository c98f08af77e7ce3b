/-
A disk: directories, and files with their texts.

A path is walked from the root or, if it is relative, from the working
directory, one part after the other; the part `..` leads to the directory
above, and empty parts and `.` lead nowhere else, but only a directory has any
of them.  There are no links, so that the names on the way from the root to a
file are its one canonical path.

`FileView` is what can be asked about files without changing them.
-/
import TypeCatalog.OrderedMap
import TypeCatalog.Path

namespace TypeCatalog

/-- Why a path cannot be used as wanted. -/
inductive FileError where
  | notFound
  | notADirectory
  | isADirectory
  | alreadyExists
  | nameTooLong
  | badName
  /-- What else a system has to say. -/
  | other (text : String)
  deriving DecidableEq

namespace FileError

/-- The text of a reason. -/
def message : FileError → String
  | notFound => "No such file or directory (os error 2)"
  | notADirectory => "Not a directory (os error 20)"
  | isADirectory => "Is a directory (os error 21)"
  | alreadyExists => "File exists (os error 17)"
  | nameTooLong => "File name too long (os error 36)"
  | badName => "file name contained an unexpected NUL byte"
  | other text => text

end FileError

/-- What can be asked about files: the canonical path that a path leads to, if one can be
found, and the text of a file.  There are only so many files, and each is in a directory. -/
structure FileView where
  /-- What the files are known by. -/
  files : List String
  canonical? : String → Option String
  read : String → Except FileError String
  known_mem_files : ∀ {path text}, read path = .ok text → (canonical? path).getD path ∈ files
  isSome_parent? : ∀ {path text}, read path = .ok text → (Path.parent? path).isSome

/-- A place on a disk: the names that lead to it from the root. -/
abbrev Location := List String

namespace Location

/-- The canonical path of a place. -/
def path (location : Location) : String := "/" ++ String.intercalate "/" location

end Location

/-- What is at a place. -/
inductive DiskEntry where
  | directory
  | file (text : String)
  deriving DecidableEq

/-- A disk with a working directory. -/
structure Disk where
  workingDirectory : Location
  entries : OrderedMap Location DiskEntry
  deriving DecidableEq

namespace Disk

/-- A disk with nothing but an empty working directory right below the root. -/
def empty (workingDirectory : String) : Disk :=
  ⟨[workingDirectory], OrderedMap.empty.insert [workingDirectory] .directory⟩

/-- What is at a place; the root is always there. -/
def entry? (d : Disk) (location : Location) : Option DiskEntry :=
  if location = [] then some .directory else d.entries.get? location

/-- Whether a place is a directory. -/
def isDirectory (d : Disk) (location : Location) : Bool := d.entry? location == some .directory

/-- All files with their texts. -/
def files (d : Disk) : List (Location × String) :=
  d.entries.entries.filterMap fun e =>
    match e.2 with
    | .directory => none
    | .file text => some (e.1, text)

/-- The longest name, in bytes. -/
def greatestNameSize : Nat := 255

/-- The longest path, in bytes. -/
def greatestPathSize : Nat := 4095

/-- The parts of a path, unless no walk can begin with it. -/
def parts (path : String) : Except FileError (List String) :=
  if '\x00' ∈ path.toList then .error .badName
  else if path = "" then .error .notFound
  else if greatestPathSize < path.utf8ByteSize then .error .nameTooLong
  else .ok ((Path.split path.toList).map String.ofList)

/-- Where the walk along a path begins. -/
def start (d : Disk) (path : String) : Location :=
  if Path.isAbsolute path then [] else d.workingDirectory

/-- A part that leads from a directory to itself. -/
def staysHere (part : String) : Bool := part == "" || part == "."

/-- Takes one step from a place. -/
def step (d : Disk) (here : Location) (part : String) : Except FileError Location :=
  if d.isDirectory here = false then .error .notADirectory
  else if staysHere part then .ok here
  else if part = ".." then .ok here.dropLast
  else if greatestNameSize < part.utf8ByteSize then .error .nameTooLong
  else if (d.entry? (here ++ [part])).isSome then .ok (here ++ [part])
  else .error .notFound

/-- The place that a path leads to. -/
def locate (d : Disk) (path : String) : Except FileError Location := do
  let parts ← parts path
  parts.foldlM d.step (d.start path)

/-- The canonical path that a path leads to. -/
def canonical? (d : Disk) (path : String) : Option String :=
  match d.locate path with
  | .ok location => some location.path
  | .error _ => none

/-- Whether a path leads to a file. -/
def isFile (d : Disk) (path : String) : Bool :=
  match d.locate path with
  | .ok location => !d.isDirectory location
  | .error _ => false

/-- The text of the file that a path leads to. -/
def read (d : Disk) (path : String) : Except FileError String :=
  match d.locate path with
  | .error error => .error error
  | .ok location =>
    match d.entry? location with
    | some (.file text) => .ok text
    | some .directory => .error .isADirectory
    | none => .error .notFound

/-- Takes one step from a place, into a directory that is made if it is not there. -/
def stepMaking (state : Disk × Location) (part : String) :
    Except FileError (Disk × Location) :=
  let (d, here) := state
  match d.step here part with
  | .ok location => .ok (d, location)
  | .error .notFound =>
    let location := here ++ [part]
    .ok ({ d with entries := d.entries.insert location .directory }, location)
  | .error error => .error error

/-- Makes a directory and those that are missing on the way to it. -/
def createDirectories (d : Disk) (path : String) : Except FileError Disk := do
  let parts ← parts path
  let (d, location) ← parts.foldlM stepMaking (d, d.start path)
  if d.isDirectory location then return d else .error .alreadyExists

/-- Writes a text to a file in a directory; a file that is there is written over. -/
def writeIn (d : Disk) (directory : Location) (name text : String) : Except FileError Disk :=
  if greatestNameSize < name.utf8ByteSize then .error .nameTooLong
  else if d.isDirectory (directory ++ [name]) then .error .isADirectory
  else .ok { d with entries := d.entries.insert (directory ++ [name]) (.file text) }

/-- Writes a text to the file at a path; a path that ends in a slash or in dots leads to no file. -/
def write (d : Disk) (path text : String) : Except FileError Disk := do
  let parts ← parts path
  let named := parts.reverse.dropWhile (· == "")
  match named with
  | [] => .error .isADirectory
  | name :: above =>
    let directory ← above.reverse.foldlM d.step (d.start path)
    if d.isDirectory directory = false then .error .notADirectory
    else if named.length < parts.length ∨ staysHere name ∨ name = ".." then .error .isADirectory
    else d.writeIn directory name text

theorem mem_files_of_read {d : Disk} {path text : String} (h : d.read path = .ok text) :
    ∃ location, d.canonical? path = some location.path ∧ (location, text) ∈ d.files := by
  unfold read at h
  unfold canonical?
  match hl : d.locate path with
  | .error _ => simp [hl] at h
  | .ok location =>
    simp only [hl] at h
    refine ⟨location, rfl, ?_⟩
    match he : d.entry? location with
    | none => simp [he] at h
    | some .directory => simp [he] at h
    | some (.file found) =>
      simp only [he, Except.ok.injEq] at h
      subst h
      unfold entry? at he
      split at he
      · simp at he
      · exact List.mem_filterMap.2 ⟨(location, .file found), OrderedMap.mem_of_get? he, rfl⟩

theorem foldlM_step_root (d : Disk) {parts : List String} (h : ∀ part ∈ parts, staysHere part) :
    parts.foldlM d.step [] = .ok [] := by
  induction parts with
  | nil => rfl
  | cons part rest ih =>
    have hroot : d.isDirectory [] = true := rfl
    have hstep : d.step [] part = .ok [] := by
      rw [step, hroot, if_neg (by decide), if_pos (h part List.mem_cons_self)]
    rw [List.foldlM_cons, hstep]
    exact ih fun p hp => h p (List.mem_cons_of_mem _ hp)

/-- What has nothing above it is the root, or nothing at all. -/
theorem isSome_parent?_of_read {d : Disk} {path text : String} (h : d.read path = .ok text) :
    (Path.parent? path).isSome := by
  rw [Option.isSome_iff_ne_none]
  intro hparent
  unfold read locate parts at h
  split at h
  · cases h
  · rename_i location hl
    split at hl
    · cases hl
    split at hl
    · cases hl
    split at hl
    · cases hl
    rename_i hne _
    obtain ⟨habsolute, hparts⟩ := Path.isAbsolute_of_parent?_eq_none hparent hne
    have hstays : ∀ part ∈ (Path.split path.toList).map String.ofList, staysHere part := by
      intro part hpart
      obtain ⟨chars, hchars, rfl⟩ := List.mem_map.1 hpart
      rcases hparts chars hchars with rfl | rfl <;> rfl
    have hwalk := d.foldlM_step_root hstays
    have hstart : d.start path = [] := if_pos habsolute
    rw [hstart] at hl
    have hroot : location = [] := (Except.ok.inj (hwalk.symm.trans hl)).symm
    subst hroot
    have hroot : d.entry? [] = some .directory := rfl
    simp [hroot] at h

/-- What can be asked about the files of a disk. -/
def view (d : Disk) : FileView where
  files := d.files.map fun e => e.1.path
  canonical? := d.canonical?
  read := d.read
  known_mem_files := fun h =>
    let ⟨_, canonical, mem⟩ := mem_files_of_read h
    canonical ▸ List.mem_map.2 ⟨_, mem, rfl⟩
  isSome_parent? := isSome_parent?_of_read

end Disk

end TypeCatalog
