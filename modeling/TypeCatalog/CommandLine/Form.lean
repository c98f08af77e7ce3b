/-
Forms that are filled in from the words of a command line.

A `Form` has options, which take a value and go by names; flags, which take
none; and positions, which are filled by the words that are neither, in order.
All positions have to be filled, and nothing is filled twice.

A value is looked at only when the next thing is filled in, or at the end; so a
name that no option has is met before the bad value in front of it.  Behind two
dashes alone every word is for a position.
-/

namespace TypeCatalog

/-- Why a command line is not carried out. -/
inductive UsageError where
  /-- It asks for help. -/
  | help
  /-- It asks for the version. -/
  | version
  | nothingToDo
  | unknownCommand
  | unknownArgument
  | badValue
  | repeatedArgument
  | superfluousValue
  | missingArgument
  deriving DecidableEq

namespace CommandLine

/-- Something that takes a value, unless it refuses it. -/
structure Place (α : Type) where
  name : String
  put : String → α → Option α

/-- Something that takes the value behind one of its names. -/
structure NamedPlace (α : Type) where
  place : Place α
  longNames : List String
  shortName : Option Char

/-- Something that is set by its name alone. -/
structure Flag (α : Type) where
  name : String
  set : α → α

/-- What a command takes. -/
structure Form (α : Type) where
  options : List (NamedPlace α)
  flags : List (Flag α)
  positions : List (Place α)

/-- A value on its way to its place; it is absent as long as only the name has been read. -/
structure Pending (α : Type) where
  place : Place α
  value : Option String

/-- A form as far as it is filled in. -/
structure Filling (α : Type) where
  value : α
  /-- The names of all that has been filled in. -/
  filled : List String
  pending : Option (Pending α)
  /-- The positions that are left. -/
  positions : List (Place α)
  /-- Whether names are no longer looked for. -/
  isPlain : Bool

/-- What a word looks like. -/
inductive Word where
  | dashes
  | long (name : String) (attached : Option String)
  | short (letters : List Char)
  | plain

namespace Word

/-- A text before and, if it has one, behind its first equals sign. -/
def splitAttached (text : List Char) : String × Option String :=
  let name := text.takeWhile (· ≠ '=')
  (String.ofList name,
    match text.drop name.length with
    | [] => none
    | _ :: value => some (String.ofList value))

/-- What a word looks like; a single dash is plain. -/
def ofText (word : String) : Word :=
  match word.toList with
  | ['-', '-'] => .dashes
  | '-' :: '-' :: text =>
    let (name, attached) := splitAttached text
    .long name attached
  | '-' :: letter :: letters => .short (letter :: letters)
  | _ => .plain

end Word

namespace Filling

/-- Nothing is filled in. -/
def start (form : Form α) (value : α) : Filling α := ⟨value, [], none, form.positions, false⟩

/-- Takes the pending value to its place. -/
def settle (f : Filling α) : Except UsageError (Filling α) :=
  match f.pending with
  | none => .ok f
  | some ⟨_, none⟩ => .error .badValue
  | some ⟨place, some text⟩ =>
    if place.name ∈ f.filled then .error .repeatedArgument
    else match place.put text f.value with
      | some value =>
        .ok { f with value := value, filled := place.name :: f.filled, pending := none }
      | none => .error .badValue

/-- Goes on to an option, whose value may be attached to its name. -/
def option (f : Filling α) (place : Place α) (attached : Option String) :
    Except UsageError (Filling α) := do
  let f ← f.settle
  let f := { f with pending := some ⟨place, attached⟩ }
  if attached.isSome then f.settle else return f

/-- Sets a flag. -/
def flag (f : Filling α) (flag : Flag α) : Except UsageError (Filling α) := do
  let f ← f.settle
  if flag.name ∈ f.filled then .error .repeatedArgument
  else return { f with value := flag.set f.value, filled := flag.name :: f.filled }

/-- Stops to give help. -/
def giveHelp (f : Filling α) : Except UsageError (Filling α) := do
  let _ ← f.settle
  .error .help

/-- Goes on to the next position. -/
def position (f : Filling α) (word : String) : Except UsageError (Filling α) :=
  match f.positions with
  | [] => .error .unknownArgument
  | place :: rest => do
    let f ← f.settle
    return { f with pending := some ⟨place, some word⟩, positions := rest }

/-- Takes a word that is no name: the value of the option before it, or a position. -/
def plainWord (f : Filling α) (word : String) : Except UsageError (Filling α) :=
  match f.pending with
  | some ⟨place, none⟩ => .ok { f with pending := some ⟨place, some word⟩ }
  | _ => f.position word

end Filling

namespace Form

/-- Takes a long name. -/
def longName (form : Form α) (f : Filling α) (name : String) (attached : Option String) :
    Except UsageError (Filling α) :=
  match form.options.find? (name ∈ ·.longNames), form.flags.find? (·.name == name) with
  | some option, _ => f.option option.place attached
  | none, some flag => if attached.isSome then .error .superfluousValue else f.flag flag
  | none, none =>
    if name ≠ "help" then .error .unknownArgument
    else if attached.isSome then .error .superfluousValue
    else f.giveHelp

/-- The value behind a short name, with or without an equals sign in front. -/
def attachedTo : List Char → Option String
  | [] => none
  | '=' :: text => some (String.ofList text)
  | text => some (String.ofList text)

/-- Takes a short name and what is attached to it. -/
def shortName (form : Form α) (f : Filling α) : List Char → Except UsageError (Filling α)
  | [] => .ok f
  | letter :: text =>
    match form.options.find? (·.shortName == some letter) with
    | some option => f.option option.place (attachedTo text)
    | none => if letter = 'h' then f.giveHelp else .error .unknownArgument

/-- Takes the next word. -/
def word (form : Form α) (f : Filling α) (word : String) : Except UsageError (Filling α) :=
  if f.isPlain then f.position word
  else match Word.ofText word with
    | .dashes => .ok { f with isPlain := true }
    | .long name attached => form.longName f name attached
    | .short letters => form.shortName f letters
    | .plain => f.plainWord word

/-- Fills the form in. -/
def fill (form : Form α) (value : α) (words : List String) : Except UsageError α := do
  let f ← words.foldlM form.word (.start form value)
  let f ← f.settle
  if f.positions.isEmpty then return f.value else .error .missingArgument

end Form

end CommandLine

end TypeCatalog
