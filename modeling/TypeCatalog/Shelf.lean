/-
The libraries that are loaded, and the constructors bound to their classes.

A binding is kept twice: the shelf knows the class of a constructor, and the
library the constructor of a class.  A constructor has at most one class and a
class at most one constructor; a new binding takes the place of both old ones,
and loading a library again frees all of its classes.

Changes of a shelf can fail, and they do so before they have changed anything.
-/
import TypeCatalog.Library.View
import TypeCatalog.Catalog.Pass

namespace TypeCatalog

/-- Splits a qualified name at its only number sign; neither part is empty. -/
def splitQualifiedName (qualified : String) : Except LookupError (String × String) :=
  let package := qualified.toList.takeWhile (· ≠ '#')
  let name := qualified.toList.drop (package.length + 1)
  if package = [] ∨ name = [] ∨ '#' ∈ name then .error (.malformedName qualified)
  else .ok (String.ofList package, String.ofList name)

/-- Loaded libraries, and the classes of constructors. -/
structure Shelf where
  libraries : OrderedMap String Library
  bindings : OrderedMap Constructor (String × SlotId)
  deriving DecidableEq

namespace Shelf

/-- No library is loaded. -/
def empty : Shelf := ⟨.empty, .empty⟩

/-- The bindings to classes of other libraries than the named one. -/
def bindingsElsewhere (s : Shelf) (library : String) : OrderedMap Constructor (String × SlotId) :=
  ⟨s.bindings.entries.filter (fun e => e.2.1 ≠ library),
    List.Nodup.sublist (List.Sublist.map _ List.filter_sublist) s.bindings.nodup_keys⟩

/-- The library of a name. -/
def library (s : Shelf) (name : String) : Except LookupError Library :=
  match s.libraries.get? name with
  | some library => .ok library
  | none => .error (.libraryNotFound name)

/-- The class of a name in a package of a library. -/
def classIn (s : Shelf) (library package name : String) : Except LookupError TypeView := do
  let library ← s.library library
  let node ← library.classForName package name
  return ⟨library, node⟩

/-- The interface of a name in a package of a library. -/
def interfaceIn (s : Shelf) (library package name : String) : Except LookupError TypeView := do
  let library ← s.library library
  let node ← library.interfaceForName package name
  return ⟨library, node⟩

/-- The class of a qualified name in a library. -/
def classOf (s : Shelf) (library qualified : String) : Except LookupError TypeView := do
  let (package, name) ← splitQualifiedName qualified
  s.classIn library package name

/-- The class of a qualified name in the default library. -/
def classForName (s : Shelf) (qualified : String) : Except LookupError TypeView :=
  s.classOf defaultLibrary qualified

/-- The interface of a qualified name in the default library. -/
def interfaceForName (s : Shelf) (qualified : String) : Except LookupError TypeView := do
  let (package, name) ← splitQualifiedName qualified
  s.interfaceIn defaultLibrary package name

/-- Changes a library, if it is loaded. -/
def modifyLibrary (s : Shelf) (name : String) (f : Library → Library) : Shelf :=
  match s.libraries.get? name with
  | some library => { s with libraries := s.libraries.insert name (f library) }
  | none => s

/-- Frees the class that a constructor was bound to, if there was one. -/
def vacate (s : Shelf) : Option (String × SlotId) → Shelf
  | some (library, slot) => s.modifyLibrary library (·.unbind slot)
  | none => s

/-- Forgets the constructor that had a class before, if there was one. -/
def forget (s : Shelf) : Option Constructor → Shelf
  | some constructor => { s with bindings := s.bindings.erase constructor }
  | none => s

/-- The constructor of a class in a loaded library. -/
def owner? (s : Shelf) (library : String) (slot : SlotId) : Option Constructor :=
  s.libraries.get? library >>= fun l => l.constructorOf? slot

/-- Binds a constructor to a class slot of a loaded library. -/
def bind (s : Shelf) (constructor : Constructor) (library : String) (slot : SlotId) : Shelf :=
  let previous := s.bindings.get? constructor
  let s := { s with bindings := s.bindings.insert constructor (library, slot) }.vacate previous
  let displaced := s.owner? library slot
  (s.modifyLibrary library (·.bind slot constructor)).forget displaced

/-- A change of a shelf that can fail; what is done before the failure stays done. -/
abbrev Change (ε α : Type) := ExceptT ε (StateM Shelf) α

namespace Change

variable {ε α : Type}

/-- The result of a change, and the shelf after it. -/
def on (change : Change ε α) (s : Shelf) : Except ε α × Shelf := StateT.run change.run s

/-- The result of a change and the shelf after it, if the change does not fail. -/
def onSuccess (change : Change ε α) (s : Shelf) : Except ε (α × Shelf) :=
  match change.on s with
  | (.ok a, s') => .ok (a, s')
  | (.error e, _) => .error e

/-- Loads a table, in place of the library of its name if there is one. -/
def load (t : MetadataTable) : Change LoadError Library := do
  let library ← Library.load t
  if (← get).libraries.contains library.name then
    modify fun s => { s with bindings := s.bindingsElsewhere library.name }
  modify fun s => { s with libraries := s.libraries.insert library.name library }
  return library

/-- Binds a constructor to the class of a qualified name in a library. -/
def registerIn (constructor : Constructor) (library qualified : String) :
    Change LookupError Unit := do
  let view ← (← get).classOf library qualified
  modify (·.bind constructor library view.node.slot)

/-- Binds a constructor to the class of a qualified name in the default library. -/
def register (constructor : Constructor) (qualified : String) : Change LookupError Unit :=
  registerIn constructor defaultLibrary qualified

end Change

/-- Loads a table, in place of the library of its name if there is one. -/
def load (s : Shelf) (t : MetadataTable) : Except LoadError (Library × Shelf) :=
  (Change.load t).onSuccess s

/-- Loads a table from its text. -/
def loadText (s : Shelf) (text : String) : Except LoadError (Library × Shelf) :=
  match MetadataTable.read text with
  | .ok t => s.load t
  | .error problem => .error (.unreadable problem)

/-- Binds a constructor to the class of a qualified name in a library. -/
def registerIn (s : Shelf) (constructor : Constructor) (library qualified : String) :
    Except LookupError Shelf := do
  let ((), s) ← (Change.registerIn constructor library qualified).onSuccess s
  return s

/-- The class that a constructor is bound to. -/
def classForConstructor (s : Shelf) (constructor : Constructor) :
    Except LookupError TypeView := do
  match s.bindings.get? constructor with
  | none => .error (.constructorNotRegistered constructor.typeName)
  | some (name, slot) =>
    let library ← s.library name
    match library.typeAt? slot with
    | some view => return view
    | none => .error (.constructorNotRegistered constructor.typeName)

end Shelf

end TypeCatalog
