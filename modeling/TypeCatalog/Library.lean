/-
Loaded tables.

`Library.load` takes a table in if it is whole: not too many slots, one record
for every slot, and no edge and no name that leads beyond the slots.  It gives
the first fault in this order: the number of slots, the records as they come,
the first empty slot, the names as they come.

A library also keeps which class is bound to which constructor.
-/
import TypeCatalog.Table.Codec

namespace TypeCatalog

/-- The identity of a type of values: the name that messages call it by, and the number that
tells it from other types of this name. -/
structure TypeId where
  typeName : String
  number : Nat
  deriving DecidableEq

/-- A name stands for the first type of the name. -/
instance : Coe String TypeId := ⟨fun name => ⟨name, 0⟩⟩

/-- Something that makes values of a class; it is known by the identity of its type. -/
structure Constructor extends TypeId
  deriving DecidableEq

/-- Why a table cannot be loaded. -/
inductive LoadError where
  | tooManySlots (count : Nat)
  | slotOutOfRange (slot count : Nat)
  | duplicatePopulation (slot : Nat)
  | danglingReference (slot target count : Nat)
  | unpopulated (slot : Nat)
  | danglingName (package name : String) (slot : Nat)
  | unreadable (problem : Json.Problem)
  deriving DecidableEq

/-- The largest number of slots that a table may have. -/
def greatestSlotCount : Nat := Nat.pow 2 24

namespace LoadError

/-- The text of a failure to load. -/
def message : LoadError → String
  | tooManySlots count =>
    "table declares " ++ toString count ++ " slots, more than the limit of "
      ++ toString greatestSlotCount
  | slotOutOfRange slot count =>
    "population for slot " ++ toString slot ++ " is outside the table of " ++ toString count
      ++ " slots"
  | duplicatePopulation slot => "slot " ++ toString slot ++ " is populated twice"
  | danglingReference slot target count =>
    "slot " ++ toString slot ++ " refers to slot " ++ toString target
      ++ ", outside the table of " ++ toString count ++ " slots"
  | unpopulated slot => "slot " ++ toString slot ++ " is never populated"
  | danglingName package name slot =>
    "'" ++ package ++ "#" ++ name ++ "' refers to slot " ++ toString slot
      ++ ", outside the table"
  | unreadable problem => "invalid metadata table: " ++ problem.message

end LoadError

/-- Why a type is not found. -/
inductive LookupError where
  | malformedName (name : String)
  | libraryNotFound (name : String)
  | packageNotFound (package : String)
  | typeNotFound (package name : String)
  | kindMismatch (package name expected actual : String)
  | constructorNotRegistered (typeName : String)
  deriving DecidableEq

namespace LookupError

/-- The text of a failure to find a type. -/
def message : LookupError → String
  | malformedName name => "malformed type name '" ++ name ++ "', expected 'package#Name'"
  | libraryNotFound name => "reflection library '" ++ name ++ "' is not loaded"
  | packageNotFound package => "package '" ++ package ++ "' not found"
  | typeNotFound package name => "type '" ++ name ++ "' not found in package '" ++ package ++ "'"
  | kindMismatch package name expected actual =>
    "'" ++ package ++ "#" ++ name ++ "' is " ++ actual ++ ", not " ++ expected
  | constructorNotRegistered typeName =>
    "no class is registered for constructor '" ++ typeName ++ "'"

end LookupError

/-- A loaded table. -/
structure Library where
  name : String
  /-- The records, in the order of their slots. -/
  slots : List TypeNode
  packages : OrderedMap String PackageTable
  constructors : OrderedMap SlotId Constructor
  deriving DecidableEq

namespace Library

/-- The first fault of some records, after the given slots have been filled. -/
def populationFault? (count : Nat) : List SlotId → List TypeNode → Option LoadError
  | _, [] => none
  | filled, node :: rest =>
    if count ≤ node.slot.index then some (.slotOutOfRange node.slot.index count)
    else if node.slot ∈ filled then some (.duplicatePopulation node.slot.index)
    else match node.slotRefs.find? (count ≤ ·.index) with
      | some target => some (.danglingReference node.slot.index target.index count)
      | none => populationFault? count (node.slot :: filled) rest

/-- The first of as many slots as the first number, from the second number on,
that has no record. -/
def firstGap? (populations : List TypeNode) : Nat → Nat → Option Nat
  | 0, _ => none
  | left + 1, slot =>
    if populations.any (·.slot.index = slot) then firstGap? populations left (slot + 1)
    else some slot

/-- The first name of a package that leads beyond the slots. -/
def nameFault? (count : Nat) (package : String) : List (String × SlotId) → Option LoadError
  | [] => none
  | (name, slot) :: rest =>
    if count ≤ slot.index then some (.danglingName package name slot.index)
    else nameFault? count package rest

/-- The first name of some packages that leads beyond the slots. -/
def packageFault? (count : Nat) : List (String × PackageTable) → Option LoadError
  | [] => none
  | (package, names) :: rest =>
    nameFault? count package names.entries <|> packageFault? count rest

/-- The first fault of a table. -/
def fault? (t : MetadataTable) : Option LoadError :=
  if greatestSlotCount < t.slotCount then some (.tooManySlots t.slotCount)
  else
    populationFault? t.slotCount [] t.populations
      <|> (firstGap? t.populations t.slotCount 0).map LoadError.unpopulated
      <|> packageFault? t.slotCount t.packages.entries

/-- Takes a table in, with its records in the order of their slots. -/
def load (t : MetadataTable) : Except LoadError Library :=
  match fault? t with
  | some fault => .error fault
  | none => .ok
    { name := t.library
      slots := (List.range t.slotCount).filterMap fun i => t.population? ⟨i⟩
      packages := t.packages
      constructors := .empty }

/-- The record of a slot. -/
def node? (l : Library) (slot : SlotId) : Option TypeNode := l.slots[slot.index]?

/-- The slot of a name in a package. -/
def slotOf (l : Library) (package name : String) : Except LookupError SlotId :=
  match l.packages.get? package with
  | none => .error (.packageNotFound package)
  | some names =>
    match names.get? name with
    | none => .error (.typeNotFound package name)
    | some slot => .ok slot

/-- The record of a name in a package. -/
def lookup (l : Library) (package name : String) : Except LookupError TypeNode := do
  let slot ← l.slotOf package name
  match l.node? slot with
  | some node => return node
  | none => .error (.typeNotFound package name)

/-- What a record of the wrong kind is called. -/
def kindPhrase (kind : NodeKind) : String :=
  if kind.isClass then "a class" else if kind.isInterface then "an interface" else kind.tag

/-- The class of a name in a package. -/
def classForName (l : Library) (package name : String) : Except LookupError TypeNode := do
  let node ← l.lookup package name
  if node.kind.isClass then return node
  else .error (.kindMismatch package name "a class" (kindPhrase node.kind))

/-- The interface of a name in a package. -/
def interfaceForName (l : Library) (package name : String) : Except LookupError TypeNode := do
  let node ← l.lookup package name
  if node.kind.isInterface then return node
  else .error (.kindMismatch package name "an interface" (kindPhrase node.kind))

/-- Binds a class to a constructor. -/
def bind (l : Library) (slot : SlotId) (constructor : Constructor) : Library :=
  { l with constructors := l.constructors.insert slot constructor }

/-- Frees a class from its constructor. -/
def unbind (l : Library) (slot : SlotId) : Library :=
  { l with constructors := l.constructors.erase slot }

/-- The constructor of a class. -/
def constructorOf? (l : Library) (slot : SlotId) : Option Constructor := l.constructors.get? slot

end Library

end TypeCatalog
