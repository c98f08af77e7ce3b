/-
The table of a catalogue.

A table names its library, says how many slots it has, lists the primitive
types, maps the names of every package to slots, and holds the records.  The
order of packages, of names and of records is part of it.
-/
import TypeCatalog.Node
import TypeCatalog.OrderedMap

namespace TypeCatalog

/-- The slots of a package's names. -/
abbrev PackageTable := OrderedMap String SlotId

/-- A table of records, with the names by which they are found. -/
structure MetadataTable where
  library : String
  slotCount : Nat
  intrinsics : List Intrinsic
  packages : OrderedMap String PackageTable
  populations : List TypeNode
  deriving DecidableEq

namespace MetadataTable

/-- The slot of a name in a package. -/
def lookup (t : MetadataTable) (package name : String) : Option SlotId :=
  t.packages.get? package >>= fun names => names.get? name

/-- The first record of a slot. -/
def population? (t : MetadataTable) (slot : SlotId) : Option TypeNode :=
  t.populations.find? (·.slot = slot)

end MetadataTable

end TypeCatalog
