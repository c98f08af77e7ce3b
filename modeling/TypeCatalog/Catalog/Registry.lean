/-
The registry of slots.

A registry gives every handle the next free slot when it first sees it, and the
same slot ever after.  It is the list of its entries; the slot of an entry is
its place.
-/
import TypeCatalog.Catalog.Shape
import TypeCatalog.Node

namespace TypeCatalog

/-- What is known of a type since it has a slot. -/
structure Entry where
  handle : TypeHandle
  name : Option String
  shape : Shape
  deriving DecidableEq

/-- The slots that have been given out. -/
structure Registry where
  entries : List Entry
  deriving DecidableEq

namespace Registry

/-- No slot has been given out. -/
def empty : Registry := ⟨[]⟩

/-- How many slots have been given out. -/
def size (r : Registry) : Nat := r.entries.length

/-- The place of the first entry of a handle, from the given place on. -/
def findFrom (h : TypeHandle) : Nat → List Entry → Option Nat
  | _, [] => none
  | i, e :: rest => if e.handle = h then some i else findFrom h (i + 1) rest

/-- The slot of a handle. -/
def lookup (r : Registry) (h : TypeHandle) : Option SlotId :=
  (findFrom h 0 r.entries).map SlotId.mk

/-- The entry of a slot. -/
def entry? (r : Registry) (s : SlotId) : Option Entry := r.entries[s.index]?

/-- A slot, and whether it has just been given out. -/
structure Allocation where
  slot : SlotId
  isFresh : Bool
  deriving DecidableEq

/-- The slot of a handle; a new handle gets the next slot, with the description. -/
def identify (r : Registry) (h : TypeHandle) (name : Option String) (shape : Shape) :
    Allocation × Registry :=
  match r.lookup h with
  | some slot => (⟨slot, false⟩, r)
  | none => (⟨⟨r.size⟩, true⟩, ⟨r.entries ++ [⟨h, name, shape⟩]⟩)

end Registry

end TypeCatalog
