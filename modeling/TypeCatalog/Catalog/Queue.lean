/-
Types that have a slot and wait for their record, first come first served.
-/
import TypeCatalog.Node

namespace TypeCatalog

/-- Waiting types with their slots, and how many have ever been put in. -/
structure DiscoveryQueue where
  pending : List (TypeHandle × SlotId)
  pushed : Nat
  deriving DecidableEq

namespace DiscoveryQueue

/-- Nothing waits and nothing ever did. -/
def empty : DiscoveryQueue := ⟨[], 0⟩

/-- How many types wait. -/
def size (q : DiscoveryQueue) : Nat := q.pending.length

/-- Puts a type at the end. -/
def push (q : DiscoveryQueue) (h : TypeHandle) (s : SlotId) : DiscoveryQueue :=
  ⟨q.pending ++ [(h, s)], q.pushed + 1⟩

/-- Puts several types at the end, one after the other. -/
def extend (q : DiscoveryQueue) (found : List (TypeHandle × SlotId)) : DiscoveryQueue :=
  ⟨q.pending ++ found, q.pushed + found.length⟩

/-- Takes the first type out. -/
def pop? (q : DiscoveryQueue) : Option ((TypeHandle × SlotId) × DiscoveryQueue) :=
  match q.pending with
  | [] => none
  | first :: rest => some (first, { q with pending := rest })

end DiscoveryQueue

end TypeCatalog
