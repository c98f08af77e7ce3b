/-
One handle for equal structural types.

References, unions, intersections and tuples that are built alike from equal
parts share one representative; every other type stands for itself, and a
primitive type for the handle kept for it.

`Canonical.resolve` finds the representative of a handle by first resolving its
parts, and asks a table for the first handle that was built from the same parts
in the same way.  A structural type that is met inside itself is answered by
its own handle while it is still open.
-/
import TypeCatalog.Program.TypeData
import TypeCatalog.OrderedMap

namespace TypeCatalog

/-- The ways of building a type from parts, where the parts alone tell equal types. -/
inductive Composition where
  | reference
  | union
  | intersection
  | tuple
  deriving DecidableEq

/-- How a structural type is built, and its parts; the target of a reference
comes before its arguments. -/
def TypeData.composition? : TypeData → Option (Composition × List TypeHandle)
  | .reference target typeArguments => some (.reference, target :: typeArguments)
  | .union types => some (.union, types)
  | .intersection types => some (.intersection, types)
  | .tuple elements => some (.tuple, elements)
  | _ => none

namespace Canonical

/-- What is known while representatives are looked for. -/
structure State where
  /-- Handles with their representatives. -/
  settled : OrderedMap TypeHandle TypeHandle
  /-- Handles that are being resolved. -/
  opened : List TypeHandle
  /-- The first handle of every way of building, with its parts. -/
  interned : OrderedMap (Composition × List TypeHandle) TypeHandle

/-- Nothing is known. -/
def State.initial : State := ⟨.empty, [], .empty⟩

/-- The representative of a way of building: the first handle that came with it. -/
def intern (s : State) (key : Composition × List TypeHandle) (h : TypeHandle) :
    TypeHandle × State :=
  match s.interned.get? key with
  | some first => (first, s)
  | none => (h, { s with interned := s.interned.insert key h })

/-- Resolves parts from left to right. -/
def resolveParts (resolve : State → TypeHandle → TypeHandle × State) (s : State) :
    List TypeHandle → List TypeHandle × State
  | [] => ([], s)
  | part :: rest =>
    let (first, s) := resolve s part
    let (others, s) := resolveParts resolve s rest
    (first :: others, s)

/-- The representative of a handle, descending at most as deep as the bound. -/
def resolve (arena : List TypeData) : Nat → State → TypeHandle → TypeHandle × State
  | 0, s, h => (h, s)
  | bound + 1, s, h =>
    match s.settled.get? h with
    | some representative => (representative, s)
    | none =>
      -- a type that is met inside itself stands for itself there, and is not settled yet
      if h ∈ s.opened then (h, s)
      else
        let (representative, s) :=
          match arena[h.index]? with
          | some (.intrinsic k) => (k.handle, { s with opened := h :: s.opened })
          | some data =>
            match data.composition? with
            | none => (h, { s with opened := h :: s.opened })
            | some (composition, parts) =>
              let (parts, s) :=
                resolveParts (resolve arena bound) { s with opened := h :: s.opened } parts
              intern s (composition, parts) h
          | none => (h, { s with opened := h :: s.opened })
        (representative, { s with
          opened := s.opened.erase h
          settled := s.settled.insert h representative })

/-- Resolves every handle of the arena in turn. -/
def resolveAll (arena : List TypeData) : State :=
  (List.range arena.length).foldl
    (fun s i => (resolve arena (arena.length + 1) s ⟨i⟩).2) State.initial

/-- The representatives of all handles, in order. -/
def representatives (arena : List TypeData) : List TypeHandle :=
  let settled := (resolveAll arena).settled
  (List.range arena.length).map fun i => (settled.get? ⟨i⟩).getD ⟨i⟩

end Canonical

end TypeCatalog
