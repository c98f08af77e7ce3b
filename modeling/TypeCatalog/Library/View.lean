/-
Walking through a library.

A `TypeView` is a record together with its library; edges are followed by
`TypeView.resolve?`.  Every edge of a loaded table leads to a record.
-/
import TypeCatalog.Library

namespace TypeCatalog

/-- A record in its library. -/
structure TypeView where
  library : Library
  node : TypeNode
  deriving DecidableEq

/-- What an edge leads to. -/
inductive ResolvedType where
  | intrinsic (kind : Intrinsic)
  | type (view : TypeView)
  deriving DecidableEq

namespace ResolvedType

/-- The name of what an edge leads to. -/
def name? : ResolvedType → Option String
  | intrinsic k => some k.name
  | type view => view.node.name

/-- The slot of what an edge leads to. -/
def slot? : ResolvedType → Option SlotId
  | intrinsic _ => none
  | type view => some view.node.slot

/-- The record that an edge leads to. -/
def type? : ResolvedType → Option TypeView
  | intrinsic _ => none
  | type view => some view

end ResolvedType

namespace Library

/-- The record of a slot, in its library. -/
def typeAt? (l : Library) (slot : SlotId) : Option TypeView := (l.node? slot).map (TypeView.mk l)

end Library

namespace TypeView

/-- Follows an edge. -/
def resolve? (v : TypeView) : TypeRef → Option ResolvedType
  | .intrinsic k => some (.intrinsic k)
  | .slot slot => (v.library.typeAt? slot).map ResolvedType.type

/-- The members of an object type. -/
def members (v : TypeView) : List Member :=
  match v.node.kind.body? with
  | some body => body.members
  | none => []

/-- The first member of a name. -/
def member? (v : TypeView) (name : String) : Option Member := v.members.find? (·.name == name)

/-- The signatures with which an object type is constructed. -/
def constructSignatures (v : TypeView) : List Signature :=
  match v.node.kind.body? with
  | some body => body.construct
  | none => []

/-- The signatures with which an object type or a function is called. -/
def callSignatures (v : TypeView) : List Signature :=
  match v.node.kind with
  | .function signatures => signatures
  | kind =>
    match kind.body? with
    | some body => body.call
    | none => []

/-- The signatures with which an object type is indexed. -/
def indexSignatures (v : TypeView) : List Signature :=
  match v.node.kind.body? with
  | some body => body.index
  | none => []

/-- The type parameters of an object type. -/
def typeParameters (v : TypeView) : List TypeRef :=
  match v.node.kind.body? with
  | some body => body.typeParameters
  | none => []

/-- The base of a class. -/
def base? (v : TypeView) : Option TypeRef :=
  match v.node.kind with
  | .classNode _ _ base _ => base
  | _ => none

/-- The interfaces that a class implements. -/
def implemented (v : TypeView) : List TypeRef :=
  match v.node.kind with
  | .classNode _ _ _ implemented => implemented
  | _ => []

/-- The static members of a class. -/
def statics (v : TypeView) : List Member :=
  match v.node.kind with
  | .classNode _ statics _ _ => statics
  | _ => []

/-- The bases of an interface. -/
def bases (v : TypeView) : List TypeRef :=
  match v.node.kind with
  | .interfaceNode _ bases => bases
  | _ => []

/-- The constructor that the class is bound to. -/
def constructor? (v : TypeView) : Option Constructor := v.library.constructorOf? v.node.slot

end TypeView

end TypeCatalog
