/-
Records of types.

A `TypeNode` is what a catalogue says about one type.  It never holds another
record: every edge is a `TypeRef`, the slot of a record or a primitive type, so
that cyclic types are plain data.

`TypeNode.edges` lists the edges of a record in the order of its fields.
-/
import TypeCatalog.Intrinsic

namespace TypeCatalog

/-- The number of a type's record. -/
structure SlotId where
  index : Nat
  deriving DecidableEq

instance : Inhabited SlotId := ⟨⟨0⟩⟩

namespace SlotId

/-- How a slot is shown. -/
def display (s : SlotId) : String := "#" ++ toString s.index

end SlotId

/-- An edge to another type. -/
inductive TypeRef where
  | intrinsic (kind : Intrinsic)
  | slot (slot : SlotId)
  deriving DecidableEq

namespace TypeRef

/-- What stands in a place that must not be empty and has nothing to refer to. -/
def any : TypeRef := .intrinsic .any

/-- The slot of an edge that leads to a record. -/
def slot? : TypeRef → Option SlotId
  | slot s => some s
  | intrinsic _ => none

end TypeRef

/-- A member of an object type. -/
structure Member where
  name : String
  type : TypeRef
  isOptional : Bool
  deriving DecidableEq

/-- A parameter of a signature. -/
structure Parameter where
  name : String
  type : TypeRef
  deriving DecidableEq

/-- A signature. -/
structure Signature where
  /-- How many parameters there are before one that takes all that are left. -/
  length : Nat
  parameters : List Parameter
  hasRest : Bool
  returns : TypeRef
  typeParameters : List TypeRef
  deriving DecidableEq

namespace Signature

/-- The edges of a signature. -/
def edges (s : Signature) : List TypeRef :=
  s.parameters.map Parameter.type ++ s.returns :: s.typeParameters

end Signature

/-- What classes, interfaces and type literals have in common. -/
structure ObjectBody where
  typeParameters : List TypeRef
  members : List Member
  construct : List Signature
  call : List Signature
  index : List Signature
  deriving DecidableEq

namespace ObjectBody

/-- A body without anything in it. -/
def empty : ObjectBody := ⟨[], [], [], [], []⟩

instance : Inhabited ObjectBody := ⟨empty⟩

/-- The edges of a body. -/
def edges (b : ObjectBody) : List TypeRef :=
  b.typeParameters ++ b.members.map Member.type
    ++ (b.construct ++ b.call ++ b.index).flatMap Signature.edges

end ObjectBody

/-- The kinds of record, each with its fields. -/
inductive NodeKind where
  | classNode (body : ObjectBody) (statics : List Member) (base : Option TypeRef)
    (implemented : List TypeRef)
  | interfaceNode (body : ObjectBody) (bases : List TypeRef)
  | array (elementType : TypeRef)
  | reference (target : TypeRef) (typeArguments : List TypeRef)
  | union (types : List TypeRef)
  | intersection (types : List TypeRef)
  | tuple (elements : List TypeRef)
  | function (signatures : List Signature)
  | typeLiteral (body : ObjectBody)
  | typeParameter (constraint : Option TypeRef)
  | expression (target : TypeRef)
  deriving DecidableEq

namespace NodeKind

/-- The word for a kind of record. -/
def tag : NodeKind → String
  | classNode _ _ _ _ => "class"
  | interfaceNode _ _ => "interface"
  | array _ => "array"
  | reference _ _ => "reference"
  | union _ => "union"
  | intersection _ => "intersection"
  | tuple _ => "tuple"
  | function _ => "function"
  | typeLiteral _ => "typeLiteral"
  | typeParameter _ => "typeParameter"
  | expression _ => "expression"

/-- The body of an object type. -/
def body? : NodeKind → Option ObjectBody
  | classNode body _ _ _ => some body
  | interfaceNode body _ => some body
  | typeLiteral body => some body
  | _ => none

/-- Whether this is a class. -/
def isClass : NodeKind → Bool
  | classNode _ _ _ _ => true
  | _ => false

/-- Whether this is an interface. -/
def isInterface : NodeKind → Bool
  | interfaceNode _ _ => true
  | _ => false

/-- The edges of a record, in the order of its fields. -/
def edges : NodeKind → List TypeRef
  | classNode body statics base implemented =>
    body.edges ++ statics.map Member.type ++ base.toList ++ implemented
  | interfaceNode body bases => body.edges ++ bases
  | array elementType => [elementType]
  | reference target typeArguments => target :: typeArguments
  | union types => types
  | intersection types => types
  | tuple elements => elements
  | function signatures => signatures.flatMap Signature.edges
  | typeLiteral body => body.edges
  | typeParameter constraint => constraint.toList
  | expression target => [target]

end NodeKind

/-- The record of one type. -/
structure TypeNode where
  slot : SlotId
  name : Option String
  kind : NodeKind
  deriving DecidableEq

namespace TypeNode

/-- Every outgoing edge, in the order of the fields. -/
def edges (n : TypeNode) : List TypeRef := n.kind.edges

/-- The slots that the record leads to. -/
def slotRefs (n : TypeNode) : List SlotId := n.edges.filterMap TypeRef.slot?

end TypeNode

end TypeCatalog
