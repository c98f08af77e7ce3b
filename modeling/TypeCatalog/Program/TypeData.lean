/-
The types of a program held in memory.

A program lists its types; the handle of a type is its place behind the
primitive types.  `TypeData.handles` are the handles that a type refers to, in
the order in which they are checked.
-/
import TypeCatalog.TypeHost

namespace TypeCatalog

/-- The four kinds of object type. -/
inductive ObjectForm where
  | classForm
  | interfaceForm
  | typeLiteral
  | objectLiteral
  deriving DecidableEq

/-- What all kinds of object type have. -/
structure ObjectShape where
  name : Option String
  typeParameters : List TypeHandle
  members : List HostMember
  statics : List HostMember
  call : List HostSignature
  construct : List HostSignature
  index : List HostSignature
  bases : List TypeHandle
  implemented : List TypeHandle
  /-- Says whether references to the type are arrays, whatever its name is. -/
  arrayLike : Option Bool
  deriving DecidableEq

namespace ObjectShape

/-- The shape without anything in it. -/
def empty : ObjectShape := ⟨none, [], [], [], [], [], [], [], [], none⟩

instance : Inhabited ObjectShape := ⟨empty⟩

/-- The shape of a type that has only a name. -/
def named (name : String) : ObjectShape := { empty with name := some name }

/-- The signatures of a kind. -/
def signatures (shape : ObjectShape) : SignatureKind → List HostSignature
  | .call => shape.call
  | .construct => shape.construct
  | .index => shape.index

/-- The bases named in a clause. -/
def heritage (shape : ObjectShape) : HeritageKind → List TypeHandle
  | .extending => shape.bases
  | .implementing => shape.implemented

/-- The handles that a shape refers to. -/
def handles (shape : ObjectShape) : List TypeHandle :=
  shape.typeParameters
    ++ (shape.members ++ shape.statics).map HostMember.valueType
    ++ (shape.call ++ shape.construct ++ shape.index).flatMap HostSignature.handles
    ++ shape.bases ++ shape.implemented

end ObjectShape

/-- A type of a program. -/
inductive TypeData where
  | intrinsic (kind : Intrinsic)
  | literal (value : Literal)
  | object (form : ObjectForm) (shape : ObjectShape)
  | reference (target : TypeHandle) (typeArguments : List TypeHandle)
  | union (types : List TypeHandle)
  | intersection (types : List TypeHandle)
  | tuple (elements : List TypeHandle)
  | function (name : Option String) (signatures : List HostSignature)
  | classExpression (name : Option String) (instanceType : TypeHandle)
  | typeParameter (name : String) (constraint : Option TypeHandle)
  | unmodelled (description : String)
  deriving DecidableEq

namespace TypeData

instance : Inhabited TypeData := ⟨.intrinsic .any⟩

/-- The shape of an object type. -/
def shape? : TypeData → Option ObjectShape
  | object _ shape => some shape
  | _ => none

/-- The handles that a type refers to, in every position. -/
def handles : TypeData → List TypeHandle
  | intrinsic _ => []
  | literal _ => []
  | object _ shape => shape.handles
  | reference target typeArguments => target :: typeArguments
  | union types => types
  | intersection types => types
  | tuple elements => elements
  | function _ signatures => signatures.flatMap HostSignature.handles
  | classExpression _ instanceType => [instanceType]
  | typeParameter _ constraint => constraint.toList
  | unmodelled _ => []

/-- The kind of a type, as hosts tell kinds apart. -/
def kind : TypeData → TypeKind
  | intrinsic k => .intrinsic k
  | literal value => .literal value
  | object .classForm shape => .classType shape.name
  | object .interfaceForm shape => .interfaceType shape.name
  | object .typeLiteral shape => .typeLiteral shape.name
  | object .objectLiteral _ => .objectLiteral
  | reference target typeArguments => .reference target typeArguments
  | union types => .union types
  | intersection types => .intersection types
  | tuple elements => .tuple elements
  | function name _ => .function name
  | classExpression name instanceType => .classExpression name instanceType
  | typeParameter name constraint => .typeParameter name constraint
  | unmodelled description => .unknown description

/-- The primitive types, which every program has before its own. -/
def intrinsics : List TypeData := Intrinsic.all.map intrinsic

end TypeData

end TypeCatalog
