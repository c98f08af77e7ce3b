/-
The places in which a type refers to others.

`TypeHost.positions` lists the child types of a shape in the order in which they
are catalogued, each with the label under which it is reported; the order is
that of the edges of the record.
-/
import TypeCatalog.Catalog.Shape

namespace TypeCatalog

/-- A child type in its place. -/
structure Position where
  type : TypeHandle
  label : String
  deriving DecidableEq

namespace Position

/-- Child types that share a label. -/
def labelled (label : String) (types : List TypeHandle) : List Position :=
  types.map fun type => ⟨type, label⟩

/-- The members that belong to the shape of an object. -/
def ofMembers (members : List HostMember) : List Position :=
  (members.filter (·.kind.isReflected)).map fun m => ⟨m.valueType, m.name⟩

/-- The types of a signature: parameters, result and type parameters. -/
def ofSignature (label : String) (s : HostSignature) : List Position :=
  s.parameters.map (fun p => ⟨p.type, label ++ "(" ++ p.name ++ ")"⟩)
    ++ ⟨s.returns, label ++ ":returns"⟩ :: labelled "typeParameters" s.typeParameters

/-- The types of several signatures. -/
def ofSignatures (label : String) (ss : List HostSignature) : List Position :=
  ss.flatMap (ofSignature label)

end Position

namespace TypeHost

open Position

/-- The first base of a class; a class has no other. -/
def base? (host : TypeHost) (h : TypeHandle) : Option TypeHandle :=
  (host.heritage h .extending).head?

/-- The child types that all object types have. -/
def bodyPositions (host : TypeHost) (h : TypeHandle) : List Position :=
  labelled "typeParameters" (host.typeParameters h)
    ++ ofMembers (host.members h)
    ++ ofSignatures "construct" (host.signatures h .construct)
    ++ ofSignatures "call" (host.signatures h .call)
    ++ ofSignatures "index" (host.signatures h .index)

/-- The child types of a shape. -/
def positions (host : TypeHost) (h : TypeHandle) : Shape → List Position
  | .classShape =>
    host.bodyPositions h ++ ofMembers (host.statics h)
      ++ labelled "extends" (host.base? h).toList
      ++ labelled "implements" (host.heritage h .implementing)
  | .interfaceShape =>
    host.bodyPositions h ++ labelled "extends" (host.heritage h .extending)
  | .typeLiteral => host.bodyPositions h
  | .function => ofSignatures "signatures" (host.signatures h .call)
  | .array element => [⟨element, "elementType"⟩]
  | .reference target typeArguments =>
    ⟨target, "type"⟩ :: labelled "typeArguments" typeArguments
  | .union types => labelled "types" types
  | .intersection types => labelled "types" types
  | .tuple elements => labelled "elements" elements
  | .typeParameter constraint => labelled "constraint" constraint.toList
  | .expression instanceType => [⟨instanceType, "type"⟩]

end TypeHost

end TypeCatalog
