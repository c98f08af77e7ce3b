/-
The record of a type under a registry.

An image refers to every child type by the slot that the registry has for it.
A child that cannot be catalogued is left out of a list or an optional place;
in a place that must not be empty, `any` stands for it.
-/
import TypeCatalog.Catalog.Position
import TypeCatalog.Catalog.Registry

namespace TypeCatalog

/-- The parameters of a signature can be counted in the 32 bits that tables have for it. -/
def HostSignature.FitsWord (s : HostSignature) : Prop := s.parameters.length < Nat.pow 2 32

instance HostSignature.decidableFitsWord (s : HostSignature) : Decidable s.FitsWord :=
  inferInstanceAs (Decidable (_ < _))

namespace TypeHost

variable (host : TypeHost) (registry : Registry)

/-- The edge to a child type, if it can be catalogued. -/
def edge? (type : TypeHandle) : Option TypeRef :=
  match host.classify type with
  | .intrinsic k => some (.intrinsic k)
  | .shape h _ _ => (registry.lookup h).map TypeRef.slot
  | .unsupported _ => none

/-- The edge to a child type in a place that must not be empty. -/
def requiredEdge (type : TypeHandle) : TypeRef := (host.edge? registry type).getD .any

/-- The edges to those types of a list that can be catalogued. -/
def edgeList (types : List TypeHandle) : List TypeRef :=
  types.filterMap (host.edge? registry)

/-- The members of an object's shape whose types can be catalogued. -/
def memberImages (members : List HostMember) : List Member :=
  (members.filter (·.kind.isReflected)).filterMap fun m =>
    (host.edge? registry m.valueType).map fun type => ⟨m.name, type, m.isOptional⟩

/-- A signature; all of its parameters are kept.  They are counted without a bound here, which
is what they are counted in a word as long as it holds their number (`HostSignature.FitsWord`). -/
def signatureImage (s : HostSignature) : Signature where
  length := s.parameters.length - (if s.hasRest then 1 else 0)
  parameters := s.parameters.map fun p => ⟨p.name, host.requiredEdge registry p.type⟩
  hasRest := s.hasRest
  returns := host.requiredEdge registry s.returns
  typeParameters := host.edgeList registry s.typeParameters

/-- The signatures of a kind. -/
def signatureImages (h : TypeHandle) (kind : SignatureKind) : List Signature :=
  (host.signatures h kind).map (host.signatureImage registry)

/-- What all object types have. -/
def bodyImage (h : TypeHandle) : ObjectBody where
  typeParameters := host.edgeList registry (host.typeParameters h)
  members := host.memberImages registry (host.members h)
  construct := host.signatureImages registry h .construct
  call := host.signatureImages registry h .call
  index := host.signatureImages registry h .index

/-- The record of a type with the given shape, but for its slot and its name. -/
def image (h : TypeHandle) : Shape → NodeKind
  | .classShape =>
    .classNode (host.bodyImage registry h) (host.memberImages registry (host.statics h))
      ((host.base? h).bind (host.edge? registry))
      (host.edgeList registry (host.heritage h .implementing))
  | .interfaceShape =>
    .interfaceNode (host.bodyImage registry h)
      (host.edgeList registry (host.heritage h .extending))
  | .typeLiteral => .typeLiteral (host.bodyImage registry h)
  | .function => .function (host.signatureImages registry h .call)
  | .array element => .array (host.requiredEdge registry element)
  | .reference target typeArguments =>
    .reference (host.requiredEdge registry target) (host.edgeList registry typeArguments)
  | .union types => .union (host.edgeList registry types)
  | .intersection types => .intersection (host.edgeList registry types)
  | .tuple elements => .tuple (host.edgeList registry elements)
  | .typeParameter constraint => .typeParameter (constraint.bind (host.edge? registry))
  | .expression instanceType => .expression (host.requiredEdge registry instanceType)

end TypeHost

end TypeCatalog
