/-
What the catalogue asks about checked types.

A `TypeHost` is a record of pure answers: the type of a declaration, the kind
of a type, its members, signatures, bases and parameters, its representative
among equal types, whether references to it are arrays, and its name for
people.  Nothing is assumed about the answers.

`TypeHost.withDefaults` fills in the answers that a host need not give: no
static members, every type its own representative, arrays told by their name
and their one parameter, and names found along the targets of references.
-/
import TypeCatalog.Intrinsic
import TypeCatalog.Binary64.Shortest

namespace TypeCatalog

/-- The value of a literal type. -/
inductive Literal where
  | string (value : String)
  | number (value : Binary64)
  | boolean (value : Bool)
  deriving DecidableEq

namespace Literal

/-- How a literal is shown; the text of a string is not escaped. -/
def display : Literal → String
  | string s => "\"" ++ s ++ "\""
  | number x => String.ofList (x.render .display)
  | boolean true => "true"
  | boolean false => "false"

end Literal

/-- The kinds of type that hosts tell apart. -/
inductive TypeKind where
  | intrinsic (kind : Intrinsic)
  | literal (value : Literal)
  | classType (name : Option String)
  | interfaceType (name : Option String)
  | reference (target : TypeHandle) (typeArguments : List TypeHandle)
  | union (types : List TypeHandle)
  | intersection (types : List TypeHandle)
  | tuple (elements : List TypeHandle)
  | function (name : Option String)
  | typeLiteral (name : Option String)
  | objectLiteral
  | classExpression (name : Option String) (instanceType : TypeHandle)
  | typeParameter (name : String) (constraint : Option TypeHandle)
  | unknown (description : String)
  deriving DecidableEq

/-- The ways in which an object type has a member. -/
inductive MemberKind where
  | property
  | method
  | getAccessor
  | setAccessor
  | constructor
  | typeParameter
  deriving DecidableEq

namespace MemberKind

/-- Whether members of this kind belong to the shape of an object. -/
def isReflected : MemberKind → Bool
  | constructor => false
  | typeParameter => false
  | _ => true

end MemberKind

/-- A member as a host declares it. -/
structure HostMember where
  name : String
  kind : MemberKind
  valueType : TypeHandle
  isOptional : Bool
  deriving DecidableEq

/-- A parameter as a host declares it. -/
structure HostParameter where
  name : String
  type : TypeHandle
  isRest : Bool
  isOptional : Bool
  deriving DecidableEq

/-- A signature as a host declares it. -/
structure HostSignature where
  parameters : List HostParameter
  returns : TypeHandle
  typeParameters : List TypeHandle
  deriving DecidableEq

namespace HostSignature

/-- Whether the last parameter takes all arguments that are left. -/
def hasRest (s : HostSignature) : Bool :=
  match s.parameters.getLast? with
  | some p => p.isRest
  | none => false

/-- The types that a signature refers to, in order. -/
def handles (s : HostSignature) : List TypeHandle :=
  s.parameters.map HostParameter.type ++ s.returns :: s.typeParameters

end HostSignature

/-- The kinds of signature that a type may have. -/
inductive SignatureKind where
  | call
  | construct
  | index
  deriving DecidableEq

/-- The clauses in which a type names its bases. -/
inductive HeritageKind where
  | extending
  | implementing
  deriving DecidableEq

/-- Pure answers about checked types. -/
structure TypeHost where
  resolve : DeclId → TypeHandle
  kind : TypeHandle → TypeKind
  members : TypeHandle → List HostMember
  statics : TypeHandle → List HostMember
  signatures : TypeHandle → SignatureKind → List HostSignature
  heritage : TypeHandle → HeritageKind → List TypeHandle
  typeParameters : TypeHandle → List TypeHandle
  canonical : TypeHandle → TypeHandle
  isArrayLike : TypeHandle → Bool
  displayName : TypeHandle → String

namespace TypeKind

/-- The name of a type for people, unless it goes by the name of another type. -/
def ownName (h : TypeHandle) : TypeKind → String ⊕ TypeHandle
  | intrinsic k => .inl k.name
  | literal value => .inl value.display
  | classType name => .inl (named name)
  | interfaceType name => .inl (named name)
  | function name => .inl (named name)
  | typeLiteral name => .inl (named name)
  | classExpression name _ => .inl (named name)
  | typeParameter name _ => .inl name
  | reference target _ => .inr target
  | union _ => .inl "union"
  | intersection _ => .inl "intersection"
  | tuple _ => .inl "tuple"
  | objectLiteral => .inl "\x7b...\x7d"
  | unknown description => .inl description
where
  /-- A name, or the handle in its place. -/
  named : Option String → String
    | some name => name
    | none => "<anonymous #" ++ toString h.index ++ ">"

end TypeKind

namespace TypeHost

/-- The name of a type, following at most as many targets as the bound allows. -/
def nameWithin (kind : TypeHandle → TypeKind) : Nat → TypeHandle → Option String
  | 0, _ => none
  | bound + 1, h =>
    match (kind h).ownName h with
    | .inl name => some name
    | .inr target => nameWithin kind bound target

/-- Names by which arrays are known. -/
def arrayNames : List String := ["Array", "ReadonlyArray"]

/-- Whether a type is a class or an interface with the name of arrays and one parameter. -/
def isStandardArray (kind : TypeHandle → TypeKind) (typeParameters : TypeHandle → List TypeHandle)
    (h : TypeHandle) : Bool :=
  match kind h with
  | .interfaceType (some name) => name ∈ arrayNames && (typeParameters h).length == 1
  | .classType (some name) => name ∈ arrayNames && (typeParameters h).length == 1
  | _ => false

/-- The host that gives only the answers it must; names are looked for along at
most `bound` targets. -/
def withDefaults (bound : Nat) (resolve : DeclId → TypeHandle) (kind : TypeHandle → TypeKind)
    (members : TypeHandle → List HostMember)
    (signatures : TypeHandle → SignatureKind → List HostSignature)
    (heritage : TypeHandle → HeritageKind → List TypeHandle)
    (typeParameters : TypeHandle → List TypeHandle) : TypeHost where
  resolve := resolve
  kind := kind
  members := members
  statics := fun _ => []
  signatures := signatures
  heritage := heritage
  typeParameters := typeParameters
  canonical := id
  isArrayLike := isStandardArray kind typeParameters
  displayName := fun h => (nameWithin kind bound h).getD ""

/-- The same host with the default answers in place of its own. -/
def plain (host : TypeHost) (bound : Nat) : TypeHost :=
  withDefaults bound host.resolve host.kind host.members host.signatures host.heritage
    host.typeParameters

end TypeHost

end TypeCatalog
