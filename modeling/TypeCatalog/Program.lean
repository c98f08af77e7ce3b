/-
Programs held in memory.

A `Program` is a list of types behind the primitive ones, a list of
declarations and a list of files, in which every handle and every declaration
exists; it keeps the representatives of its types.  `Program.ofParts?` takes
parts together and says what is missing.

`Program.host` answers the questions of the catalogue from the types;
`Program.plainHost` has the default answers for those that have one.
-/
import TypeCatalog.Program.Validation
import TypeCatalog.Program.Canonical

namespace TypeCatalog

/-- A checked program. -/
structure Program where
  /-- The types behind the primitive ones. -/
  types : List TypeData
  declarations : List TypeHandle
  files : List SourceFile
  /-- Every handle with its representative, in order. -/
  representatives : List TypeHandle
  no_problem : Program.firstProblem? (TypeData.intrinsics ++ types) declarations files = none
  representatives_eq : representatives = Canonical.representatives (TypeData.intrinsics ++ types)

namespace Program

/-- The program of some types, declarations and files, unless something is missing. -/
def ofParts? (types : List TypeData) (declarations : List TypeHandle)
    (files : List SourceFile) : Except ProgramError Program :=
  match h : firstProblem? (TypeData.intrinsics ++ types) declarations files with
  | some problem => .error problem
  | none => .ok ⟨types, declarations, files, _, h, rfl⟩

/-- The program without anything of its own. -/
def empty : Program := ⟨[], [], [], _, by decide, rfl⟩

instance : Inhabited Program := ⟨empty⟩

/-- All types, the primitive ones first; a handle is a place in this list. -/
def arena (p : Program) : List TypeData := TypeData.intrinsics ++ p.types

/-- How many types there are. -/
def typeCount (p : Program) : Nat := p.types.length + Intrinsic.count

/-- The type of a handle. -/
def type? (p : Program) (h : TypeHandle) : Option TypeData := p.arena[h.index]?

/-- The shape of a handle's type, if it is an object type. -/
def shape? (p : Program) (h : TypeHandle) : Option ObjectShape := p.type? h >>= TypeData.shape?

/-- The type of a declaration; one that is not there has any type. -/
def resolve (p : Program) (d : DeclId) : TypeHandle :=
  (p.declarations[d.index]?).getD Intrinsic.any.handle

/-- The kind of a type. -/
def kind (p : Program) (h : TypeHandle) : TypeKind :=
  match p.type? h with
  | some data => data.kind
  | none => .unknown ("<missing #" ++ toString h.index ++ ">")

/-- The members of an object type. -/
def members (p : Program) (h : TypeHandle) : List HostMember :=
  match p.shape? h with
  | some shape => shape.members
  | none => []

/-- The static members of a class. -/
def statics (p : Program) (h : TypeHandle) : List HostMember :=
  match p.type? h with
  | some (.object .classForm shape) => shape.statics
  | _ => []

/-- The signatures of an object type; those of a function are all for calls. -/
def signatures (p : Program) (h : TypeHandle) (kind : SignatureKind) : List HostSignature :=
  match p.type? h with
  | some (.function _ signatures) => if kind = .call then signatures else []
  | some (.object _ shape) => shape.signatures kind
  | _ => []

/-- The bases of an object type. -/
def heritage (p : Program) (h : TypeHandle) (kind : HeritageKind) : List TypeHandle :=
  match p.shape? h with
  | some shape => shape.heritage kind
  | none => []

/-- The type parameters of an object type. -/
def typeParameters (p : Program) (h : TypeHandle) : List TypeHandle :=
  match p.shape? h with
  | some shape => shape.typeParameters
  | none => []

/-- The representative of a handle. -/
def canonical (p : Program) (h : TypeHandle) : TypeHandle :=
  (p.representatives[h.index]?).getD h

/-- Whether references to a type are arrays: as the type says, or by its name. -/
def isArrayLike (p : Program) (h : TypeHandle) : Bool :=
  match p.shape? h >>= ObjectShape.arrayLike with
  | some tagged => tagged
  | none => TypeHost.isStandardArray p.kind p.typeParameters h

/-- The name of a type for people. -/
def displayName (p : Program) (h : TypeHandle) : String :=
  (TypeHost.nameWithin p.kind (p.typeCount + 1) h).getD ""

/-- The host that answers from the program. -/
def host (p : Program) : TypeHost where
  resolve := p.resolve
  kind := p.kind
  members := p.members
  statics := p.statics
  signatures := p.signatures
  heritage := p.heritage
  typeParameters := p.typeParameters
  canonical := p.canonical
  isArrayLike := p.isArrayLike
  displayName := p.displayName

/-- The host that gives only the answers it must. -/
def plainHost (p : Program) : TypeHost := p.host.plain (p.typeCount + 1)

end Program

end TypeCatalog
