/-
Building a program step by step.

A builder collects types, declarations and files.  Types are numbered as they
come; an object type can be filled in later by its handle, so that types may
refer to each other.  A `Scope` is a file or a namespace inside it, given by the
places of the statements that lead to it: statements are only ever added behind
others, so a scope keeps leading to its own namespace.
-/
import TypeCatalog.Program

namespace TypeCatalog

/-- A file, or a namespace in it, to which statements are added. -/
structure Scope where
  file : Nat
  /-- The places of the enclosing namespaces, outermost first. -/
  path : List Nat
  deriving DecidableEq

namespace Statement

/-- The statements at the end of a path of namespaces. -/
def statementsAt? : List Nat → List Statement → Option (List Statement)
  | [], statements => some statements
  | i :: path, statements =>
    match statements[i]? with
    | some (.nameSpace _ inner) => statementsAt? path inner
    | _ => none

/-- Adds a statement at the end of a path of namespaces; a path that leads
nowhere changes nothing. -/
def addAt (statement : Statement) : List Nat → List Statement → List Statement
  | [], statements => statements ++ [statement]
  | i :: path, statements =>
    match statements[i]? with
    | some (.nameSpace name inner) =>
      statements.set i (.nameSpace name (addAt statement path inner))
    | _ => statements

end Statement

/-- A program in the making. -/
structure ProgramBuilder where
  types : List TypeData
  declarations : List TypeHandle
  files : List SourceFile
  /-- The interface of arrays, once it has been asked for. -/
  array : Option TypeHandle

namespace ProgramBuilder

/-- Nothing has been built. -/
def new : ProgramBuilder := ⟨[], [], [], none⟩

/-- The program that has been built. -/
def build (b : ProgramBuilder) : Except ProgramError Program :=
  Program.ofParts? b.types b.declarations b.files

/-! ### Types -/

/-- Adds a type; its handle is the next one. -/
def add (b : ProgramBuilder) (data : TypeData) : TypeHandle × ProgramBuilder :=
  (⟨Intrinsic.count + b.types.length⟩, { b with types := b.types ++ [data] })

/-- Adds a class. -/
def addClass (b : ProgramBuilder) (name : String) : TypeHandle × ProgramBuilder :=
  b.add (.object .classForm (.named name))

/-- Adds an interface. -/
def addInterface (b : ProgramBuilder) (name : String) : TypeHandle × ProgramBuilder :=
  b.add (.object .interfaceForm (.named name))

/-- Adds an object type, as a type literal. -/
def addTypeLiteral (b : ProgramBuilder) (name : Option String) : TypeHandle × ProgramBuilder :=
  b.add (.object .typeLiteral { ObjectShape.empty with name := name })

/-- Adds the type of an object literal. -/
def addObjectLiteral (b : ProgramBuilder) : TypeHandle × ProgramBuilder :=
  b.add (.object .objectLiteral .empty)

/-- Adds a reference. -/
def addReference (b : ProgramBuilder) (target : TypeHandle) (typeArguments : List TypeHandle) :
    TypeHandle × ProgramBuilder :=
  b.add (.reference target typeArguments)

/-- The object type of a handle, if it has been built. -/
def object? (b : ProgramBuilder) (owner : TypeHandle) : Option (ObjectForm × ObjectShape) :=
  if owner.index < Intrinsic.count then none
  else match b.types[owner.index - Intrinsic.count]? with
    | some (.object form shape) => some (form, shape)
    | _ => none

/-- Changes the shape of an object type; other types stay as they are. -/
def editShape (b : ProgramBuilder) (owner : TypeHandle) (f : ObjectShape → ObjectShape) :
    ProgramBuilder :=
  match b.object? owner with
  | some (form, shape) =>
    { b with types := b.types.set (owner.index - Intrinsic.count) (.object form (f shape)) }
  | none => b

/-- The interface of arrays, made when it is first asked for. -/
def arrayInterface (b : ProgramBuilder) : TypeHandle × ProgramBuilder :=
  match b.array with
  | some array => (array, b)
  | none =>
    let (element, b) := b.add (.typeParameter "T" none)
    let (array, b) := b.addInterface "Array"
    let b := b.editShape array fun shape =>
      { shape with typeParameters := shape.typeParameters ++ [element] }
    let b := b.editShape array fun shape =>
      { shape with members := shape.members
          ++ [⟨"length", .property, Intrinsic.number.handle, false⟩] }
    (array, { b with array := some array })

/-- Adds a reference to the interface of arrays. -/
def addArrayOf (b : ProgramBuilder) (element : TypeHandle) : TypeHandle × ProgramBuilder :=
  let (array, b) := b.arrayInterface
  b.addReference array [element]

/-! ### Shapes -/

/-- Adds a member. -/
def addMember (b : ProgramBuilder) (owner : TypeHandle) (member : HostMember) : ProgramBuilder :=
  b.editShape owner fun shape => { shape with members := shape.members ++ [member] }

/-- Adds a property. -/
def addProperty (b : ProgramBuilder) (owner : TypeHandle) (name : String) (type : TypeHandle)
    (isOptional : Bool) : ProgramBuilder :=
  b.addMember owner ⟨name, .property, type, isOptional⟩

/-- Adds a method and the function that is its type. -/
def addMethod (b : ProgramBuilder) (owner : TypeHandle) (name : String)
    (signatures : List HostSignature) : TypeHandle × ProgramBuilder :=
  let (function, b) := b.add (.function (some name) signatures)
  (function, b.addMember owner ⟨name, .method, function, false⟩)

/-- Adds a static property. -/
def addStatic (b : ProgramBuilder) (owner : TypeHandle) (name : String) (type : TypeHandle) :
    ProgramBuilder :=
  b.editShape owner fun shape =>
    { shape with statics := shape.statics ++ [⟨name, .property, type, false⟩] }

/-- Adds a signature of a kind. -/
def addSignature (b : ProgramBuilder) (owner : TypeHandle) (kind : SignatureKind)
    (signature : HostSignature) : ProgramBuilder :=
  b.editShape owner fun shape =>
    match kind with
    | .call => { shape with call := shape.call ++ [signature] }
    | .construct => { shape with construct := shape.construct ++ [signature] }
    | .index => { shape with index := shape.index ++ [signature] }

/-- Adds a base to a clause. -/
def addHeritage (b : ProgramBuilder) (owner : TypeHandle) (kind : HeritageKind)
    (base : TypeHandle) : ProgramBuilder :=
  b.editShape owner fun shape =>
    match kind with
    | .extending => { shape with bases := shape.bases ++ [base] }
    | .implementing => { shape with implemented := shape.implemented ++ [base] }

/-- Adds type parameters. -/
def addTypeParameters (b : ProgramBuilder) (owner : TypeHandle) (parameters : List TypeHandle) :
    ProgramBuilder :=
  b.editShape owner fun shape =>
    { shape with typeParameters := shape.typeParameters ++ parameters }

/-- Says whether references to a type are arrays. -/
def setArrayLike (b : ProgramBuilder) (owner : TypeHandle) (arrayLike : Bool) : ProgramBuilder :=
  b.editShape owner fun shape => { shape with arrayLike := some arrayLike }

/-! ### Declarations -/

/-- Opens a file. -/
def openFile (b : ProgramBuilder) (fileName : String) : Scope × ProgramBuilder :=
  (⟨b.files.length, []⟩, { b with files := b.files ++ [SourceFile.new fileName] })

/-- The statements of a scope. -/
def statements? (b : ProgramBuilder) (scope : Scope) : Option (List Statement) :=
  b.files[scope.file]? >>= fun file => Statement.statementsAt? scope.path file.statements

/-- Adds a statement to a scope. -/
def addStatement (b : ProgramBuilder) (scope : Scope) (statement : Statement) : ProgramBuilder :=
  { b with files := b.files.modify scope.file fun file =>
      { file with statements := statement.addAt scope.path file.statements } }

/-- Opens a namespace inside a scope. -/
def openNamespace (b : ProgramBuilder) (parent : Scope) (name : String) :
    Scope × ProgramBuilder :=
  let place := ((b.statements? parent).getD []).length
  (⟨parent.file, parent.path ++ [place]⟩, b.addStatement parent (.nameSpace name []))

/-- Adds a declaration. -/
def addDeclaration (b : ProgramBuilder) (type : TypeHandle) : DeclId × ProgramBuilder :=
  (⟨b.declarations.length⟩, { b with declarations := b.declarations ++ [type] })

/-- The statement that declares a type under its own name. -/
def statementFor (b : ProgramBuilder) (type : TypeHandle) (decl : DeclId) : Statement :=
  match b.object? type with
  | some (.classForm, shape) => .classDeclaration decl shape.name
  | some (.interfaceForm, shape) => .interfaceDeclaration decl shape.name
  | some (.typeLiteral, shape) => .typeAlias decl (shape.name.getD "")
  | _ => .other

/-- Declares a class, an interface or a type literal under its own name. -/
def declare (b : ProgramBuilder) (scope : Scope) (type : TypeHandle) : DeclId × ProgramBuilder :=
  let (decl, b) := b.addDeclaration type
  (decl, b.addStatement scope (b.statementFor type decl))

/-- Declares a class without a name. -/
def declareUnnamedClass (b : ProgramBuilder) (scope : Scope) (type : TypeHandle) :
    DeclId × ProgramBuilder :=
  let (decl, b) := b.addDeclaration type
  (decl, b.addStatement scope (.classDeclaration decl none))

/-- Declares an alias. -/
def declareAlias (b : ProgramBuilder) (scope : Scope) (name : String) (type : TypeHandle) :
    DeclId × ProgramBuilder :=
  let (decl, b) := b.addDeclaration type
  (decl, b.addStatement scope (.typeAlias decl name))

/-- Adds a statement that declares nothing. -/
def addOther (b : ProgramBuilder) (scope : Scope) : ProgramBuilder := b.addStatement scope .other

end ProgramBuilder

end TypeCatalog
