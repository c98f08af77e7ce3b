/-
Programs whose handles and declarations all exist.

`Program.firstProblem?` goes through the types, the declarations and the files
in this order and gives the first reference to something that is not there.
-/
import TypeCatalog.Program.TypeData
import TypeCatalog.SourceFile

namespace TypeCatalog

/-- A reference to something that is not there. -/
inductive ProgramError where
  | danglingType (handle target : Nat)
  | danglingDeclaration (decl target : Nat)
  | unknownDeclaration (file : String) (decl : Nat)
  deriving DecidableEq

namespace ProgramError

/-- The text of a reference to something that is not there. -/
def message : ProgramError → String
  | danglingType handle target =>
    "type #" ++ toString handle ++ " refers to unknown type #" ++ toString target
  | danglingDeclaration decl target =>
    "declaration #" ++ toString decl ++ " refers to unknown type #" ++ toString target
  | unknownDeclaration file decl =>
    "statement in '" ++ file ++ "' refers to unknown declaration #" ++ toString decl

end ProgramError

namespace Statement

mutual

/-- The declarations that a statement names, those in its namespaces included. -/
def declarations : Statement → List DeclId
  | nameSpace _ statements => listDeclarations statements
  | classDeclaration decl _ => [decl]
  | interfaceDeclaration decl _ => [decl]
  | typeAlias decl _ => [decl]
  | other => []

/-- The declarations that some statements name. -/
def listDeclarations : List Statement → List DeclId
  | [] => []
  | statement :: rest => declarations statement ++ listDeclarations rest

end

end Statement

namespace Program

/-- The first type from the given handle on that refers beyond the arena. -/
def danglingType? (size : Nat) : Nat → List TypeData → Option ProgramError
  | _, [] => none
  | handle, data :: rest =>
    match data.handles.find? (size ≤ ·.index) with
    | some target => some (.danglingType handle target.index)
    | none => danglingType? size (handle + 1) rest

/-- The first declaration from the given number on that refers beyond the arena. -/
def danglingDeclaration? (size : Nat) : Nat → List TypeHandle → Option ProgramError
  | _, [] => none
  | decl, target :: rest =>
    if size ≤ target.index then some (.danglingDeclaration decl target.index)
    else danglingDeclaration? size (decl + 1) rest

/-- The first statement that names a declaration that is not there. -/
def unknownDeclaration? (count : Nat) : List SourceFile → Option ProgramError
  | [] => none
  | file :: rest =>
    match (Statement.listDeclarations file.statements).find? (count ≤ ·.index) with
    | some decl => some (.unknownDeclaration file.fileName decl.index)
    | none => unknownDeclaration? count rest

/-- The first reference to something that is not there. -/
def firstProblem? (arena : List TypeData) (declarations : List TypeHandle)
    (files : List SourceFile) : Option ProgramError :=
  danglingType? arena.length 0 arena
    <|> danglingDeclaration? arena.length 0 declarations
    <|> unknownDeclaration? declarations.length files

end Program

end TypeCatalog
