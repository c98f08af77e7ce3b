/-
The tree of packages.

Every source file has a root package, and every namespace a package inside the
one around it; a namespace that is opened again is the same package.  Packages
are numbered as they come and know their parents and children.

A package keeps the classes and interfaces that can be found by name:

* of two declarations with the same name and kind the first stays;
* a class takes the place of an interface with its name, and comes last;
* an interface does not come in beside a class with its name.

What is not kept is reported.
-/
import TypeCatalog.SourceFile
import TypeCatalog.OrderedMap
import TypeCatalog.Diagnostic
import TypeCatalog.Identifier
import TypeCatalog.Package.Name

namespace TypeCatalog

/-- The number of a package. -/
structure PackageId where
  index : Nat
  deriving DecidableEq

instance : Inhabited PackageId := ⟨⟨0⟩⟩

/-- A package. -/
structure PackageNode where
  /-- The name of the namespace; the root of a file has none. -/
  name : Option String
  /-- The names from the root of the file down to here, with dots between them. -/
  fullName : String
  parent : Option PackageId
  children : OrderedMap String PackageId
  types : OrderedMap (String × DeclarationKind) DeclId
  deriving DecidableEq

namespace PackageNode

/-- The root package of a file. -/
def root : PackageNode := ⟨none, "", none, .empty, .empty⟩

instance : Inhabited PackageNode := ⟨root⟩

/-- A name inside the package, as seen from the root of the file. -/
def qualified (node : PackageNode) (name : String) : String :=
  if node.fullName = "" then name else node.fullName ++ "." ++ name

end PackageNode

/-- The root package of a file, and the name it goes by. -/
structure FilePackage where
  packageName : String
  root : PackageId
  deriving DecidableEq

/-- All packages in the order of their numbers, and the files in the order in which they came. -/
structure PackageTree where
  nodes : List PackageNode
  files : List FilePackage
  deriving DecidableEq

namespace PackageTree

/-- No package. -/
def empty : PackageTree := ⟨[], []⟩

/-- The package of a number. -/
def node (t : PackageTree) (id : PackageId) : PackageNode := (t.nodes[id.index]?).getD .root

/-- Changes one package. -/
def modify (t : PackageTree) (id : PackageId) (f : PackageNode → PackageNode) : PackageTree :=
  { t with nodes := t.nodes.modify id.index f }

/-- Adds a package; its number is the next one. -/
def add (t : PackageTree) (node : PackageNode) : PackageId × PackageTree :=
  (⟨t.nodes.length⟩, { t with nodes := t.nodes ++ [node] })

/-- The names from a package up to its root, at most as many as the bound. -/
def pathUpTo (t : PackageTree) : Nat → PackageId → List String
  | 0, _ => []
  | bound + 1, id =>
    (t.node id).name.toList ++
      match (t.node id).parent with
      | some parent => pathUpTo t bound parent
      | none => []

/-- The names from the root of the file down to a package. -/
def path (t : PackageTree) (id : PackageId) : List String :=
  (t.pathUpTo (id.index + 1) id).reverse

/-- Visits the packages on a stack and everything below them, at most as many as the bound. -/
def visit (t : PackageTree) : Nat → List PackageId → List PackageId
  | 0, _ => []
  | _ + 1, [] => []
  | bound + 1, id :: stack => id :: visit t bound ((t.node id).children.values ++ stack)

/-- A package and all below it: each before its children, those in the order in
which they were opened. -/
def depthFirst (t : PackageTree) (root : PackageId) : List PackageId :=
  t.visit t.nodes.length [root]

/-- The package of a namespace inside another one, opened if it is new. -/
def child (t : PackageTree) (parent : PackageId) (name : String) : PackageId × PackageTree :=
  match (t.node parent).children.get? name with
  | some existing => (existing, t)
  | none =>
    let (id, grown) :=
      t.add ⟨some name, (t.node parent).qualified name, some parent, .empty, .empty⟩
    (id, grown.modify parent fun node => { node with children := node.children.insert name id })

end PackageTree

namespace Diagnostic

/-- An interface gives way to a class of its name. -/
def shadowed (package name : String) : Diagnostic :=
  .ofNotice .shadowedInterface (package ++ "#" ++ name) [name, package]

/-- A second declaration of the same kind and name. -/
def duplicate (package name : String) (kind : DeclarationKind) : Diagnostic :=
  .ofNotice .duplicateDeclaration (package ++ "#" ++ name) [kind.name, name, package]

/-- A declaration without a name. -/
def unnamed (package : String) (kind : DeclarationKind) : Diagnostic :=
  .ofNotice .unnamedDeclaration package [kind.name, package]

end Diagnostic

namespace Package

/-- What a declaration does to the names of its package, and what is reported of it. -/
def registerName (types : OrderedMap (String × DeclarationKind) DeclId) (label name : String)
    (kind : DeclarationKind) (decl : DeclId) :
    OrderedMap (String × DeclarationKind) DeclId × List Diagnostic :=
  if types.contains (name, kind) then (types, [.duplicate label name kind])
  else
    match kind with
    | .classKind =>
      if types.contains (name, .interfaceKind) then
        -- the class comes last, and not where the interface stood
        ((types.erase (name, .interfaceKind)).insert (name, kind) decl, [.shadowed label name])
      else (types.insert (name, kind) decl, [])
    | .interfaceKind =>
      if types.contains (name, .classKind) then (types, [.shadowed label name])
      else (types.insert (name, kind) decl, [])

end Package

/-- A tree that grows, and what has been reported on the way. -/
structure Growth where
  tree : PackageTree
  reports : List Diagnostic
  deriving DecidableEq

namespace Growth

/-- Takes a declaration into a package. -/
def register (g : Growth) (package : PackageId) (label : String) (name : Option String)
    (kind : DeclarationKind) (decl : DeclId) : Growth :=
  match name with
  | none => { g with reports := g.reports ++ [.unnamed label kind] }
  | some name =>
    let (types, reports) :=
      Package.registerName (g.tree.node package).types label name kind decl
    ⟨g.tree.modify package fun node => { node with types := types }, g.reports ++ reports⟩

mutual

/-- Takes a statement into a package. -/
def scanStatement (g : Growth) (package : PackageId) (label : String) : Statement → Growth
  | .nameSpace name statements =>
    let name := Identifier.sanitize name
    let (child, tree) := g.tree.child package name
    scan { g with tree := tree } child (label ++ "." ++ name) statements
  | .classDeclaration decl name => g.register package label name .classKind decl
  | .interfaceDeclaration decl name => g.register package label name .interfaceKind decl
  | .typeAlias _ _ => g
  | .other => g

/-- Takes statements into a package, one after the other. -/
def scan (g : Growth) (package : PackageId) (label : String) : List Statement → Growth
  | [] => g
  | statement :: rest => scan (scanStatement g package label statement) package label rest

end

/-- Takes a file in; a declaration file has no package. -/
def addFile (g : Growth) (file : SourceFile) (rootDir : Option String) :
    Option PackageId × Growth :=
  if file.isDeclarationFile then (none, g)
  else
    let packageName := Package.name file.fileName rootDir
    let (root, tree) := g.tree.add .root
    let tree := { tree with files := tree.files ++ [⟨packageName, root⟩] }
    (some root, scan { g with tree := tree } root packageName file.statements)

/-- Takes files in and gives the roots of those that have one. -/
def addFiles (rootDir : Option String) : Growth → List SourceFile → List PackageId × Growth
  | g, [] => ([], g)
  | g, file :: rest =>
    let (root, g) := g.addFile file rootDir
    let (roots, g) := addFiles rootDir g rest
    (root.toList ++ roots, g)

end Growth

end TypeCatalog
