/-
The names under which a table publishes its records.

Every package has a key in the table: in the nested layout its own, in the flat
layout that of its file.  Packages with the same key share its names, and share
them by the rule of a single package: a class takes the place of an interface
with its name, and of two entries of the same kind the first stays.
-/
import TypeCatalog.Package.Tree
import TypeCatalog.Table

namespace TypeCatalog

/-- How the names of a table are grouped. -/
inductive PackageLayout where
  | nested
  | flat
  deriving DecidableEq

instance : Inhabited PackageLayout := ⟨.nested⟩

namespace PackageLayout

/-- The layouts by their names. -/
def names : List (String × PackageLayout) := [("nested", .nested), ("flat", .flat)]

/-- The name of a layout. -/
def name : PackageLayout → String
  | nested => "nested"
  | flat => "flat"

/-- The key of a package. -/
def key (layout : PackageLayout) (file : FilePackage) (node : PackageNode) : String :=
  match layout with
  | nested =>
    if node.fullName = "" then file.packageName else file.packageName ++ "." ++ node.fullName
  | flat => file.packageName

/-- The name of a type under the key of its package. -/
def entryName (layout : PackageLayout) (node : PackageNode) (name : String) : String :=
  match layout with
  | nested => name
  | flat => node.qualified name

end PackageLayout

/-- A directory in the making. -/
structure Directory where
  packages : OrderedMap String PackageTable
  /-- The kind of every name, by its key and itself. -/
  kinds : OrderedMap (String × String) DeclarationKind
  reports : List Diagnostic
  deriving DecidableEq

namespace Directory

/-- No key and no name. -/
def empty : Directory := ⟨.empty, .empty, []⟩

/-- The names under a key. -/
def names (d : Directory) (key : String) : PackageTable := (d.packages.get? key).getD .empty

/-- Opens a key, if it is new. -/
def openKey (d : Directory) (key : String) : Directory :=
  { d with packages := d.packages.insert key (d.names key) }

/-- Publishes a name under a key. -/
def publish (d : Directory) (key name : String) (kind : DeclarationKind) (slot : SlotId) :
    Directory :=
  match d.kinds.get? (key, name), kind with
  | none, _ =>
    { d with
      packages := d.packages.insert key ((d.names key).insert name slot)
      kinds := d.kinds.insert (key, name) kind }
  -- the class comes last, and not where the interface stood
  | some .interfaceKind, .classKind =>
    { packages := d.packages.insert key (((d.names key).erase name).insert name slot)
      kinds := d.kinds.insert (key, name) .classKind
      reports := d.reports ++ [.shadowed key name] }
  | some .classKind, .interfaceKind =>
    { d with reports := d.reports ++ [.shadowed key name] }
  | some existing, _ =>
    { d with reports := d.reports ++ [.duplicate key name existing] }

/-- Publishes those names of a package whose declarations have a slot. -/
def publishNode (layout : PackageLayout) (declared : OrderedMap DeclId SlotId)
    (file : FilePackage) (d : Directory) (node : PackageNode) : Directory :=
  let key := layout.key file node
  node.types.entries.foldl (fun d (e : (String × DeclarationKind) × DeclId) =>
    match declared.get? e.2 with
    | some slot => d.publish key (layout.entryName node e.1.1) e.1.2 slot
    | none => d) (d.openKey key)

/-- The directory of a tree: files in order, packages depth first. -/
def ofTree (layout : PackageLayout) (tree : PackageTree) (declared : OrderedMap DeclId SlotId) :
    Directory :=
  tree.files.foldl (fun d file =>
    (tree.depthFirst file.root).foldl (fun d id =>
      publishNode layout declared file d (tree.node id)) d) empty

end Directory

end TypeCatalog
