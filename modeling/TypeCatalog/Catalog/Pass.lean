/-
Cataloguing a program.

A `Pass` takes files into the tree of packages, gives every declared type a slot
and a record at once, and then works off the queue of the types that records
refer to.  It only ever adds: slots, records, packages and reports stay as they
are once they are there.

A host may have no end of types, so working off the queue takes a bound, and
`Pass.run?` is `none` when the bound was too small; with a larger bound a pass
that came to its end comes to the same end.
-/
import TypeCatalog.Catalog.Image
import TypeCatalog.Catalog.Queue
import TypeCatalog.Package.Directory

namespace TypeCatalog

/-- The library that is meant when none is named. -/
def defaultLibrary : String := "default"

/-- How a program is to be catalogued. -/
structure CatalogOptions where
  libraryName : String
  packageLayout : PackageLayout
  /-- The directory below which files have their package names. -/
  rootDir : Option String
  deriving DecidableEq

namespace CatalogOptions

/-- The options when nothing is said. -/
def default : CatalogOptions := ⟨defaultLibrary, .nested, none⟩

instance : Inhabited CatalogOptions := ⟨default⟩

end CatalogOptions

namespace Unsupported

/-- The report of a child type that cannot be catalogued; the subject is its place. -/
def report (subject : String) : Unsupported → Diagnostic
  | literal value => .ofNotice .literalType subject [value.display, subject]
  | objectLiteral => .ofNotice .objectLiteralType subject [subject]
  | anonymousClassExpression => .ofNotice .anonymousClassExpression subject [subject]
  | unknown description => .ofNotice .unknownTypeKind subject [description, subject]

end Unsupported

/-- What looking at the child types of one type brings up. -/
structure Survey where
  registry : Registry
  /-- The types that got a slot, in order. -/
  found : List (TypeHandle × SlotId)
  reports : List Diagnostic
  deriving DecidableEq

namespace Survey

/-- Looks at one child type: gives it a slot, or reports why it has none. -/
def note (host : TypeHost) (subject : String) (s : Survey) (position : Position) : Survey :=
  match host.classify position.type with
  | .intrinsic _ => s
  | .shape h name shape =>
    let (allocation, registry) := s.registry.identify h name shape
    { s with
      registry := registry
      found := if allocation.isFresh then s.found ++ [(h, allocation.slot)] else s.found }
  | .unsupported reason =>
    { s with reports := s.reports ++ [reason.report (subject ++ "." ++ position.label)] }

/-- Looks at all child types in order. -/
def ofPositions (host : TypeHost) (subject : String) (registry : Registry)
    (positions : List Position) : Survey :=
  positions.foldl (note host subject) ⟨registry, [], []⟩

end Survey

/-- The state of cataloguing. -/
structure Pass where
  registry : Registry
  queue : DiscoveryQueue
  /-- The records, in the order in which they were made. -/
  populations : List TypeNode
  tree : PackageTree
  declared : OrderedMap DeclId SlotId
  reports : List Diagnostic
  deriving DecidableEq

/-- What comes of cataloguing. -/
structure CatalogOutput where
  table : MetadataTable
  diagnostics : List Diagnostic
  deriving DecidableEq

namespace Pass

/-- Nothing has been catalogued. -/
def initial : Pass := ⟨.empty, .empty, [], .empty, .empty, []⟩

/-- Whether a slot has its record. -/
def isPopulated (p : Pass) (slot : SlotId) : Bool := p.populations.any (·.slot = slot)

/-- The name under which a type is reported. -/
def subject (host : TypeHost) (e : Entry) : String := e.name.getD (host.displayName e.handle)

/-- Makes the record of a slot; its new child types join the queue. -/
def populate (host : TypeHost) (p : Pass) (slot : SlotId) : Pass :=
  match p.registry.entry? slot with
  | none => p
  | some e =>
    -- edges lead to slots, so the child types get theirs before the image is made
    let survey :=
      Survey.ofPositions host (subject host e) p.registry (host.positions e.handle e.shape)
    { p with
      registry := survey.registry
      queue := p.queue.extend survey.found
      populations := p.populations ++ [⟨slot, e.name, host.image survey.registry e.handle e.shape⟩]
      reports := p.reports ++ survey.reports }

/-- The report of a declaration whose type cannot be catalogued. -/
def unreflectable (name what : String) : Diagnostic :=
  .ofNotice .unreflectableDeclaration name [name, what]

/-- Gives the type of a declaration a slot and, if it has none yet, a record. -/
def declare (host : TypeHost) (p : Pass) (decl : DeclId) (name : String) : Pass :=
  match host.classify (host.resolve decl) with
  | .intrinsic k =>
    { p with reports := p.reports ++ [unreflectable name ("intrinsic type '" ++ k.name ++ "'")] }
  | .unsupported reason =>
    { p with reports := p.reports ++ [unreflectable name reason.describe] }
  | .shape h _ shape =>
    -- a type that is declared goes by the name of its declaration
    let (allocation, registry) := p.registry.identify h (some name) shape
    let p := { p with
      registry := registry
      declared := p.declared.insert decl allocation.slot }
    if p.isPopulated allocation.slot then p else populate host p allocation.slot

/-- Works off the queue, taking out at most as many types as the bound allows. -/
def drain? (host : TypeHost) : Nat → Pass → Option Pass
  | bound, p =>
    match p.queue.pop? with
    | none => some p
    | some ((_, slot), queue) =>
      match bound with
      | 0 => none
      | bound + 1 =>
        let p := { p with queue := queue }
        -- a type may have been declared while it waited
        drain? host bound (if p.isPopulated slot then p else populate host p slot)

/-- The declarations of the given packages, depth first, with their names. -/
def declarationsBelow (tree : PackageTree) (roots : List PackageId) : List (DeclId × String) :=
  (roots.flatMap tree.depthFirst).flatMap fun id =>
    (tree.node id).types.entries.map fun e => (e.2, e.1.1)

/-- Takes files into the tree; gives the roots of those that have one. -/
def growTree (options : CatalogOptions) (p : Pass) (files : List SourceFile) :
    List PackageId × Pass :=
  let (roots, growth) := Growth.addFiles options.rootDir ⟨p.tree, p.reports⟩ files
  (roots, { p with tree := growth.tree, reports := growth.reports })

/-- Catalogues files: all into the tree, every declared type, then all that they lead to. -/
def run? (host : TypeHost) (options : CatalogOptions) (bound : Nat) (p : Pass)
    (files : List SourceFile) : Option Pass :=
  let (roots, p) := p.growTree options files
  let p := (declarationsBelow p.tree roots).foldl (fun p d => p.declare host d.1 d.2) p
  p.drain? host bound

/-- Catalogues one list of files after the other. -/
def runAll? (host : TypeHost) (options : CatalogOptions) (bound : Nat) :
    Pass → List (List SourceFile) → Option Pass
  | p, [] => some p
  | p, files :: rest => p.run? host options bound files >>= fun p => runAll? host options bound p rest

/-- The slot of a declaration. -/
def slotOf? (p : Pass) (decl : DeclId) : Option SlotId := p.declared.get? decl

/-- A table with the given records, and all reports, those of its directory last. -/
def emit (library : String) (layout : PackageLayout) (slotCount : Nat) (tree : PackageTree)
    (declared : OrderedMap DeclId SlotId) (populations : List TypeNode)
    (reports : List Diagnostic) : CatalogOutput :=
  let directory := Directory.ofTree layout tree declared
  ⟨⟨library, slotCount, Intrinsic.all, directory.packages, populations⟩,
    reports ++ directory.reports⟩

/-- The table of what has been catalogued. -/
def finish (options : CatalogOptions) (p : Pass) : CatalogOutput :=
  emit options.libraryName options.packageLayout p.registry.size p.tree p.declared
    p.populations p.reports

end Pass

/-- Catalogues files in one run; `none` when the bound was too small. -/
def catalog? (host : TypeHost) (options : CatalogOptions) (bound : Nat)
    (files : List SourceFile) : Option CatalogOutput :=
  (Pass.initial.run? host options bound files).map (Pass.finish options)

end TypeCatalog
