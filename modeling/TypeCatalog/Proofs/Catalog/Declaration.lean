/-
What is declared stays declared.

`Pass.LeadsTo` relates a pass to its later states within a run: the registry has
grown, the tree is the same, and every declaration that had a slot still has
one.  Declaring types and working off the queue lead on in this way, so at the
end of a run every declaration of its files whose type can be catalogued has a
slot (`Pass.declared_of_mem_declarationsOf`).

The declarations of a first run are those that are left in the tree
(`Pass.mem_declarationsOf`), which represents the files (`Pass.growTree_represents`).
-/
import TypeCatalog.Proofs.Catalog.Population
import TypeCatalog.Proofs.Package.Traversal

namespace TypeCatalog

variable {host : TypeHost}

namespace Survey

theorem growsTo_note (s : Survey) (subject : String) (position : Position) :
    s.registry.GrowsTo (note host subject s position).registry := by
  unfold note
  split
  · exact .refl _
  · exact s.registry.growsTo_identify _ _ _
  · exact .refl _

theorem growsTo_ofPositions (subject : String) (r : Registry) (positions : List Position) :
    r.GrowsTo (ofPositions host subject r positions).registry := by
  unfold ofPositions
  refine List.foldlRecOn (motive := fun s : Survey => r.GrowsTo s.registry) positions _ (.refl r) ?_
  intro s hs position _
  exact hs.trans (s.growsTo_note subject position)

end Survey

namespace Pass

variable {options : CatalogOptions} {p q q' : Pass} {decl : DeclId} {files : List SourceFile}

/-! ### Later states -/

/-- A state of a pass and a later one of the same run. -/
structure LeadsTo (p q : Pass) : Prop where
  registry : p.registry.GrowsTo q.registry
  tree : q.tree = p.tree
  declared : ∀ decl ∈ p.declared.keys, decl ∈ q.declared.keys

theorem LeadsTo.refl (p : Pass) : p.LeadsTo p := ⟨.refl _, rfl, fun _ h => h⟩

theorem LeadsTo.trans (h : p.LeadsTo q) (h' : q.LeadsTo q') : p.LeadsTo q' :=
  ⟨h.registry.trans h'.registry, h'.tree.trans h.tree, fun d hd => h'.declared d (h.declared d hd)⟩

theorem leadsTo_settle (p : Pass) (slot : SlotId) : p.LeadsTo (p.settle host slot) := by
  obtain he | ⟨e, -, he⟩ := settle_cases host p slot
  · rw [he]
    exact .refl p
  · rw [he]
    exact ⟨Survey.growsTo_ofPositions _ _ _, rfl, fun _ h => h⟩

theorem leadsTo_assign (p : Pass) (decl : DeclId) (name : String) (h : TypeHandle)
    (shape : Shape) : p.LeadsTo (p.assign decl name h shape) := by
  refine ⟨p.registry.growsTo_identify h (some name) shape, rfl, fun d hd => ?_⟩
  show d ∈ (p.declared.insert decl _).keys
  rw [OrderedMap.keys_insert]
  split
  · exact hd
  · exact List.mem_append_left _ hd

theorem leadsTo_declare (p : Pass) (decl : DeclId) (name : String) :
    p.LeadsTo (p.declare host decl name) := by
  obtain ⟨-, report, he⟩ | ⟨h, name', shape, -, he⟩ := declare_cases host p decl name
  · rw [he]
    exact ⟨.refl _, rfl, fun _ h => h⟩
  · rw [he]
    exact (p.leadsTo_assign decl name h shape).trans (leadsTo_settle _ _)

theorem leadsTo_declareAll (p : Pass) (declarations : List (DeclId × String)) :
    p.LeadsTo (declarations.foldl (fun p d => p.declare host d.1 d.2) p) := by
  refine List.foldlRecOn (motive := p.LeadsTo) declarations _ (.refl p) ?_
  intro q hq d _
  exact hq.trans (q.leadsTo_declare d.1 d.2)

theorem leadsTo_of_drain? {bound : Nat} (hd : p.drain? host bound = some q) : p.LeadsTo q := by
  refine @drain?_induction host p q (fun _ q => p.LeadsTo q) [] bound ?_ (.refl p) hd
  intro log p' first queue hp h
  have hsame : p'.LeadsTo { p' with queue := queue } := ⟨.refl _, rfl, fun _ h => h⟩
  exact (h.trans hsame).trans (leadsTo_settle _ _)

/-- A declaration whose type can be catalogued has a slot once it is declared. -/
theorem mem_keys_declare {h : TypeHandle} {name : Option String} {shape : Shape}
    (hc : host.classify (host.resolve decl) = .shape h name shape) (label : String) :
    decl ∈ (p.declare host decl label).declared.keys := by
  obtain ⟨hno, -⟩ | ⟨h', name', shape', -, he⟩ := declare_cases host p decl label
  · exact absurd hc (hno h name shape)
  · rw [he]
    refine (leadsTo_settle _ _).declared decl ?_
    exact OrderedMap.mem_keys_iff.mpr ⟨_, by rw [assign, OrderedMap.get?_insert, if_pos rfl]⟩

theorem mem_keys_declareAll {h : TypeHandle} {name : Option String} {shape : Shape}
    (hc : host.classify (host.resolve decl) = .shape h name shape) {label : String}
    {declarations : List (DeclId × String)} (hd : (decl, label) ∈ declarations) :
    decl ∈ (declarations.foldl (fun p d => p.declare host d.1 d.2) p).declared.keys := by
  obtain ⟨before, after, rfl⟩ := List.append_of_mem hd
  rw [List.foldl_append, List.foldl_cons]
  exact (leadsTo_declareAll _ after).declared decl (mem_keys_declare hc label)

/-- At the end of a run, every declaration of its files whose type can be
catalogued has the slot of its type. -/
theorem declared_of_mem_declarationsOf {log : Log} {bound : Nat} {h : TypeHandle}
    {name : Option String} {shape : Shape} {label : String}
    (hr : p.run? host options bound files = some q) (ho : q.Orderly host log [])
    (hd : (decl, label) ∈ p.declarationsOf options files)
    (hc : host.classify (host.resolve decl) = .shape h name shape) :
    ∃ slot, q.declared.get? decl = some slot ∧ q.registry.lookup h = some slot := by
  have hkeys := (leadsTo_of_drain? hr).declared decl (mem_keys_declareAll hc hd)
  obtain ⟨slot, hslot⟩ := OrderedMap.mem_keys_iff.mp hkeys
  obtain ⟨h', name', shape', hc', hl⟩ := ho.declared decl slot hslot
  rw [hc] at hc'
  cases hc'
  exact ⟨slot, hslot, hl⟩

/-- The tree of a run is the one that the files were taken into. -/
theorem tree_of_run? {bound : Nat} (hr : p.run? host options bound files = some q) :
    q.tree = (p.growTree options files).2.tree :=
  ((leadsTo_declareAll _ _).trans (leadsTo_of_drain? hr)).tree

/-! ### A first run -/

/-- The tree of a first run represents its files. -/
theorem growTree_represents (options : CatalogOptions) (files : List SourceFile) :
    (initial.growTree options files).2.tree.Represents options.rootDir
        (SourceFile.packaged files) ∧
      (initial.growTree options files).1
        = (initial.growTree options files).2.tree.files.map FilePackage.root := by
  have hstart : (⟨initial.tree, initial.reports⟩ : Growth).tree.Represents options.rootDir [] :=
    PackageTree.represents_empty _
  obtain ⟨hrep, added, hadded, hroots⟩ := Growth.addFiles_represents hstart files
  refine ⟨hrep, ?_⟩
  rw [growTree]
  show (Growth.addFiles options.rootDir ⟨initial.tree, initial.reports⟩ files).1 = _
  rw [hroots]
  exact (congrArg (List.map FilePackage.root) hadded).symm

/-- The declarations of a first run are those that are left in its tree. -/
theorem mem_declarationsOf {name : String} :
    (decl, name) ∈ initial.declarationsOf options files ↔
      ∃ node ∈ (initial.growTree options files).2.tree.nodes, ∃ kind,
        node.types.get? (name, kind) = some decl := by
  obtain ⟨hrep, hroots⟩ := growTree_represents options files
  rw [declarationsOf, declarationsBelow, hroots]
  generalize (initial.growTree options files).2.tree = t at hrep
  have hentry : ∀ id, (decl, name) ∈ (t.node id).types.entries.map (fun e => (e.2, e.1.1)) ↔
      ∃ kind, (t.node id).types.get? (name, kind) = some decl := by
    intro id
    simp only [OrderedMap.get?_eq_some_iff, List.mem_map, Prod.mk.injEq]
    constructor
    · rintro ⟨⟨⟨name', kind⟩, decl'⟩, he, rfl, rfl⟩
      exact ⟨kind, he⟩
    · rintro ⟨kind, he⟩
      exact ⟨((name, kind), decl), he, rfl, rfl⟩
  simp only [List.mem_flatMap (l := List.flatMap _ _), hentry]
  constructor
  · -- a package that does not exist declares nothing
    rintro ⟨id, -, kind, hk⟩
    rcases Nat.lt_or_ge id.index t.nodes.length with hid | hid
    · refine ⟨t.nodes[id.index], List.getElem_mem hid, kind, ?_⟩
      rw [PackageTree.node, List.getElem?_eq_getElem hid] at hk
      exact hk
    · rw [t.node_of_le hid] at hk
      cases hk
  · rintro ⟨node, hnode, kind, hk⟩
    obtain ⟨n, hn, rfl⟩ := List.mem_iff_getElem.mp hnode
    have hid : (⟨n⟩ : PackageId).index < t.nodes.length := hn
    refine ⟨⟨n⟩, hrep.mem_depthFirst hid, kind, ?_⟩
    rw [PackageTree.node, List.getElem?_eq_getElem hn]
    exact hk

end Pass

end TypeCatalog
