/-
A pass only ever adds.

`Pass.GrowsTo` relates a pass to its later states, over any number of runs: entries,
records, reports, files and packages of the earlier one stand unchanged in front of
those of the later one, and declarations keep their slots.  Every act of an orderly
pass leads to such a state.  A declaration that is made again is given the slot that
its type has (`Pass.growsTo_assign`), and a file that is taken in touches only
packages below a root of its own (`Growth.startOf_addFiles`).

What this means for the slots, records and declarations of a pass after one more run
is `Pass.keeps_of_run?`.
-/
import TypeCatalog.Proofs.Catalog.Tally
import TypeCatalog.Proofs.Package.Reports

namespace TypeCatalog

namespace PackageTree

variable {t t' t'' : PackageTree}

/-- The packages and files of the first tree stand unchanged in front of those of the second. -/
structure StartOf (t t' : PackageTree) : Prop where
  nodes : t.nodes <+: t'.nodes
  files : t.files <+: t'.files

theorem StartOf.refl (t : PackageTree) : t.StartOf t := ⟨List.prefix_rfl, List.prefix_rfl⟩

theorem StartOf.trans (h : t.StartOf t') (h' : t'.StartOf t'') : t.StartOf t'' :=
  ⟨h.nodes.trans h'.nodes, h.files.trans h'.files⟩

theorem prefix_nodes_of_node_eq (hlen : t.nodes.length ≤ t'.nodes.length)
    (hnode : ∀ x : PackageId, x.index < t.nodes.length → t'.node x = t.node x) :
    t.nodes <+: t'.nodes := by
  refine List.prefix_iff_getElem.mpr ⟨hlen, fun i hi => ?_⟩
  have hi' : i < t'.nodes.length := Nat.lt_of_lt_of_le hi hlen
  have hx := hnode ⟨i⟩ hi
  rw [node, node, List.getElem?_eq_getElem hi, List.getElem?_eq_getElem hi'] at hx
  exact hx.symm

end PackageTree

namespace Growth

variable {g : Growth} {rootDir : Option String} {done : List SourceFile}

theorem startOf_addFile (hf : g.tree.IsForest) (file : SourceFile) :
    g.tree.StartOf (g.addFile file rootDir).2.tree := by
  cases hd : file.isDeclarationFile with
  | true =>
    rw [addFile, if_pos hd]
    exact .refl _
  | false =>
    rw [addFile, if_neg (by simp [hd])]
    obtain ⟨name, hname⟩ : ∃ name, Package.name file.fileName rootDir = name := ⟨_, rfl⟩
    rw [hname]
    have hlen := g.tree.length_withRoot name
    have hf' := hf.withRoot name
    have he : (g.tree.withRoot name).Extends ⟨g.tree.nodes.length⟩ file.statements _ :=
      scan_extends file.statements ⟨g.tree.withRoot name, g.reports⟩ ⟨g.tree.nodes.length⟩ name hf'
        (hlen ▸ Nat.lt_succ_self _)
    refine ⟨PackageTree.prefix_nodes_of_node_eq ?_ fun x hx => ?_, ?_⟩
    · exact Nat.le_trans (hlen ▸ Nat.le_succ _) he.kept.length_le
    · -- an old package is not below the new root, which comes after it
      rw [← g.tree.node_withRoot name]
      refine he.frame x (hlen ▸ Nat.lt_succ_of_lt hx) fun hb => ?_
      exact absurd (hf'.index_le_of_below hb) (Nat.not_le.mpr hx)
    · exact he.files ▸ List.prefix_append g.tree.files _

/-- Files that are taken in leave the packages and the files before them as they are. -/
theorem startOf_addFiles (h : g.tree.Represents rootDir done) (files : List SourceFile) :
    g.tree.StartOf (addFiles rootDir g files).2.tree := by
  induction files generalizing g done with
  | nil => exact .refl _
  | cons file rest ih =>
    exact (startOf_addFile h.forest file).trans (ih (addFile_represents h file).1)

end Growth

namespace Pass

variable {host : TypeHost} {options : CatalogOptions} {p q q' : Pass} {log : Log} {bound : Nat}
  {done files : List SourceFile} {h : TypeHandle} {decl : DeclId}

/-- All that the first pass has is there, in its old order and with its old slots, in the second. -/
structure GrowsTo (p q : Pass) : Prop where
  registry : p.registry.GrowsTo q.registry
  populations : p.populations <+: q.populations
  declared : ∀ {decl slot}, p.declared.get? decl = some slot → q.declared.get? decl = some slot
  reports : p.reports <+: q.reports
  tree : p.tree.StartOf q.tree

theorem GrowsTo.refl (p : Pass) : p.GrowsTo p :=
  ⟨.refl _, List.prefix_rfl, id, List.prefix_rfl, .refl _⟩

theorem GrowsTo.trans (h : p.GrowsTo q) (h' : q.GrowsTo q') : p.GrowsTo q' :=
  ⟨h.registry.trans h'.registry, h.populations.trans h'.populations,
    fun hd => h'.declared (h.declared hd), h.reports.trans h'.reports, h.tree.trans h'.tree⟩

/-! ### The acts -/

theorem growsTo_grow (hrep : p.tree.Represents options.rootDir done) (files : List SourceFile) :
    p.GrowsTo (p.growTree options files).2 := by
  have hstart : (⟨p.tree, p.reports⟩ : Growth).tree.Represents options.rootDir done := hrep
  refine ⟨.refl _, List.prefix_rfl, id, ?_, Growth.startOf_addFiles hstart files⟩
  exact ⟨_, (Growth.reports_addFiles hstart files).symm⟩

theorem growsTo_settle (p : Pass) (slot : SlotId) : p.GrowsTo (p.settle host slot) := by
  obtain he | ⟨e, -, he⟩ := settle_cases host p slot
  · rw [he]
    exact .refl p
  · rw [he]
    exact ⟨Survey.growsTo_ofPositions _ _ _, List.prefix_append _ _, id,
      List.prefix_append _ _, .refl _⟩

/-- A declaration that has a slot is assigned this slot again. -/
theorem growsTo_assign (ho : p.Orderly host log []) {name : Option String} {shape : Shape}
    (hc : host.classify (host.resolve decl) = .shape h name shape) (label : String) :
    p.GrowsTo (p.assign decl label h shape) := by
  refine ⟨p.registry.growsTo_identify h (some label) shape, List.prefix_rfl, ?_,
    List.prefix_rfl, .refl _⟩
  intro decl' slot hd
  show (p.declared.insert decl _).get? decl' = some slot
  rw [OrderedMap.get?_insert]
  split
  · rename_i heq
    subst heq
    -- the slot is that of the declaration's type, and types keep their slots
    obtain ⟨h', name', shape', hc', hl⟩ := ho.declared decl slot hd
    rw [hc] at hc'
    cases hc'
    have hl' := Registry.lookup_of_growsTo (p.registry.growsTo_identify h (some label) shape) hl
    rw [Registry.lookup_identify] at hl'
    exact hl'
  · exact hd

theorem growsTo_declare (ho : p.Orderly host log []) (decl : DeclId) (label : String) :
    p.GrowsTo (p.declare host decl label) := by
  obtain ⟨-, report, he⟩ | ⟨h, name, shape, hc, he⟩ := declare_cases host p decl label
  · rw [he]
    exact ⟨.refl _, List.prefix_rfl, id, List.prefix_append _ _, .refl _⟩
  · rw [he]
    exact (growsTo_assign ho hc label).trans (growsTo_settle _ _)

/-- A run only adds to an orderly pass. -/
theorem GrowsTo.of_run? (ho : p.Orderly host log [])
    (hrep : p.tree.Represents options.rootDir done)
    (hr : p.run? host options bound files = some q) : p.GrowsTo q := by
  have hdeclared := declareAll_induction
    (motive := fun _ log q => q.Orderly host log [] ∧ p.GrowsTo q)
    (p.declarationsOf options files)
    (fun {_ _ _} d _ h => ⟨h.1.declare d.1 d.2, h.2.trans (growsTo_declare h.1 d.1 d.2)⟩)
    ⟨ho.grow files, growsTo_grow hrep files⟩
  refine (drain?_induction (motive := fun log q => q.Orderly host log [] ∧ p.GrowsTo q)
    (fun {_ p' first queue} hpop h => ⟨h.1.work hpop, ?_⟩) hdeclared hr).2
  have htaken : p'.GrowsTo { p' with queue := queue } :=
    ⟨.refl _, List.prefix_rfl, id, List.prefix_rfl, .refl _⟩
  exact (h.2.trans htaken).trans (growsTo_settle _ first.2)

/-- The only record of a slot stays the only one. -/
theorem GrowsTo.record_eq (hg : p.GrowsTo q) (ho : q.Orderly host log []) {n m : TypeNode}
    (hn : n ∈ p.populations) (hm : m ∈ q.populations) (hslot : m.slot = n.slot) : m = n :=
  List.inj_on_of_nodup_map ho.once hm (hg.populations.subset hn) hslot

/-- Whatever a pass has done so far, one more run that comes to its end leaves it as it is:
slots stand for the same types under the same descriptions, no record is changed or made
anew, declarations keep their slots, records, reports and files keep their order, and no
package of an earlier file is touched. -/
theorem keeps_of_run? (host : TypeHost) (options : CatalogOptions) (bound bound' : Nat)
    (runs : List (List SourceFile)) (files : List SourceFile) (p q : Pass)
    (hp : initial.runAll? host options bound runs = some p)
    (hq : p.run? host options bound' files = some q) :
    (∀ slot e, p.registry.entry? slot = some e → q.registry.entry? slot = some e) ∧
    (∀ h slot, p.registry.lookup h = some slot → q.registry.lookup h = some slot) ∧
    (∀ n ∈ p.populations, ∀ m ∈ q.populations, m.slot = n.slot → m = n) ∧
    (∀ decl slot, p.slotOf? decl = some slot → q.slotOf? decl = some slot) ∧
    p.populations <+: q.populations ∧ p.reports <+: q.reports ∧
    p.tree.files <+: q.tree.files ∧ p.tree.nodes <+: q.tree.nodes := by
  have ho := orderly_of_runAll? hp
  have ha : p.Accounts host options.rootDir _ := accounts_initial.runs hp
  have hg := GrowsTo.of_run? ho ha.tree hq
  refine ⟨fun slot e he => ?_, fun h slot hl => ?_, fun n hn m hm hslot => ?_,
    fun decl slot hd => hg.declared hd, hg.populations, hg.reports, hg.tree.files, hg.tree.nodes⟩
  · exact Registry.entry?_of_growsTo hg.registry he
  · exact Registry.lookup_of_growsTo hg.registry hl
  · exact hg.record_eq (ho.run hq) hn hm hslot

end Pass

/-- An interface and a class that refer to each other, and an interface by itself; the second
file declares the first interface again. -/
def Program.redeclaredPair : Program where
  types := [
    .object .interfaceForm
      { ObjectShape.named "A" with members := [⟨"b", .property, ⟨11⟩, false⟩] },
    .object .classForm { ObjectShape.named "B" with members := [⟨"a", .property, ⟨10⟩, true⟩] },
    .object .interfaceForm (ObjectShape.named "C")]
  declarations := [⟨10⟩, ⟨11⟩, ⟨12⟩]
  files := [⟨"a.ts", [.interfaceDeclaration ⟨0⟩ (some "A")], false⟩,
    ⟨"b.ts", [.interfaceDeclaration ⟨0⟩ (some "A"), .classDeclaration ⟨1⟩ (some "B"),
      .interfaceDeclaration ⟨2⟩ (some "C")], false⟩]
  representatives := _
  no_problem := by decide
  representatives_eq := rfl

/-- A second run over the first file and the other one: the first interface keeps its slot
and its record, the class keeps those that it has got by a reference, and the other
interface comes behind them. -/
theorem Pass.keeps_of_second_run :
    ∃ p q, initial.runAll? Program.redeclaredPair.host .default 2
        [Program.redeclaredPair.files.take 1] = some p ∧
      p.run? Program.redeclaredPair.host .default 2 Program.redeclaredPair.files = some q ∧
      p.slotOf? ⟨0⟩ = some ⟨0⟩ ∧ q.slotOf? ⟨0⟩ = some ⟨0⟩ ∧
      p.populations.length = 2 ∧ q.populations.length = 3 ∧ p.populations <+: q.populations ∧
      p.tree.nodes.length = 1 ∧ q.tree.nodes.length = 3 ∧ p.tree.nodes <+: q.tree.nodes := by
  have hruns : ((initial.runAll? Program.redeclaredPair.host .default 2
      [Program.redeclaredPair.files.take 1]).bind fun p =>
        (p.run? Program.redeclaredPair.host .default 2 Program.redeclaredPair.files).map fun q =>
          (p.slotOf? ⟨0⟩, [p.populations.length, q.populations.length,
            p.tree.nodes.length, q.tree.nodes.length]))
      = some (some ⟨0⟩, [2, 3, 1, 3]) := by
    decide +kernel
  obtain ⟨p, hp, hrest⟩ := Option.bind_eq_some_iff.mp hruns
  obtain ⟨q, hq, hcounts⟩ := Option.map_eq_some_iff.mp hrest
  simp only [Prod.mk.injEq, List.cons.injEq, and_true] at hcounts
  obtain ⟨hslot, hold, hnew, holdNodes, hnewNodes⟩ := hcounts
  obtain ⟨-, -, -, hdeclared, hpopulations, -, -, hnodes⟩ := keeps_of_run? _ _ _ _ _ _ _ _ hp hq
  exact ⟨p, q, hp, hq, hslot, hdeclared _ _ hslot, hold, hnew, hpopulations, holdNodes, hnewNodes,
    hnodes⟩

end TypeCatalog
