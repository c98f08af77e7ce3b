/-
No declaration disappears silently.

Over any sequence of runs, the classes and interfaces in the statements of the
files, on all levels, are as many as the names in the table and the reports of
omissions together (`Pass.declarationCount_eq`).

There are two accounts.  The tree has kept or reported every declaration when a
run has taken its files in (`Growth.tally_addFiles`).  Each name in the tree is
declared once, in the run of its file, and is reported then if its type cannot be
catalogued; all other names have slots when the table is made, and the directory
keeps or reports them (`Directory.tally_ofTree`).  `Pass.Accounts` says both of
what has been run so far.
-/
import TypeCatalog.Proofs.Catalog.Complete
import TypeCatalog.Proofs.Catalog.Declaration
import TypeCatalog.Proofs.Package.Tally

namespace TypeCatalog

open Diagnostic Statement

variable {host : TypeHost}

/-- Whether the type of a declaration can be catalogued. -/
def TypeHost.reflects (host : TypeHost) (decl : DeclId) : Bool :=
  match host.classify (host.resolve decl) with
  | .shape _ _ _ => true
  | _ => false

theorem TypeHost.reflects_iff {decl : DeclId} :
    host.reflects decl = true ↔
      ∃ h name shape, host.classify (host.resolve decl) = .shape h name shape := by
  unfold reflects
  cases host.classify (host.resolve decl) <;> simp

/-- Child types that are left out are reported as such, and are no declarations. -/
theorem Survey.omissions_ofPositions (subject : String) (r : Registry)
    (positions : List Position) :
    omissions (ofPositions host subject r positions).reports = 0 := by
  unfold ofPositions
  refine List.foldlRecOn (motive := fun s : Survey => omissions s.reports = 0) positions _ rfl ?_
  intro s hs position _
  unfold note
  split
  · exact hs
  · exact hs
  · rename_i reason _
    show omissions (s.reports ++ [reason.report _]) = 0
    have hreport : ∀ subject, omissions [reason.report subject] = 0 := by
      intro subject
      cases reason <;>
        simp [omissions, Unsupported.report, isOmission_ofNotice, Notice.code]
    rw [omissions_append, hs, hreport]

namespace Pass

variable {options : CatalogOptions} {p q : Pass} {bound : Nat} {log : Log}
  {rootDir : Option String} {done : List SourceFile}

/-! ### Reports of the three acts -/

theorem omissions_settle (p : Pass) (slot : SlotId) :
    omissions (p.settle host slot).reports = omissions p.reports := by
  obtain he | ⟨e, -, he⟩ := settle_cases host p slot
  · rw [he]
  · rw [he, omissions_append, survey, Survey.omissions_ofPositions, Nat.add_zero]

/-- A declaration is reported if its type cannot be catalogued. -/
theorem omissions_declare (p : Pass) (decl : DeclId) (name : String) :
    omissions (p.declare host decl name).reports
      = omissions p.reports + if host.reflects decl then 0 else 1 := by
  have hone : ∀ what, omissions [unreflectable name what] = 1 := by
    intro what
    simp [omissions, unreflectable, isOmission_ofNotice, Notice.code]
  unfold declare TypeHost.reflects
  cases host.classify (host.resolve decl) with
  | intrinsic k =>
    show omissions (p.reports ++ [unreflectable name _]) = _ + 1
    rw [omissions_append, hone]
  | unsupported reason =>
    show omissions (p.reports ++ [unreflectable name _]) = _ + 1
    rw [omissions_append, hone]
  | shape h _ shape => exact omissions_settle (p.assign decl name h shape) _

theorem omissions_declareAll (p : Pass) (declarations : List (DeclId × String)) :
    omissions (declarations.foldl (fun p d => p.declare host d.1 d.2) p).reports
      = omissions p.reports + declarations.countP fun d => !host.reflects d.1 := by
  induction declarations generalizing p with
  | nil => rfl
  | cons d rest ih =>
    rw [List.foldl_cons, ih, omissions_declare, List.countP_cons]
    cases host.reflects d.1 with
    | true => simp
    | false =>
      show _ + 1 + _ = _ + (_ + 1)
      omega

theorem omissions_drain? (hd : p.drain? host bound = some q) :
    omissions q.reports = omissions p.reports := by
  refine @drain?_induction host p q (fun _ q => omissions q.reports = omissions p.reports) [] bound
    ?_ rfl hd
  intro log p' first queue hp h
  exact (omissions_settle { p' with queue := queue } first.2).trans h

/-! ### The account of a run -/

/-- The declarations of a run are the names of its files. -/
theorem declarationsOf_eq (h : p.tree.Represents options.rootDir done) (files : List SourceFile) :
    p.declarationsOf options files
      = ((SourceFile.packaged files).flatMap SourceFile.registered).map
        fun e => (e.2, e.1.1) := by
  have hstart : (⟨p.tree, p.reports⟩ : Growth).tree.Represents options.rootDir done := h
  obtain ⟨hrep, added, hadded, hroots⟩ := Growth.addFiles_represents hstart files
  have hfiles := List.forall₂_drop p.tree.files.length hrep.files
  rw [hadded, List.drop_left, h.files.length_eq, List.drop_left] at hfiles
  have hbelow := PackageTree.registeredBelow_of_isRootOf hrep.forest hfiles fun f hf => by
    rw [hadded]
    exact List.mem_append_right _ hf
  rw [← hbelow, ← hroots]
  exact (List.map_flatMap ..).symm

/-- The account of what has been run so far. -/
structure Accounts (host : TypeHost) (rootDir : Option String) (done : List SourceFile)
    (p : Pass) : Prop where
  tree : p.tree.Represents rootDir done
  tally : p.tree.nameCount + omissions p.reports
    = (done.map (listDeclarationCount ·.statements)).sum
      + (done.flatMap SourceFile.registered).countP fun e => !host.reflects e.2
  declared : ∀ e ∈ done.flatMap SourceFile.registered, host.reflects e.2 = true →
    e.2 ∈ p.declared.keys

theorem accounts_initial : initial.Accounts host rootDir [] :=
  ⟨PackageTree.represents_empty rootDir, rfl, fun _ he => absurd he List.not_mem_nil⟩

/-- The tree of a run represents what it did before, and the files that the run takes in. -/
theorem represents_of_run? (h : p.tree.Represents options.rootDir done) {files : List SourceFile}
    (hr : p.run? host options bound files = some q) :
    q.tree.Represents options.rootDir (done ++ SourceFile.packaged files) := by
  have hstart : (⟨p.tree, p.reports⟩ : Growth).tree.Represents options.rootDir done := h
  rw [tree_of_run? (p := p) hr]
  exact (Growth.addFiles_represents hstart files).1

theorem Accounts.run (ha : p.Accounts host options.rootDir done) {files : List SourceFile}
    (hr : p.run? host options bound files = some q) :
    q.Accounts host options.rootDir (done ++ SourceFile.packaged files) := by
  have hstart : (⟨p.tree, p.reports⟩ : Growth).tree.Represents options.rootDir done := ha.tree
  have hdeclarations := declarationsOf_eq ha.tree files
  rw [run?_eq] at hr
  refine ⟨represents_of_run? ha.tree hr, ?_, ?_⟩
  · have hgrown : (p.growTree options files).2.tree.nameCount
        + omissions (p.growTree options files).2.reports = _ :=
      Growth.tally_addFiles hstart files
    have hreports := omissions_drain? hr
    rw [declareFiles, omissions_declareAll, hdeclarations, List.countP_map] at hreports
    rw [tree_of_run? (p := p) hr, hreports, List.map_append, List.sum_append_nat,
      List.flatMap_append, List.countP_append]
    have hbefore := ha.tally
    change _ = p.tree.nameCount + omissions p.reports + _ at hgrown
    simp only [Function.comp_def]
    omega
  · have hlater : (p.growTree options files).2.LeadsTo q :=
      (leadsTo_declareAll _ (p.declarationsOf options files)).trans (leadsTo_of_drain? hr)
    intro e he hreflects
    rw [List.flatMap_append, List.mem_append] at he
    rcases he with he | he
    · exact hlater.declared _ (ha.declared e he hreflects)
    · obtain ⟨h, name, shape, hc⟩ := TypeHost.reflects_iff.mp hreflects
      have hmem : (e.2, e.1.1) ∈ p.declarationsOf options files :=
        hdeclarations ▸ List.mem_map_of_mem he
      exact (leadsTo_of_drain? hr).declared _ (mem_keys_declareAll hc hmem)

/-- What every run keeps, with the files that it takes in, a sequence of runs keeps. -/
theorem runAll?_induction {motive : List SourceFile → Pass → Prop}
    (run : ∀ {done p q} files, motive done p → p.run? host options bound files = some q →
      motive (done ++ SourceFile.packaged files) q)
    {runs : List (List SourceFile)} (hp : motive done p)
    (hr : p.runAll? host options bound runs = some q) :
    motive (done ++ SourceFile.packaged runs.flatten) q := by
  induction runs generalizing p done with
  | nil =>
    cases hr
    exact (List.append_nil done).symm ▸ hp
  | cons files rest ih =>
    obtain ⟨p', hp', hr⟩ := Option.bind_eq_some_iff.mp hr
    have hrest := ih (run files hp hp') hr
    rw [List.append_assoc] at hrest
    rw [List.flatten_cons, SourceFile.packaged_append]
    exact hrest

theorem Accounts.runs (ha : p.Accounts host options.rootDir done) {runs : List (List SourceFile)}
    (hr : p.runAll? host options bound runs = some q) :
    q.Accounts host options.rootDir (done ++ SourceFile.packaged runs.flatten) :=
  runAll?_induction (fun _ ha hr => ha.run hr) ha hr

/-! ### The account of a table -/

/-- The names that have slots are those whose types can be catalogued. -/
theorem contains_declared_eq (ho : p.Orderly host log []) (ha : p.Accounts host rootDir done)
    {e : (String × DeclarationKind) × DeclId} (he : e ∈ done.flatMap SourceFile.registered) :
    p.declared.contains e.2 = host.reflects e.2 := by
  rw [Bool.eq_iff_iff, OrderedMap.contains_iff]
  refine ⟨fun hk => ?_, ha.declared e he⟩
  obtain ⟨slot, hslot⟩ := OrderedMap.mem_keys_iff.mp hk
  obtain ⟨h, name, shape, hc, -⟩ := ho.declared e.2 slot hslot
  exact TypeHost.reflects_iff.mpr ⟨h, name, shape, hc⟩

/-- Over any sequence of runs, the classes and interfaces that the files declare, on
all levels of namespaces, are as many as the names in the table and the reports of
omissions together. -/
theorem declarationCount_eq (host : TypeHost) (options : CatalogOptions) (bound : Nat)
    (runs : List (List SourceFile)) (p : Pass)
    (hr : initial.runAll? host options bound runs = some p) :
    ((SourceFile.packaged runs.flatten).map (listDeclarationCount ·.statements)).sum
      = ((p.finish options).table.packages.values.map OrderedMap.size).sum
        + (p.finish options).diagnostics.countP isOmission := by
  have ho := orderly_of_runAll? hr
  have ha : p.Accounts host options.rootDir (SourceFile.packaged runs.flatten) :=
    accounts_initial.runs hr
  generalize SourceFile.packaged runs.flatten = done at ha ⊢
  have hdirectory : (Directory.ofTree options.packageLayout p.tree p.declared).nameCount
      + omissions (Directory.ofTree options.packageLayout p.tree p.declared).reports
        = (done.flatMap SourceFile.registered).countP fun e => host.reflects e.2 := by
    refine (Directory.tally_ofTree options.packageLayout p.tree p.declared).trans ?_
    rw [ha.tree.registeredBelow_eq]
    exact List.countP_congr fun e he => by rw [contains_declared_eq ho ha he]
  have hsplit := List.length_eq_countP_add_countP (fun e => host.reflects e.2)
    (l := done.flatMap SourceFile.registered)
  have hnames := ha.tree.nameCount_eq
  have htally := ha.tally
  show _ = Directory.nameCount _ + omissions (p.reports ++ _)
  rw [omissions_append]
  simp only [Bool.not_eq_true, Bool.decide_eq_false] at hsplit
  omega

end Pass

/-- Every way in which a declaration can be left out: an interface gives way to a class in
its package and another one to a class of the package's second file, a class has no
name, one is declared twice, and one is a literal. -/
def Program.crowded : Program where
  types := [.object .interfaceForm (ObjectShape.named "I"),
    .object .classForm (ObjectShape.named "C"), .literal (.boolean true)]
  declarations := [⟨10⟩, ⟨11⟩, ⟨12⟩]
  files := [
    ⟨"a.ts", [.interfaceDeclaration ⟨0⟩ (some "N"), .classDeclaration ⟨1⟩ (some "N"),
      .interfaceDeclaration ⟨0⟩ (some "M"),
      .nameSpace "inner" [.classDeclaration ⟨1⟩ none, .classDeclaration ⟨2⟩ (some "K")],
      .nameSpace "inner" [.classDeclaration ⟨1⟩ (some "N"), .classDeclaration ⟨1⟩ (some "N")]],
      false⟩,
    ⟨"a.tsx", [.classDeclaration ⟨1⟩ (some "M"), .typeAlias ⟨0⟩ "L"], false⟩,
    ⟨"lib.d.ts", [.classDeclaration ⟨1⟩ (some "D")], true⟩]
  representatives := _
  no_problem := by decide
  representatives_eq := rfl

/-- Two runs over the same files declare everything twice; three names are left of sixteen. -/
theorem Pass.omissions_of_crowded_runs :
    ∃ p, initial.runAll? Program.crowded.host .default 3
        [Program.crowded.files, Program.crowded.files] = some p ∧
      ((p.finish .default).table.packages.values.map OrderedMap.size).sum = 3 ∧
      (p.finish .default).diagnostics.countP isOmission = 13 := by
  have hrun : (initial.runAll? Program.crowded.host .default 3
      [Program.crowded.files, Program.crowded.files]).map
        (fun p => ((p.finish .default).table.packages.values.map OrderedMap.size).sum)
      = some 3 := by
    decide +kernel
  obtain ⟨p, hp, hnames⟩ := Option.map_eq_some_iff.mp hrun
  have hcount := declarationCount_eq _ _ _ _ _ hp
  have hdeclared : ((SourceFile.packaged [Program.crowded.files, Program.crowded.files].flatten).map
      (listDeclarationCount ·.statements)).sum = 16 := by
    decide +kernel
  rw [hdeclared, hnames] at hcount
  exact ⟨p, hp, hnames, by omega⟩

end TypeCatalog
