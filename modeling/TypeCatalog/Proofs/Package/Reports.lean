/-
What is reported when files are taken in.

`Statement.reports` reads off statements which of their declarations are reported
when they come into a package.  It looks at what the package holds already, and at
nothing else, so statements are reported on in the same way in every tree
(`Growth.reports_scan`), and a file in the same way whatever files were taken in
before (`Growth.reports_addFiles`).
-/
import TypeCatalog.Proofs.Package.Traversal

namespace TypeCatalog

open Statement Package

/-- What is reported of a declaration that comes into a package. -/
def Package.reportsOf (types : OrderedMap (String × DeclarationKind) DeclId) (label : String)
    (name : Option String) (kind : DeclarationKind) (decl : DeclId) : List Diagnostic :=
  match name with
  | none => [.unnamed label kind]
  | some name => (registerName types label name kind decl).2

namespace Statement

mutual

/-- What is reported of a statement that comes into a package which holds some already. -/
def reports (label : String) (held : List Statement) : Statement → List Diagnostic
  | nameSpace name body =>
    listReports (label ++ "." ++ Identifier.sanitize name)
      (bodies (Identifier.sanitize name) held) body
  | classDeclaration decl name => reportsOf (registered held) label name .classKind decl
  | interfaceDeclaration decl name => reportsOf (registered held) label name .interfaceKind decl
  | typeAlias _ _ => []
  | other => []

/-- What is reported of statements that come into a package one after the other. -/
def listReports (label : String) (held : List Statement) : List Statement → List Diagnostic
  | [] => []
  | s :: rest => s.reports label held ++ listReports label (held ++ [s]) rest

end

theorem listReports_singleton (label : String) (held : List Statement) (s : Statement) :
    listReports label held [s] = s.reports label held :=
  List.append_nil _

end Statement

/-- What is reported of a file. -/
def SourceFile.reports (rootDir : Option String) (file : SourceFile) : List Diagnostic :=
  listReports (Package.name file.fileName rootDir) [] file.statements

/-! ### No report on a file is one on a child type -/

theorem Package.lt_code_of_mem_reportsOf {types : OrderedMap (String × DeclarationKind) DeclId}
    {label : String} {name : Option String} {kind : DeclarationKind} {decl : DeclId}
    {d : Diagnostic} (hd : d ∈ reportsOf types label name kind decl) : 9004 < d.code := by
  have hduplicate : 9004 < Notice.duplicateDeclaration.code := by decide
  have hshadowed : 9004 < Notice.shadowedInterface.code := by decide
  have hunnamed : 9004 < Notice.unnamedDeclaration.code := by decide
  unfold reportsOf registerName at hd
  split at hd
  · exact List.mem_singleton.mp hd ▸ hunnamed
  split at hd
  · exact List.mem_singleton.mp hd ▸ hduplicate
  split at hd
  · split at hd
    · exact List.mem_singleton.mp hd ▸ hshadowed
    · exact absurd hd List.not_mem_nil
  · split at hd
    · exact List.mem_singleton.mp hd ▸ hshadowed
    · exact absurd hd List.not_mem_nil

namespace Statement

mutual

theorem lt_code_of_mem_reports {label : String} {held : List Statement} {d : Diagnostic} :
    ∀ s : Statement, d ∈ s.reports label held → 9004 < d.code
  | nameSpace _ body, hd => by
    rw [reports] at hd
    exact lt_code_of_mem_listReports body hd
  | classDeclaration _ _, hd => by
    rw [reports] at hd
    exact lt_code_of_mem_reportsOf hd
  | interfaceDeclaration _ _, hd => by
    rw [reports] at hd
    exact lt_code_of_mem_reportsOf hd
  | typeAlias _ _, hd => by
    rw [reports] at hd
    exact absurd hd List.not_mem_nil
  | other, hd => by
    rw [reports] at hd
    exact absurd hd List.not_mem_nil

theorem lt_code_of_mem_listReports {label : String} {held : List Statement} {d : Diagnostic} :
    ∀ ss : List Statement, d ∈ listReports label held ss → 9004 < d.code
  | [], hd => by
    rw [listReports] at hd
    exact absurd hd List.not_mem_nil
  | s :: rest, hd => by
    rw [listReports, List.mem_append] at hd
    rcases hd with hd | hd
    · exact lt_code_of_mem_reports s hd
    · exact lt_code_of_mem_listReports rest hd

end

end Statement

/-! ### Files come in one after the other -/

namespace Growth

open PackageTree

variable {g : Growth} {i : PackageId} {held : List Statement} {rootDir : Option String}
  {done : List SourceFile}

theorem reports_register (h : g.tree.Holds i held) (label : String) (name : Option String)
    (kind : DeclarationKind) (decl : DeclId) :
    (g.register i label name kind decl).reports
      = g.reports ++ reportsOf (registered held) label name kind decl := by
  cases name with
  | none => rfl
  | some name =>
    rw [register, h.types]
    rfl

/-- What is reported of statements depends only on what the package holds that they come into. -/
theorem reports_scan (ss : List Statement) (g : Growth) (i : PackageId) (label : String)
    (hf : g.tree.IsForest) (hi : i.index < g.tree.nodes.length) (held : List Statement)
    (h : g.tree.Holds i held) :
    (g.scan i label ss).reports = g.reports ++ listReports label held ss := by
  refine scan_induction
    (motive := fun g i label ss => ∀ held, g.tree.Holds i held →
      (g.scan i label ss).reports = g.reports ++ listReports label held ss)
    ?nil ?cons ?nameSpace ?classDeclaration ?interfaceDeclaration ?typeAlias ?other ss hf hi label
    held h
  case nil =>
    intro g i _ _ held _
    exact (List.append_nil g.reports).symm
  case cons =>
    intro g i label s rest hf hi hs hrest held h
    -- when the rest comes in, the package holds this statement as well
    have hheld := (scan_extends [s] g i label hf hi).holds held h
    rw [scan, hrest _ hheld]
    change (g.scan i label [s]).reports ++ _ = _
    rw [hs held h, listReports_singleton, listReports, List.append_assoc]
  case nameSpace =>
    intro g i label name body _ hi hbody held h
    rw [listReports_singleton]
    exact hbody _ (h.child hi _)
  case classDeclaration =>
    intro g i label decl name _ _ held h
    rw [listReports_singleton]
    exact reports_register h label name .classKind decl
  case interfaceDeclaration =>
    intro g i label decl name _ _ held h
    rw [listReports_singleton]
    exact reports_register h label name .interfaceKind decl
  case typeAlias =>
    intro g i _ _ _ _ held _
    exact (List.append_nil g.reports).symm
  case other =>
    intro g i _ _ held _
    exact (List.append_nil g.reports).symm

theorem reports_addFile (rootDir : Option String) (hf : g.tree.IsForest) (file : SourceFile) :
    (g.addFile file rootDir).2.reports
      = g.reports ++ (SourceFile.packaged [file]).flatMap (SourceFile.reports rootDir) := by
  cases hd : file.isDeclarationFile with
  | true =>
    have hnone : SourceFile.packaged [file] = [] := by simp [SourceFile.packaged, hd]
    rw [addFile, if_pos hd, hnone]
    exact (List.append_nil g.reports).symm
  | false =>
    have hsome : SourceFile.packaged [file] = [file] := by simp [SourceFile.packaged, hd]
    obtain ⟨name, hname⟩ : ∃ name, Package.name file.fileName rootDir = name := ⟨_, rfl⟩
    have hnew : g.tree.nodes.length < (g.tree.withRoot name).nodes.length := by
      rw [length_withRoot]
      omega
    have hscan := reports_scan file.statements ⟨g.tree.withRoot name, g.reports⟩
      ⟨g.tree.nodes.length⟩ name (hf.withRoot name) hnew []
      (g.tree.holds_withRoot name)
    rw [addFile, if_neg (by simp [hd]), hname, hsome, List.flatMap_singleton, SourceFile.reports,
      hname]
    exact hscan

/-- Every file is reported on as if there were no others. -/
theorem reports_addFiles (h : g.tree.Represents rootDir done) (files : List SourceFile) :
    (addFiles rootDir g files).2.reports
      = g.reports ++ (SourceFile.packaged files).flatMap (SourceFile.reports rootDir) := by
  induction files generalizing g done with
  | nil => exact (List.append_nil g.reports).symm
  | cons file rest ih =>
    have hrest := ih (addFile_represents h file).1
    rw [reports_addFile rootDir h.forest file] at hrest
    rw [SourceFile.packaged_cons, List.flatMap_append, ← List.append_assoc]
    exact hrest

end Growth

end TypeCatalog
