/-
A program may lie in any directory.

Packages are named below the root directory, so a file that is put into it keeps the
name of its package (`Package.name_join`), however its path is written: behind the
directory the path has all its steps but for a dot that comes first, and such a dot has
no part in the name.  Nothing else looks at the names of files, so a pass does the same
with files that have been put into the root directory as with the files themselves, where
no directory is given (`Pass.run?_under`), and a program has the same catalogue in every
directory (`Program.catalog?_under`).
-/
import TypeCatalog.Proofs.Catalog.Termination
import TypeCatalog.Proofs.Path
import TypeCatalog.Proofs.Program.Supplied

namespace TypeCatalog

open TypeCatalog.Path

/-! ### Names of packages -/

namespace Package

/-- A dot that comes first has no name, and no other step loses an extension through it. -/
theorem names_dropExtension_current (steps : List Component) :
    (dropExtension (.current :: steps)).filterMap stepName?
      = (dropExtension steps).filterMap stepName? := by
  cases steps with
  | nil => rfl
  | cons step steps =>
    unfold dropExtension
    rw [List.getLast?_cons_cons]
    split
    · rw [List.dropLast_cons_of_ne_nil (List.cons_ne_nil _ _), List.cons_append]
      exact List.filterMap_cons_none rfl
    · exact List.filterMap_cons_none rfl

theorem stepsBelow_join {root rel : String} (hrel : isAbsolute rel = false) (hroot : root ≠ "") :
    stepsBelow (join root rel) (some root) = (split rel.toList).filterMap step? := by
  rw [stepsBelow, components_join hrel hroot, stripSteps_append, Option.getD_some]

theorem stepsBelow_empty (fileName : String) :
    stepsBelow fileName (some "") = components fileName := by
  have hempty : components "" = [] := by decide
  rw [stepsBelow, hempty]
  exact congrArg (Option.getD · _) (stripSteps_append [] (components fileName))

/-- A file in the root directory has the name that it has by itself without one. -/
theorem name_join (root : String) {rel : String} (hrel : isAbsolute rel = false) :
    name (join root rel) (some root) = name rel none := by
  have hself : stepsBelow rel none = components rel := rfl
  rw [name, name, hself]
  by_cases hroot : root = ""
  · rw [hroot, join_empty hrel, stepsBelow_empty]
  · -- the two paths differ in a dot that comes first, which only the path by itself has
    rw [stepsBelow_join hrel hroot]
    rcases components_of_relative hrel with h | h
    · rw [h]
    · rw [h, names_dropExtension_current]

end Package

/-! ### Trees of packages -/

namespace SourceFile

/-- The file in a directory; all but its name stays. -/
def under (root : String) (file : SourceFile) : SourceFile :=
  { file with fileName := join root file.fileName }

/-- A file whose name says whether it is a declaration file may be put into a directory before
it is made or afterwards. -/
theorem under_new (root : String) {rel : String} (hrel : isAbsolute rel = false) :
    (new rel).under root = new (join root rel) := by
  have hends : (join root rel).endsWith ".d.ts" = rel.endsWith ".d.ts" := by
    rw [Bool.eq_iff_iff, ← String.endsWith_toSlice, ← String.endsWith_toSlice,
      String.Slice.endsWith_string_iff, String.Slice.endsWith_string_iff, String.copy_toSlice,
      String.copy_toSlice]
    exact isSuffix_toList_join (by decide) hrel
  rw [new, new, under, hends]

end SourceFile

namespace Growth

theorem addFile_under (root : String) (g : Growth) {file : SourceFile}
    (h : isAbsolute file.fileName = false) :
    g.addFile (file.under root) (some root) = g.addFile file none := by
  have hname : Package.name (file.under root).fileName (some root)
      = Package.name file.fileName none := Package.name_join root h
  rw [addFile, addFile, hname]
  rfl

theorem addFiles_under (root : String) (g : Growth) {files : List SourceFile}
    (h : ∀ file ∈ files, isAbsolute file.fileName = false) :
    addFiles (some root) g (files.map (SourceFile.under root)) = addFiles none g files := by
  induction files generalizing g with
  | nil => rfl
  | cons file rest ih =>
    obtain ⟨hfile, hrest⟩ := List.forall_mem_cons.mp h
    rw [List.map_cons, addFiles, addFiles, addFile_under root g hfile]
    simp only [ih _ hrest]

end Growth

/-! ### Catalogues -/

/-- The same options with another root directory. -/
def CatalogOptions.rootedAt (options : CatalogOptions) (rootDir : Option String) :
    CatalogOptions :=
  { options with rootDir := rootDir }

namespace Pass

variable {files : List SourceFile}

/-- A run does the same with files in the root directory as with the files themselves where
there is none. -/
theorem run?_under (host : TypeHost) (options : CatalogOptions) (root : String) (bound : Nat)
    (p : Pass) (h : ∀ file ∈ files, isAbsolute file.fileName = false) :
    p.run? host (options.rootedAt (some root)) bound (files.map (SourceFile.under root))
      = p.run? host (options.rootedAt none) bound files := by
  -- the names of files are read when the tree grows, and never again
  have hgrow : p.growTree (options.rootedAt (some root)) (files.map (SourceFile.under root))
      = p.growTree (options.rootedAt none) files := by
    have hfiles := Growth.addFiles_under root ⟨p.tree, p.reports⟩ h
    simp only [growTree, CatalogOptions.rootedAt, hfiles]
  rw [run?, run?, hgrow]

end Pass

namespace Program

/-- The program with all its files in a directory. -/
def under (program : Program) (root : String) : Program where
  types := program.types
  declarations := program.declarations
  files := program.files.map (SourceFile.under root)
  representatives := program.representatives
  no_problem := by
    have hs := program.supplied
    refine firstProblem?_eq_none_iff.mpr { hs with statements := ?_ }
    exact List.forall_mem_map.mpr hs.statements
  representatives_eq := program.representatives_eq

/-- Cataloguing a program comes to the same table and the same reports as cataloguing it in a
directory that is the root.  A package is named alike for every path that is not absolute, and
what its file is made by name is the same as well. -/
theorem catalog?_under (program : Program) (options : CatalogOptions) (root : String)
    (h : ∀ file ∈ program.files, isAbsolute file.fileName = false) :
    (∃ output : CatalogOutput, ∀ bound, program.typeCount ≤ bound →
      catalog? program.host (options.rootedAt none) bound program.files = some output ∧
      catalog? (program.under root).host (options.rootedAt (some root)) bound
        (program.under root).files = some output) ∧
    ∀ rel, isAbsolute rel = false →
      Package.name (join root rel) (some root) = Package.name rel none ∧
      (SourceFile.new rel).under root = SourceFile.new (join root rel) := by
  refine ⟨?_, fun rel hrel => ⟨Package.name_join root hrel, SourceFile.under_new root hrel⟩⟩
  obtain ⟨p, hp⟩ := program.exists_run? (rfl : program.host.kind = _) (options.rootedAt none)
    program.files
  refine ⟨p.finish (options.rootedAt none), fun bound hb => ⟨?_, ?_⟩⟩
  · rw [catalog?, hp bound hb, Option.map_some]
  · -- the root directory is not looked at any more when the pass is at its end
    have hrun := (Pass.run?_under program.host options root bound .initial h).trans (hp bound hb)
    exact congrArg (Option.map (Pass.finish (options.rootedAt (some root)))) hrun

/-- Files with dots, with steps upwards, with slashes that lead nowhere and without names. -/
def unusualNames : Program where
  types := [.object .interfaceForm (ObjectShape.named "N")]
  declarations := [⟨10⟩]
  files := [⟨"./a.b.ts", [.interfaceDeclaration ⟨0⟩ (some "N")], false⟩,
    ⟨"x/../c.d//e/./", [.interfaceDeclaration ⟨0⟩ (some "N")], false⟩,
    ⟨"..", [.interfaceDeclaration ⟨0⟩ (some "N")], false⟩, ⟨".f", [], false⟩]
  representatives := _
  no_problem := by decide
  representatives_eq := rfl

/-- The keys of the packages are those of the files without their directory. -/
theorem packages_under_unusualNames :
    (∀ file ∈ unusualNames.files, isAbsolute file.fileName = false) ∧
    (unusualNames.under "../r.s/").files.map SourceFile.fileName
      = ["../r.s/./a.b.ts", "../r.s/x/../c.d//e/./", "../r.s/..", "../r.s/.f"] ∧
    ∃ output, catalog? unusualNames.host (.rootedAt .default none) unusualNames.typeCount
        unusualNames.files = some output ∧
      catalog? (unusualNames.under "../r.s/").host (.rootedAt .default (some "../r.s/"))
        unusualNames.typeCount (unusualNames.under "../r.s/").files = some output ∧
      output.table.packages.keys = ["a.b", "x.c.d.e", "", ".f"] := by
  have hrel : ∀ file ∈ unusualNames.files, isAbsolute file.fileName = false := by decide
  refine ⟨hrel, by decide +kernel, ?_⟩
  obtain ⟨⟨output, hall⟩, -⟩ := catalog?_under unusualNames .default "../r.s/" hrel
  obtain ⟨hself, hunder⟩ := hall _ (Nat.le_refl _)
  have hkeys : (catalog? unusualNames.host (.rootedAt .default none) unusualNames.typeCount
      unusualNames.files).map (fun output => output.table.packages.keys)
        = some ["a.b", "x.c.d.e", "", ".f"] := by
    decide +kernel
  rw [hself, Option.map_some, Option.some.injEq] at hkeys
  exact ⟨output, hself, hunder, hkeys⟩

end Program

end TypeCatalog
