/-
Files that are taken in make an arranged tree.

Whatever files come, in whatever order and below whatever root directories, the packages of
a tree stay a forest with one tree for every file (`Growth.gathers_gather`): every package is
listed by its parent, is visited with its own file and nowhere else, and can be told by its
full name among the packages of its file (`Growth.isArranged_gather`).
-/
import Mathlib.Data.List.Induction
import TypeCatalog.Proofs.Package.Paths
import TypeCatalog.Proofs.Package.Preorder

namespace TypeCatalog

open Statement

/-- What has grown after some files were taken in, each below a root directory of its own. -/
def Growth.gather (calls : List (SourceFile × Option String)) : Growth :=
  calls.foldl (fun g call => (g.addFile call.1 call.2).2) ⟨.empty, []⟩

namespace PackageTree

variable {t t' : PackageTree} {calls : List (SourceFile × Option String)}

/-- No package stands twice among the children of another one. -/
theorem IsForest.nodup_children (hf : t.IsForest) (i : PackageId) :
    (t.node i).children.values.Nodup := by
  refine List.Nodup.map_on ?_ (List.Nodup.of_map _ (t.node i).children.nodup_keys)
  rintro ⟨name, j⟩ he ⟨name', j'⟩ he' rfl
  -- a package knows the name under which it is a child
  have hname := (hf.eq_of_child (OrderedMap.get?_eq_some_iff.mpr he)
    (OrderedMap.get?_eq_some_iff.mpr he')).2
  rw [hname]

/-- The packages of a tree are arranged in trees, one for every file. -/
structure IsArranged (t : PackageTree) : Prop where
  /-- A package comes after its parent, and its parent lists it once. -/
  parent : ∀ x p : PackageId, x.index < t.nodes.length → (t.node x).parent = some p →
    p.index < x.index ∧ (t.node p).children.values.count x = 1
  /-- No other package lists it. -/
  listed : ∀ x p : PackageId, x ∈ (t.node p).children.values →
    x.index < t.nodes.length ∧ (t.node x).parent = some p
  /-- No two files have the same root. -/
  distinct : (t.files.map FilePackage.root).Nodup
  /-- Every package is below the root of one file and of no other, and nothing else is. -/
  divided : ∀ x : PackageId, x.index < t.nodes.length ↔
    ∃! r, r ∈ t.files.map FilePackage.root ∧ t.Below r x
  /-- The loop over a stack ends; it visits all packages of a file, each once and in pre-order. -/
  visited : ∀ r ∈ t.files.map FilePackage.root,
    t.Visits [r] (t.depthFirst r) ∧ t.Preorder [r] (t.depthFirst r) ∧ (t.depthFirst r).Nodup ∧
      ∀ x, x ∈ t.depthFirst r ↔ t.Below r x
  /-- The names on the path of a package have no dots in them, and joined by dots they are its
  full name. -/
  path : ∀ x : PackageId, x.index < t.nodes.length →
    String.intercalate "." (t.path x) = (t.node x).fullName ∧
      ∀ name ∈ t.path x, '.' ∉ name.toList
  /-- Packages of one file have different full names. -/
  named : ∀ r ∈ t.files.map FilePackage.root, ∀ x y, t.Below r x → t.Below r y →
    (t.node x).fullName = (t.node y).fullName → x = y

/-- Files were taken into a tree, each below a root directory of its own. -/
structure Gathers (t : PackageTree) (calls : List (SourceFile × Option String)) : Prop where
  forest : t.IsForest
  files : List.Forall₂ (fun p call => t.IsRootOf call.2 p call.1) t.files calls
  unnamed : ∀ p ∈ t.files, (t.node p.root).name = none

theorem gathers_empty : empty.Gathers [] :=
  ⟨isForest_empty, .nil, fun _ hp => absurd hp List.not_mem_nil⟩

/-- One more file has its own root, and the others keep theirs. -/
theorem Gathers.extend (h : t.Gathers calls) (file : SourceFile) (rootDir : Option String)
    (he : (t.withRoot (Package.name file.fileName rootDir)).Extends ⟨t.nodes.length⟩
      file.statements t') : t'.Gathers (calls ++ [(file, rootDir)]) := by
  have hfiles : t'.files = t.files ++ [⟨Package.name file.fileName rootDir, ⟨t.nodes.length⟩⟩] :=
    he.files
  have hlen := t.length_withRoot (Package.name file.fileName rootDir)
  refine ⟨he.forest, ?_, ?_⟩
  · rw [hfiles]
    refine List.rel_append ?_ (.cons (isRootOf_of_extends he rfl) .nil)
    have hold := (List.forall₂_and_left t.files calls).mpr ⟨fun _ hp => hp, h.files⟩
    exact hold.imp fun p _ ⟨hp, hroot⟩ => hroot.of_extends h.forest he hp
  · rw [hfiles]
    refine List.forall_mem_append.mpr ⟨fun p hp => ?_, List.forall_mem_singleton.mpr ?_⟩
    · have hlt := (h.forest.roots p.root (List.mem_map_of_mem hp)).1
      rw [he.kept.name _ (hlen ▸ Nat.lt_succ_of_lt hlt), node_withRoot]
      exact h.unnamed p hp
    · rw [he.kept.name _ (hlen ▸ Nat.lt_succ_self _), node_withRoot, t.node_of_le (Nat.le_refl _)]
      rfl

section

variable (h : t.Gathers calls) (hn : ∀ call ∈ calls, "" ∉ allNamespaceNames call.1.statements)
include h

/-- The root of a file has no name, and holds the statements of the file. -/
theorem Gathers.exists_call {r : PackageId} (hr : r ∈ t.files.map FilePackage.root) :
    ∃ p ∈ t.files, ∃ call ∈ calls, p.root = r ∧ t.IsRootOf call.2 p call.1 ∧ t.IsRoot r := by
  obtain ⟨p, hp, rfl⟩ := List.mem_map.mp hr
  obtain ⟨call, hcall, hroot⟩ := exists_right_of_forall₂ h.files p hp
  exact ⟨p, hp, call, hcall, rfl, hroot, h.unnamed p hp, hroot.fullName, (h.forest.roots _ hr).2⟩

include hn

/-- Files whose namespaces have names make an arranged tree. -/
theorem Gathers.isArranged : t.IsArranged := by
  have hf := h.forest
  have hlisted : ∀ x p : PackageId, x ∈ (t.node p).children.values →
      x.index < t.nodes.length ∧ (t.node x).parent = some p := by
    intro x p hx
    obtain ⟨name, hc⟩ := OrderedMap.mem_values_iff.mp hx
    exact ⟨(hf.links hc).lt_length, (hf.links hc).parent⟩
  refine ⟨?_, hlisted, hf.distinct, ?_, ?_, ?_, ?_⟩
  · intro x p hx hparent
    rcases hf.held x hx with ⟨i, name, hc⟩ | hroot
    · have hl := hf.links hc
      rw [hl.parent, Option.some.injEq] at hparent
      subst hparent
      exact ⟨hl.lt, List.count_eq_one_of_mem (hf.nodup_children i)
        (OrderedMap.mem_values_iff.mpr ⟨name, hc⟩)⟩
    · rw [(hf.roots x hroot).2] at hparent
      cases hparent
  · intro x
    constructor
    · intro hx
      obtain ⟨r, hr, hb⟩ := hf.exists_below hx
      exact ⟨r, ⟨hr, hb⟩, fun r' hr' => hf.root_eq_of_below hr'.1 hr hr'.2 hb⟩
    · rintro ⟨r, ⟨hr, hb⟩, -⟩
      exact hf.lt_length_of_below (hf.roots r hr).1 hb
  · intro r hr
    obtain ⟨p, hp, call, -, rfl, hroot, -⟩ := h.exists_call hr
    have hwalk := hroot.walk hf hp
    refine ⟨hroot.visits_depthFirst hf hp, hroot.preorder_depthFirst hf hp, hwalk.nodup, ?_⟩
    intro x
    rw [hwalk.mem]
    simp only [List.mem_singleton, exists_eq_left]
  · intro x hx
    obtain ⟨r, hr, hb⟩ := hf.exists_below hx
    obtain ⟨p, -, call, hcall, rfl, hroot, hunnamed⟩ := h.exists_call hr
    have hsegments := hroot.holds.isSegment_of_mem_path hf hunnamed (hn call hcall) hb
    exact ⟨hroot.holds.intercalate_path hf hunnamed (hn call hcall) hb,
      fun name hname => (hsegments name hname).dot_notMem⟩
  · intro r hr x y hx hy he
    obtain ⟨p, -, call, hcall, rfl, hroot, hunnamed⟩ := h.exists_call hr
    exact hroot.holds.eq_of_fullName_eq hf hunnamed (hn call hcall) hx hy he

end

end PackageTree

namespace Growth

open PackageTree

theorem addFile_gathers {g : Growth} {calls : List (SourceFile × Option String)}
    (h : g.tree.Gathers calls) (file : SourceFile) (rootDir : Option String) :
    (g.addFile file rootDir).2.tree.Gathers
      (calls ++ [(file, rootDir)].filter fun call => !call.1.isDeclarationFile) := by
  cases hd : file.isDeclarationFile with
  | true =>
    rw [addFile, if_pos hd, List.filter_cons_of_neg (by simp [hd]), List.filter_nil,
      List.append_nil]
    exact h
  | false =>
    rw [addFile, if_neg (by simp [hd]), List.filter_cons_of_pos (by simp [hd]), List.filter_nil]
    exact h.extend file rootDir (scan_withRoot_extends h.forest _ g.reports _ file.statements)

/-- Every file that has packages has its own root in the tree. -/
theorem gathers_gather (calls : List (SourceFile × Option String)) :
    (gather calls).tree.Gathers (calls.filter fun call => !call.1.isDeclarationFile) := by
  induction calls using List.reverseRecOn with
  | nil => exact gathers_empty
  | append_singleton calls call ih =>
    rw [gather, List.foldl_append, List.filter_append]
    exact addFile_gathers ih call.1 call.2

/-- Whatever files with named namespaces are taken in, the packages are arranged in trees, one
for every file, and the packages of a file are visited in the order in which its statements
open them. -/
theorem isArranged_gather (calls : List (SourceFile × Option String))
    (hn : ∀ call ∈ calls, "" ∉ allNamespaceNames call.1.statements) :
    (gather calls).tree.IsArranged ∧
      List.Forall₂ (fun (p : FilePackage) (call : SourceFile × Option String) =>
          ((gather calls).tree.depthFirst p.root).map
              (fun id => ((gather calls).tree.node id).fullName)
            = (PackageScope.ofFile call.1).within.map PackageScope.fullName)
        (gather calls).tree.files (calls.filter fun call => !call.1.isDeclarationFile) := by
  have h := gathers_gather calls
  refine ⟨h.isArranged fun call hcall => hn call (List.mem_of_mem_filter hcall), ?_⟩
  have hfiles := (List.forall₂_and_left _ _).mpr ⟨fun _ hp => hp, h.files⟩
  refine hfiles.imp fun p call ⟨hp, hroot⟩ => ?_
  have hshows := (hroot.walk h.forest hp).shows
  rw [← List.forall₂_eq_eq_eq, List.forall₂_map_left_iff, List.forall₂_map_right_iff]
  exact hshows.imp fun id s hs => hs.1

/-- Two files and a declaration file between them; in the first file a namespace is opened twice,
under two names that are the same when they are made safe. -/
def reopened : List (SourceFile × Option String) := [
  (⟨"src/a.ts", [.nameSpace "my-ns" [.nameSpace "b.c" []], .other, .nameSpace "z" [],
    .nameSpace "my_ns" [.nameSpace "d" [], .nameSpace "b c" []]], false⟩, some "src"),
  (⟨"lib.d.ts", [.nameSpace "global" []], true⟩, none),
  (⟨"b.ts", [.nameSpace "z" []], false⟩, none)]

/-- The packages of the reopened namespace are one, visited before what stands between its two
openings, and a package of the second file has the full name of one of the first. -/
theorem isArranged_reopened :
    (∀ call ∈ reopened, "" ∉ allNamespaceNames call.1.statements) ∧
      (gather reopened).tree.IsArranged ∧
      ((gather reopened).tree.files.map fun p =>
          ((gather reopened).tree.depthFirst p.root).map
            fun id => (id.index, ((gather reopened).tree.node id).fullName))
        = [[(0, ""), (1, "my_ns"), (2, "my_ns.b_c"), (4, "my_ns.d"), (3, "z")],
          [(5, ""), (6, "z")]] := by
  have hn : ∀ call ∈ reopened, "" ∉ allNamespaceNames call.1.statements := by decide
  exact ⟨hn, (isArranged_gather reopened hn).1, by decide +kernel⟩

end Growth

end TypeCatalog
