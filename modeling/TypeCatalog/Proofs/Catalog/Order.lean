/-
The order of files, and where one run ends and the next begins, do not matter.

Two passes that take in the same files, in any order and cut into any runs, come to
the same table but for the numbers of slots and for the order of keys and records,
and report the same (`Program.sameUpTo_of_perm`).  This takes two things of the
files: a type must be declared by its own name, since otherwise it goes by the name
of whoever came first, and no key may be that of two files, since otherwise the
files contend for its names.

`Pass.Siblings` are two such passes.  What either of them has a slot for is closed
under what the other one gives slots to, so both have the same types
(`Siblings.sameTypes`), described in the same way, and the slots of one go to those
of the other (`Registry.carry`).  Records go to records then, and reports are the
same because each can be read off a file or an entry.
-/
import Mathlib.Logic.Equiv.Defs
import TypeCatalog.Proofs.Canonical.Likeness
import TypeCatalog.Proofs.Catalog.Naming
import TypeCatalog.Proofs.Catalog.Renumbering
import TypeCatalog.Proofs.Catalog.Reports
import TypeCatalog.Proofs.Package.Reordering

namespace TypeCatalog

/-- A record with other slots for itself and for those it refers to. -/
def TypeNode.renumber (f : SlotId → SlotId) (n : TypeNode) : TypeNode :=
  ⟨f n.slot, n.name, n.kind.renumber f⟩

/-- Two tables are the same but for the numbers of slots, and for the order of keys and records. -/
structure MetadataTable.SameUpTo (σ : Equiv.Perm SlotId) (t t' : MetadataTable) : Prop where
  library : t'.library = t.library
  slotCount : t'.slotCount = t.slotCount
  slots : ∀ s, (σ s).index < t.slotCount ↔ s.index < t.slotCount
  intrinsics : t'.intrinsics = t.intrinsics
  packages : ∀ key, t'.packages.get? key = (t.packages.get? key).map (OrderedMap.mapValues σ)
  populations : t'.populations.Perm (t.populations.map (TypeNode.renumber σ))

/-- The declarations that are left in the packages of files, with their names. -/
def SourceFile.declarations (files : List SourceFile) : List (DeclId × String) :=
  (files.flatMap SourceFile.registered).map fun e => (e.2, e.1.1)

/-! ### Slots of the same types -/

namespace Registry

variable {r r' : Registry} {h : TypeHandle} {s s' : SlotId}

theorem mem_handles_iff : h ∈ r.handles ↔ ∃ s, r.lookup h = some s := by
  rw [← Option.isSome_iff_exists, ← not_iff_not, ← lookup_eq_none_iff,
    Option.not_isSome_iff_eq_none]

/-- Two registries have slots for the same types. -/
structure SameTypes (r r' : Registry) : Prop where
  nodup : r.handles.Nodup
  nodup' : r'.handles.Nodup
  mem_iff : ∀ h, h ∈ r.handles ↔ h ∈ r'.handles

/-- The slot that a second registry has for the type of a slot. -/
def carry (r r' : Registry) (s : SlotId) : SlotId :=
  match r.entry? s with
  | some e => (r'.lookup e.handle).getD s
  | none => s

theorem carry_of_lookup (hl : r.lookup h = some s) (hl' : r'.lookup h = some s') :
    r.carry r' s = s' := by
  obtain ⟨e, he, rfl⟩ := entry?_of_lookup hl
  rw [carry, he]
  dsimp only
  rw [hl', Option.getD_some]

theorem carry_of_size_le (hs : r.size ≤ s.index) : r.carry r' s = s := by
  have hnone : r.entry? s = none := List.getElem?_eq_none hs
  rw [carry, hnone]

namespace SameTypes

theorem symm (ht : r.SameTypes r') : r'.SameTypes r :=
  ⟨ht.nodup', ht.nodup, fun h => (ht.mem_iff h).symm⟩

theorem size_eq (ht : r.SameTypes r') : r'.size = r.size := by
  have hperm : r'.handles.Perm r.handles :=
    (List.perm_ext_iff_of_nodup ht.nodup' ht.nodup).mpr fun h => (ht.mem_iff h).symm
  simpa [handles, size] using hperm.length_eq

theorem lookup_carry (ht : r.SameTypes r') (hl : r.lookup h = some s) :
    r'.lookup h = some (r.carry r' s) := by
  obtain ⟨s', hl'⟩ := mem_handles_iff.mp ((ht.mem_iff h).mp (mem_handles_iff.mpr ⟨s, hl⟩))
  rw [hl', carry_of_lookup hl hl']

theorem carry_carry (ht : r.SameTypes r') (s : SlotId) : r'.carry r (r.carry r' s) = s := by
  by_cases hs : s.index < r.size
  · obtain ⟨e, he⟩ := entry?_of_lt_size hs
    have hl := lookup_of_entry? ht.nodup he
    exact carry_of_lookup (ht.lookup_carry hl) hl
  · have hs' : r.size ≤ s.index := Nat.le_of_not_lt hs
    rw [carry_of_size_le hs', carry_of_size_le (ht.size_eq ▸ hs')]

/-- Slots go to the slots of the same types, and back. -/
def renumbering (ht : r.SameTypes r') : Equiv.Perm SlotId where
  toFun := r.carry r'
  invFun := r'.carry r
  left_inv := ht.carry_carry
  right_inv := ht.symm.carry_carry

theorem carry_lt_iff (ht : r.SameTypes r') (s : SlotId) :
    (r.carry r' s).index < r.size ↔ s.index < r.size := by
  have hlt : ∀ {r r' : Registry} {s : SlotId}, r.SameTypes r' → s.index < r.size →
      (r.carry r' s).index < r.size := by
    intro r r' s ht hs
    obtain ⟨e, he⟩ := entry?_of_lt_size hs
    have hl := lookup_of_entry? ht.nodup he
    exact ht.size_eq ▸ lt_size_of_lookup (ht.lookup_carry hl)
  refine ⟨fun hs => ?_, hlt ht⟩
  -- a slot that is given out comes back from one that is
  have hback := hlt ht.symm (ht.size_eq.symm ▸ hs)
  rw [ht.carry_carry, ht.size_eq] at hback
  exact hback

end SameTypes

end Registry

/-! ### Entries that say what their types are -/

namespace TypeHost

variable {host : TypeHost} {type h : TypeHandle} {name : Option String} {shape : Shape}
  {e e' : Entry}

/-- An entry has the name and the shape of its own type. -/
def Describes (host : TypeHost) (e : Entry) : Prop :=
  classifyKind host.isArrayLike e.handle (host.kind e.handle) = .shape e.handle e.name e.shape

theorem describes_of_classify (hc : host.classify type = .shape h name shape) :
    host.Describes ⟨h, name, shape⟩ := by
  have hh := handle_of_classify hc
  subst hh
  exact hc

theorem Describes.eq (hd : host.Describes e) (hd' : host.Describes e')
    (hh : e.handle = e'.handle) : e = e' := by
  obtain ⟨h, name, shape⟩ := e
  obtain ⟨h', name', shape'⟩ := e'
  cases hh
  obtain ⟨-, rfl, rfl⟩ := Classified.shape.inj (hd.symm.trans hd')
  rfl

end TypeHost

namespace Pass

variable {host : TypeHost} {options : CatalogOptions} {bound : Nat} {p q : Pass}
  {runs runs' : List (List SourceFile)} {P : Entry → Prop}
  {declarations declarations' : List (DeclId × String)}

/-! ### What is handed on in a sequence of runs -/

theorem HandedOn.mono (hh : HandedOn host declarations P)
    (hsub : declarations' ⊆ declarations) : HandedOn host declarations' P :=
  ⟨fun hd hc => hh.declared (hsub hd) hc, hh.referred⟩

/-- What is handed on holds of all entries at the end of a sequence of runs. -/
theorem HandedOn.runAll
    (hh : HandedOn host (SourceFile.declarations (SourceFile.packaged runs.flatten)) P)
    (hr : initial.runAll? host options bound runs = some p) : ∀ e ∈ p.registry.entries, P e := by
  refine (runAll?_induction
    (motive := fun done p => (∃ log, p.Orderly host log []) ∧
      p.tree.Represents options.rootDir done ∧
      (HandedOn host (SourceFile.declarations done) P → ∀ e ∈ p.registry.entries, P e))
    (fun {done p q} files h hr => ?_)
    ⟨⟨[], orderly_initial⟩, PackageTree.represents_empty options.rootDir,
      fun _ _ he => absurd he List.not_mem_nil⟩ hr).2.2 hh
  obtain ⟨⟨log, ho⟩, ha, h⟩ := h
  refine ⟨⟨_, ho.run hr⟩, represents_of_run? ha hr, fun hh => ?_⟩
  have hsplit : SourceFile.declarations (done ++ SourceFile.packaged files)
      = SourceFile.declarations done ++ p.declarationsOf options files := by
    rw [declarationsOf_eq ha, SourceFile.declarations, List.flatMap_append, List.map_append]
    rfl
  rw [hsplit] at hh
  exact (hh.mono (List.subset_append_right _ _)).run ho
    (h (hh.mono (List.subset_append_left _ _))) hr

/-- If types are declared by their own names, all entries describe their types. -/
theorem handedOn_describes
    (hn : ∀ d ∈ declarations, host.nameOf? (host.resolve d.1) = some d.2) :
    HandedOn host declarations host.Describes := by
  refine ⟨fun {decl label h name shape} hd hc => ?_,
    fun _ _ hc => TypeHost.describes_of_classify hc⟩
  have hname := hn _ hd
  rw [TypeHost.nameOf?, hc] at hname
  cases hname
  exact TypeHost.describes_of_classify hc

/-- To have a slot is handed on in any other pass over the same declarations. -/
theorem handedOn_mem_handles (hr : initial.runAll? host options bound runs = some p) :
    HandedOn host (SourceFile.declarations (SourceFile.packaged runs.flatten))
      fun e => e.handle ∈ p.registry.handles := by
  have ho := orderly_of_runAll? hr
  have ha : p.Accounts host options.rootDir (SourceFile.packaged runs.flatten) :=
    accounts_initial.runs hr
  refine ⟨fun hd hc => ?_, fun he hrefers hc => ?_⟩
  · obtain ⟨e, he, heq⟩ := List.mem_map.mp hd
    cases heq
    exact Registry.mem_handles_iff.mpr ((get?_declared ho ha he).2 _ _ _ hc)
  · obtain ⟨s, hl⟩ := Registry.mem_handles_iff.mp he
    have hlinked := ho.isLinked_of_refers (pending_of_runAll? rfl hr) hl hrefers
    exact Registry.mem_handles_iff.mpr (hlinked _ _ _ hc)

/-! ### Two passes over the same files -/

/-- Two passes over the same files, in any order and cut into any runs; types are
declared by their own names. -/
structure Siblings (host : TypeHost) (options : CatalogOptions) (bound : Nat)
    (runs runs' : List (List SourceFile)) (p q : Pass) : Prop where
  perm : runs'.flatten.Perm runs.flatten
  named : ∀ d ∈ SourceFile.declarations (SourceFile.packaged runs.flatten),
    host.nameOf? (host.resolve d.1) = some d.2
  first : initial.runAll? host options bound runs = some p
  second : initial.runAll? host options bound runs' = some q

namespace Siblings

variable (hs : Siblings host options bound runs runs' p q)
include hs

theorem packaged_perm :
    (SourceFile.packaged runs'.flatten).Perm (SourceFile.packaged runs.flatten) :=
  hs.perm.filter _

theorem declarations_subset : SourceFile.declarations (SourceFile.packaged runs'.flatten) ⊆
    SourceFile.declarations (SourceFile.packaged runs.flatten) :=
  ((hs.packaged_perm.flatMap_right _).map _).subset

theorem symm : Siblings host options bound runs' runs q p :=
  ⟨hs.perm.symm, fun d hd => hs.named d (hs.declarations_subset hd), hs.second, hs.first⟩

theorem mem_handles {h : TypeHandle} (hh : h ∈ q.registry.handles) : h ∈ p.registry.handles := by
  obtain ⟨e, he, rfl⟩ := List.mem_map.mp hh
  exact ((handedOn_mem_handles hs.first).mono hs.declarations_subset).runAll hs.second e he

theorem sameTypes : p.registry.SameTypes q.registry :=
  ⟨(orderly_of_runAll? hs.first).serves.nodup, (orderly_of_runAll? hs.second).serves.nodup,
    fun _ => ⟨hs.symm.mem_handles, hs.mem_handles⟩⟩

theorem describes {e : Entry} (he : e ∈ p.registry.entries) : host.Describes e :=
  (handedOn_describes hs.named).runAll hs.first e he

/-- An entry of one pass is the entry of the slot to which its own goes. -/
theorem entry?_carry {s : SlotId} {e : Entry} (he : p.registry.entry? s = some e) :
    q.registry.entry? (p.registry.carry q.registry s) = some e := by
  have hl := Registry.lookup_of_entry? hs.sameTypes.nodup he
  obtain ⟨e', he', hh⟩ := Registry.entry?_of_lookup (hs.sameTypes.lookup_carry hl)
  have heq : e' = e := (hs.symm.describes (Registry.mem_entries_of_entry he')).eq
    (hs.describes (Registry.mem_entries_of_entry he)) hh
  rw [he', heq]

theorem mem_entries {e : Entry} (he : e ∈ p.registry.entries) : e ∈ q.registry.entries := by
  obtain ⟨i, hi, rfl⟩ := List.mem_iff_getElem.mp he
  have hentry : p.registry.entry? ⟨i⟩ = some p.registry.entries[i] := List.getElem?_eq_getElem hi
  exact Registry.mem_entries_of_entry (hs.entry?_carry hentry)

theorem entries_perm : q.registry.entries.Perm p.registry.entries := by
  have hnodup : ∀ {r : Registry}, r.handles.Nodup → r.entries.Nodup := fun h => h.of_map _
  exact (List.perm_ext_iff_of_nodup (hnodup hs.sameTypes.nodup') (hnodup hs.sameTypes.nodup)).mpr
    fun _ => ⟨hs.symm.mem_entries, hs.mem_entries⟩

/-- Edges go to edges. -/
theorem carries :
    host.Carries host p.registry q.registry (p.registry.carry q.registry) := by
  intro t hlinked
  unfold TypeHost.edge?
  cases hc : host.classify t with
  | intrinsic k => rfl
  | unsupported reason => rfl
  | shape h name shape =>
    obtain ⟨s, hl⟩ := hlinked h name shape hc
    show (q.registry.lookup h).map TypeRef.slot
      = ((p.registry.lookup h).map TypeRef.slot).map (TypeRef.renumber _)
    rw [hl, hs.sameTypes.lookup_carry hl]
    rfl

/-- Records go to records. -/
theorem mem_populations {n : TypeNode} (hn : n ∈ p.populations) :
    n.renumber (p.registry.carry q.registry) ∈ q.populations := by
  have hp := orderly_of_runAll? hs.first
  have hq := orderly_of_runAll? hs.second
  obtain ⟨e, he, hname, hkind, hlinked⟩ := hp.drawn n hn
  obtain ⟨m, hm, hmslot, hname', hkind'⟩ :=
    hq.exists_drawn (pending_of_runAll? rfl hs.second) (hs.entry?_carry he)
  have himage := TypeHost.image_renumber ⟨rfl, rfl, rfl, rfl, rfl⟩ fun t ht =>
    hs.carries t (hlinked t ht)
  have hsame : n.renumber (p.registry.carry q.registry) = m := by
    rw [TypeNode.renumber, ← hmslot, hname, ← hname', hkind, ← himage, ← hkind']
  exact hsame ▸ hm

theorem populations_perm : q.populations.Perm
    (p.populations.map (TypeNode.renumber (p.registry.carry q.registry))) := by
  have hp := orderly_of_runAll? hs.first
  have hq := orderly_of_runAll? hs.second
  -- no record of the first pass comes twice, and the second one has just as many
  have honce : (p.populations.map (TypeNode.renumber (p.registry.carry q.registry))).Nodup := by
    have hslots := hp.once.map hs.sameTypes.renumbering.injective
    rw [List.map_map] at hslots
    refine List.Nodup.of_map TypeNode.slot ?_
    rw [List.map_map]
    exact hslots
  have hsub : p.populations.map (TypeNode.renumber (p.registry.carry q.registry))
      ⊆ q.populations := by
    intro m hm
    obtain ⟨n, hn, rfl⟩ := List.mem_map.mp hm
    exact hs.mem_populations hn
  refine ((honce.subperm hsub).perm_of_length_le ?_).symm
  rw [List.length_map, hp.length_populations (pending_of_runAll? rfl hs.first),
    hq.length_populations (pending_of_runAll? rfl hs.second), hs.sameTypes.size_eq]

theorem reports_perm : q.reports.Perm p.reports := by
  refine (reports_perm_of_runAll? hs.second).trans (List.Perm.trans ?_
    (reports_perm_of_runAll? hs.first).symm)
  exact (hs.packaged_perm.flatMap_right _).append (hs.entries_perm.flatMap_right _)

/-- The directories match, with the slots of the second pass for those of the first. -/
theorem matches_directory
    (hk : options.packageLayout.Separates options.rootDir runs.flatten) :
    ((Directory.ofTree options.packageLayout p.tree p.declared).renumber
      (p.registry.carry q.registry)).Matches
        (Directory.ofTree options.packageLayout q.tree q.declared) := by
  have hp : p.Accounts host options.rootDir (SourceFile.packaged runs.flatten) :=
    accounts_initial.runs hs.first
  have hq : q.Accounts host options.rootDir (SourceFile.packaged runs'.flatten) :=
    accounts_initial.runs hs.second
  -- over the first tree, to change the slots is to take those of the second pass
  have hrenumber : (Directory.ofTree options.packageLayout p.tree p.declared).renumber
      (p.registry.carry q.registry)
        = Directory.ofTree options.packageLayout p.tree q.declared := by
    refine Directory.ofTree_renumber p.tree fun e he => ?_
    rw [hp.tree.registeredBelow_eq] at he
    obtain ⟨hslot, hlinked⟩ := get?_declared (orderly_of_runAll? hs.first) hp he
    obtain ⟨hslot', -⟩ := get?_declared (orderly_of_runAll? hs.second) hq
      ((hs.packaged_perm.flatMap_right _).mem_iff.mpr he)
    rw [hslot, hslot']
    exact hs.carries.slot? hlinked
  rw [hrenumber]
  exact Directory.matches_ofTree hp.tree hq.tree hs.perm.symm hk

/-- The tables are the same but for the numbers of slots. -/
theorem sameUpTo (hk : options.packageLayout.Separates options.rootDir runs.flatten) :
    (p.finish options).table.SameUpTo hs.sameTypes.renumbering (q.finish options).table where
  library := rfl
  slotCount := hs.sameTypes.size_eq
  slots := hs.sameTypes.carry_lt_iff
  intrinsics := rfl
  packages key := ((hs.matches_directory hk).packages key).trans (OrderedMap.get?_mapValues _ _ key)
  populations := hs.populations_perm

theorem diagnostics_perm (hk : options.packageLayout.Separates options.rootDir runs.flatten) :
    (q.finish options).diagnostics.Perm (p.finish options).diagnostics :=
  hs.reports_perm.append (hs.matches_directory hk).reports

end Siblings

end Pass

/-! ### Programs -/

namespace Program

/-- Every class and interface that files declare by name resolves to a class or an
interface of this name. -/
def DeclaresOwnNames (program : Program) (files : List SourceFile) : Prop :=
  ∀ file ∈ SourceFile.packaged files, ∀ s ∈ (PackageScope.ofFile file).within,
    ∀ d ∈ Statement.named s.statements,
      program.kind (program.resolve d.decl) = .classType (some d.name) ∨
      program.kind (program.resolve d.decl) = .interfaceType (some d.name)

theorem nameOf?_resolve {program : Program} {decl : DeclId} {name : String}
    (hk : program.kind (program.resolve decl) = .classType (some name) ∨
      program.kind (program.resolve decl) = .interfaceType (some name)) :
    program.host.nameOf? (program.host.resolve decl) = some name := by
  -- classes and interfaces stand for themselves
  have hself : program.canonical (program.resolve decl) = program.resolve decl := by
    obtain ⟨-, -, hnominal, -⟩ := program.alike_canonical (program.resolve decl)
    rw [kind] at hk
    cases hd : program.type? (program.resolve decl) with
    | none => simp [hd] at hk
    | some data =>
      rw [hd] at hk
      refine hnominal data hd ?_
      cases data with
      | object => rfl
      | _ => simp [TypeData.kind] at hk
  have hclassify : program.host.classify (program.host.resolve decl)
      = classifyKind program.isArrayLike (program.resolve decl)
        (program.kind (program.resolve decl)) := by
    show classifyKind _ (program.canonical (program.resolve decl))
      (program.kind (program.canonical (program.resolve decl))) = _
    rw [hself]
    rfl
  rw [TypeHost.nameOf?, hclassify]
  rcases hk with hk | hk <;> rw [hk] <;> rfl

theorem DeclaresOwnNames.nameOf? {program : Program} {files : List SourceFile}
    (hn : program.DeclaresOwnNames files) :
    ∀ d ∈ SourceFile.declarations (SourceFile.packaged files),
      program.host.nameOf? (program.host.resolve d.1) = some d.2 := by
  intro d hd
  obtain ⟨e, he, rfl⟩ := List.mem_map.mp hd
  obtain ⟨file, hfile, he⟩ := List.mem_flatMap.mp he
  obtain ⟨s, hscope, he⟩ := List.mem_flatMap.mp he
  exact nameOf?_resolve (hn file hfile s hscope _ (Package.mem_named_of_mem_registered he))

/-- Cataloguing a program comes to an end in one run as well as in several.  If types are
declared by their own names and no key is that of two different files, then the files can
come in any order and be cut into any runs: the tables are the same but for the numbers
of slots, and the same is reported. -/
theorem sameUpTo_of_perm (program : Program) (options : CatalogOptions) (files : List SourceFile)
    (runs : List (List SourceFile)) (hp : runs.flatten.Perm files)
    (hn : program.DeclaresOwnNames files)
    (hk : options.packageLayout.Separates options.rootDir files) :
    ∃ p q : Pass,
      (∀ bound, program.typeCount ≤ bound →
        Pass.initial.run? program.host options bound files = some p ∧
        Pass.initial.runAll? program.host options bound runs = some q) ∧
      (∃ σ, (p.finish options).table.SameUpTo σ (q.finish options).table) ∧
      (q.finish options).diagnostics.Perm (p.finish options).diagnostics := by
  obtain ⟨p, hrun⟩ := program.exists_run? (rfl : program.host.kind = _) options files
  obtain ⟨q, hruns⟩ := program.exists_runAll? (rfl : program.host.kind = _) options runs
  have hone : [files].flatten = files := List.flatten_singleton
  have hs : Pass.Siblings program.host options program.typeCount [files] runs p q := by
    refine ⟨hone.symm ▸ hp, ?_, ?_, hruns _ (Nat.le_refl _)⟩
    · rw [hone]
      exact hn.nameOf?
    · exact Option.bind_eq_some_iff.mpr ⟨p, hrun _ (Nat.le_refl _), rfl⟩
  have hkeys : options.packageLayout.Separates options.rootDir [files].flatten := hone.symm ▸ hk
  exact ⟨p, q, fun bound hb => ⟨hrun bound hb, hruns bound hb⟩, ⟨_, hs.sameUpTo hkeys⟩,
    hs.diagnostics_perm hkeys⟩

/-- An interface with a member that cannot be catalogued and a class that refer to each
other, each in its own file; one file has a class without a name besides. -/
def splitPair : Program where
  types := [
    .object .interfaceForm { ObjectShape.named "A" with
      members := [⟨"b", .property, ⟨11⟩, false⟩, ⟨"tag", .property, ⟨12⟩, false⟩] },
    .object .classForm { ObjectShape.named "B" with members := [⟨"a", .property, ⟨10⟩, true⟩] },
    .literal (.boolean true)]
  declarations := [⟨10⟩, ⟨11⟩]
  files := [
    ⟨"a.ts", [.interfaceDeclaration ⟨0⟩ (some "A"), .classDeclaration ⟨1⟩ none], false⟩,
    ⟨"b.ts", [.classDeclaration ⟨1⟩ (some "B")], false⟩]
  representatives := _
  no_problem := by decide
  representatives_eq := rfl

theorem within_splitPair {file : SourceFile} (hfile : file ∈ splitPair.files) :
    (PackageScope.ofFile file).within = [PackageScope.ofFile file] := by
  rw [PackageScope.within_eq]
  simp only [splitPair, List.mem_cons, List.not_mem_nil, or_false] at hfile
  rcases hfile with rfl | rfl <;> rfl

theorem declaresOwnNames_splitPair : splitPair.DeclaresOwnNames splitPair.files := by
  have hnamed : ∀ file ∈ splitPair.files, ∀ d ∈ Statement.named file.statements,
      splitPair.kind (splitPair.resolve d.decl) = .classType (some d.name) ∨
      splitPair.kind (splitPair.resolve d.decl) = .interfaceType (some d.name) := by decide
  intro file hfile s hs d hd
  rw [within_splitPair hfile, List.mem_singleton] at hs
  subst hs
  exact hnamed file hfile d hd

theorem separates_splitPair : PackageLayout.nested.Separates none splitPair.files := by
  have hkey : ∀ file ∈ splitPair.files, ∀ key, PackageLayout.nested.HasKey none file key →
      Package.name file.fileName none = key := by
    rintro file hfile key ⟨s, hs, rfl⟩
    rw [within_splitPair hfile, List.mem_singleton] at hs
    subst hs
    rfl
  have hdistinct : Package.name "a.ts" none ≠ Package.name "b.ts" none := by decide +kernel
  intro file hfile file' hfile' key hk hk'
  have hsame := (hkey file hfile key hk).trans (hkey file' hfile' key hk').symm
  change file ∈ splitPair.files at hfile
  change file' ∈ splitPair.files at hfile'
  simp only [splitPair, List.mem_cons, List.not_mem_nil, or_false] at hfile hfile'
  rcases hfile with rfl | rfl <;> rcases hfile' with rfl | rfl
  · rfl
  · exact absurd hsame hdistinct
  · exact absurd hsame.symm hdistinct
  · rfl

/-- With the second file in a run before the first one, the types change their slots and
the reports come in another order. -/
theorem sameUpTo_of_splitPair_reversed :
    ∃ p q : Pass,
      Pass.initial.run? splitPair.host .default splitPair.typeCount splitPair.files = some p ∧
      Pass.initial.runAll? splitPair.host .default splitPair.typeCount
        (splitPair.files.reverse.map ([·])) = some q ∧
      (p.finish .default).diagnostics.map Diagnostic.code = [9007, 9001] ∧
      (q.finish .default).diagnostics.map Diagnostic.code = [9001, 9007] ∧
      p.slotOf? ⟨0⟩ = some ⟨0⟩ ∧ q.slotOf? ⟨0⟩ = some ⟨1⟩ ∧
      (∃ σ, (p.finish .default).table.SameUpTo σ (q.finish .default).table) ∧
      (q.finish .default).diagnostics.Perm (p.finish .default).diagnostics := by
  have hreversed : (splitPair.files.reverse.map ([·])).flatten.Perm splitPair.files :=
    List.reverse_perm splitPair.files
  obtain ⟨p, q, hruns, hsame⟩ := sameUpTo_of_perm splitPair .default splitPair.files
    (splitPair.files.reverse.map ([·])) hreversed declaresOwnNames_splitPair separates_splitPair
  obtain ⟨hp, hq⟩ := hruns _ (Nat.le_refl _)
  have hrun : (Pass.initial.run? splitPair.host .default splitPair.typeCount splitPair.files).map
      (fun p => ((p.finish .default).diagnostics.map Diagnostic.code, p.slotOf? ⟨0⟩))
        = some ([9007, 9001], some ⟨0⟩) := by
    decide +kernel
  have hrun' : (Pass.initial.runAll? splitPair.host .default splitPair.typeCount
      (splitPair.files.reverse.map ([·]))).map
      (fun p => ((p.finish .default).diagnostics.map Diagnostic.code, p.slotOf? ⟨0⟩))
        = some ([9001, 9007], some ⟨1⟩) := by
    decide +kernel
  rw [hp, Option.map_some, Option.some.injEq, Prod.mk.injEq] at hrun
  rw [hq, Option.map_some, Option.some.injEq, Prod.mk.injEq] at hrun'
  exact ⟨p, q, hp, hq, hrun.1, hrun'.1, hrun.2, hrun'.2, hsame⟩

end Program

end TypeCatalog
