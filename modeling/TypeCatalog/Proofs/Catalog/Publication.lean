/-
The names of a table.

When all declarations of some files can be catalogued, the names that a first
run publishes are one resolution over all their scopes: under every key, each
name has the slot of the first class that is declared by it or, if there is
none, of the first interface (`Program.packages_eq_resolution`).

A declaration that cannot be catalogued is left out of the table, but only after
the names of its scope have been settled.  So it takes a name from declarations
of its own scope, which are then not published either, and from no others
(`Program.isPublished_iff`).
-/
import TypeCatalog.Proofs.Catalog.Portrait
import TypeCatalog.Proofs.Catalog.Reachable
import TypeCatalog.Proofs.Package.Resolution

namespace TypeCatalog

namespace Pass

variable {host : TypeHost} {options : CatalogOptions} {p : Pass} {files : List SourceFile}
  {bound : Nat} {l : Listing} {d : Declared}

/-- What a name stands for in its scope has a slot exactly if it can be catalogued. -/
theorem contains_declared_iff (hr : initial.run? host options bound files = some p)
    (hl : l ∈ options.packageLayout.listings options.rootDir files)
    (hd : d ∈ Declared.winners l.declared) :
    p.declared.contains d.decl = true ↔ (host.kindOf (host.resolve d.decl)).IsSupported := by
  have ho := (confined_of_run? hr).orderly
  rw [OrderedMap.contains_iff, OrderedMap.mem_keys_iff]
  constructor
  · rintro ⟨slot, hslot⟩
    obtain ⟨h, name, shape, hc, -⟩ := ho.declared d.decl slot hslot
    exact TypeHost.isSupported_of_classify hc
  · intro hs
    -- the scope is a package of the tree, and all that the package keeps is declared
    obtain ⟨file, hfile, hl⟩ := List.mem_flatMap.mp hl
    obtain ⟨s, hscope, rfl⟩ := List.mem_map.mp hl
    rw [← Listing.map_rows_registered, Package.rows, List.map_map] at hd
    obtain ⟨e, he, rfl⟩ := List.mem_map.mp hd
    have hdecl : ((options.packageLayout.publishedAs s ∘
        fun e : (String × DeclarationKind) × DeclId => (⟨e.1.1, e.1.2, e.2⟩ : Declared)) e).decl
          = e.2 := by
      cases options.packageLayout <;> rfl
    rw [hdecl] at hs ⊢
    obtain ⟨node, hnode, -, htypes⟩ :=
      (growTree_represents options files).1.exists_shows hfile hscope
    have hmem : (e.2, e.1.1) ∈ initial.declarationsOf options files := by
      refine mem_declarationsOf.mpr ⟨node, hnode, e.1.2, ?_⟩
      rw [htypes]
      exact OrderedMap.get?_eq_some_iff.mpr he
    obtain ⟨name, shape, hc⟩ := TypeHost.classify_of_isSupported hs
    obtain ⟨slot, hslot, -⟩ := declared_of_mem_declarationsOf hr ho hmem hc
    exact ⟨slot, hslot⟩

/-- The directory of a first run settles what its scopes publish. -/
theorem settled_of_run? (hr : initial.run? host options bound files = some p) :
    Listing.Settled p.declared (Directory.ofTree options.packageLayout p.tree p.declared)
      ((options.packageLayout.listings options.rootDir files).map
        (Listing.published p.declared)) := by
  have hrep := (growTree_represents options files).1
  rw [← tree_of_run? hr] at hrep
  exact Listing.settled_ofTree hrep

/-- What has a slot has the slot of its type. -/
theorem slot_of_declared (hr : initial.run? host options bound files = some p) {decl : DeclId}
    {slot : SlotId} (hslot : p.declared.get? decl = some slot) :
    p.registry.lookup (host.canonical (host.resolve decl)) = some slot := by
  obtain ⟨h, name, shape, hc, hlook⟩ := (confined_of_run? hr).orderly.declared decl slot hslot
  rw [← TypeHost.handle_of_classify hc, hlook]

/-! ### All declarations can be catalogued -/

/-- The names that a first run publishes are the resolution of all that is declared. -/
theorem packages_of_run? (hr : initial.run? host options bound files = some p)
    (hs : ∀ l ∈ options.packageLayout.listings options.rootDir files, ∀ d ∈ l.declared,
      (host.kindOf (host.resolve d.decl)).IsSupported) :
    (p.finish options).table.packages.entries.map
        (fun e => (e.1, e.2.entries.map fun n => (n.1, some n.2)))
      = (Listing.resolution (options.packageLayout.listings options.rootDir files)).map fun l =>
        (l.key, l.declared.map fun d =>
          (d.name, p.registry.lookup (host.canonical (host.resolve d.decl)))) := by
  have hsettled := settled_of_run? hr
  have hresolution := Listing.resolution_published fun l hl d hd =>
    (contains_declared_iff hr hl hd).mpr (hs l hl d (Declared.mem_of_mem_winners hd))
  show (Directory.ofTree _ _ _).packages.entries.map _ = _
  rw [hsettled.entries_eq, ← hresolution]
  refine List.map_congr_left fun l hl => ?_
  refine congrArg (Prod.mk l.key) (List.map_congr_left fun d hd => ?_)
  obtain ⟨slot, hslot⟩ := hsettled.exists_slot hl hd
  rw [hslot, slot_of_declared hr hslot]

end Pass

/-- Cataloguing a program comes to an end.  If all declarations of the files can be
catalogued, then the table has the keys of all scopes and, under every key, the
names of all that is declared there, each with the slot of its winner. -/
theorem Program.packages_eq_resolution (program : Program) (options : CatalogOptions)
    (files : List SourceFile)
    (hs : ∀ l ∈ options.packageLayout.listings options.rootDir files, ∀ d ∈ l.declared,
      (program.host.kindOf (program.host.resolve d.decl)).IsSupported) :
    ∃ p : Pass,
      (∀ bound, program.typeCount ≤ bound →
        Pass.initial.run? program.host options bound files = some p) ∧
      (p.finish options).table.packages.entries.map
          (fun e => (e.1, e.2.entries.map fun n => (n.1, some n.2)))
        = (Listing.resolution (options.packageLayout.listings options.rootDir files)).map
          fun l => (l.key, l.declared.map fun d =>
            (d.name, p.registry.lookup (program.host.canonical (program.host.resolve d.decl)))) :=
  by
  obtain ⟨p, hp⟩ := program.exists_run? (rfl : program.host.kind = _) options files
  exact ⟨p, hp, Pass.packages_of_run? (hp _ (Nat.le_refl _)) hs⟩

/-- Two files of one package: the first declares two interfaces, the second a class
with the name of one of them. -/
def Program.rivals : Program where
  types := [.object .interfaceForm (ObjectShape.named "N"),
    .object .interfaceForm (ObjectShape.named "M"), .object .classForm (ObjectShape.named "N")]
  declarations := [⟨10⟩, ⟨11⟩, ⟨12⟩]
  files := [⟨"a.ts", [.interfaceDeclaration ⟨0⟩ (some "N"), .interfaceDeclaration ⟨1⟩ (some "M")],
      false⟩,
    ⟨"a.tsx", [.classDeclaration ⟨2⟩ (some "N")], false⟩]
  representatives := _
  no_problem := by decide
  representatives_eq := rfl

/-- The class takes the name, and stands where it is declared. -/
theorem Program.packages_rivals :
    ∃ p, Pass.initial.run? rivals.host .default rivals.typeCount rivals.files = some p ∧
      (p.finish .default).table.packages.entries.map
        (fun e => (e.1, e.2.entries.map fun n => (n.1, some n.2)))
        = [("a", [("M", some ⟨1⟩), ("N", some ⟨2⟩)])] := by
  have hlistings : PackageLayout.nested.listings none rivals.files =
      [⟨"a", [⟨"N", .interfaceKind, ⟨0⟩⟩, ⟨"M", .interfaceKind, ⟨1⟩⟩]⟩,
        ⟨"a", [⟨"N", .classKind, ⟨2⟩⟩]⟩] := by decide +kernel
  have hinterface : ∀ name, (TypeKind.interfaceType name).IsSupported := fun _ => ⟨id, nofun⟩
  have hclass : ∀ name, (TypeKind.classType name).IsSupported := fun _ => ⟨id, nofun⟩
  obtain ⟨p, hp, hpackages⟩ := packages_eq_resolution rivals .default rivals.files (by
    show ∀ l ∈ PackageLayout.nested.listings none rivals.files, _
    rw [hlistings]
    simp only [List.mem_cons, List.not_mem_nil, or_false, forall_eq_or_imp, forall_eq]
    exact ⟨⟨hinterface (some "N"), hinterface (some "M")⟩, hclass (some "N")⟩)
  have hrun := hp _ (Nat.le_refl _)
  have hresolution : Listing.resolution (PackageLayout.nested.listings none rivals.files) =
      [⟨"a", [⟨"M", .interfaceKind, ⟨1⟩⟩, ⟨"N", .classKind, ⟨2⟩⟩]⟩] := by
    rw [hlistings]
    decide +kernel
  have hslots : (Pass.initial.run? rivals.host .default rivals.typeCount rivals.files).map
      (fun p => [(⟨1⟩ : DeclId), ⟨2⟩].map fun decl =>
        p.registry.lookup (rivals.host.canonical (rivals.host.resolve decl)))
      = some [some ⟨1⟩, some ⟨2⟩] := by
    decide +kernel
  rw [hrun, Option.map_some, Option.some.injEq] at hslots
  refine ⟨p, hrun, hpackages.trans ?_⟩
  show (Listing.resolution (PackageLayout.nested.listings none rivals.files)).map _ = _
  rw [hresolution]
  simpa using hslots

namespace Pass

variable {host : TypeHost} {options : CatalogOptions} {p : Pass} {files : List SourceFile}
  {bound : Nat} {key name : String} {slot : SlotId}

/-! ### Some declarations cannot be catalogued -/

/-- A name is published if it stands in some scope for what can be catalogued. -/
theorem exists_slot_of_mem_winners (hr : initial.run? host options bound files = some p)
    {l : Listing} (hl : l ∈ options.packageLayout.listings options.rootDir files) {d : Declared}
    (hd : d ∈ Declared.winners l.declared)
    (hs : (host.kindOf (host.resolve d.decl)).IsSupported) :
    ∃ slot, (p.finish options).table.lookup l.key d.name = some slot := by
  have hpublished : d ∈ (l.published p.declared).declared :=
    List.mem_filter.mpr ⟨hd, (contains_declared_iff hr hl hd).mpr hs⟩
  have hunder : d ∈ Listing.declaredUnder
      ((options.packageLayout.listings options.rootDir files).map
        (Listing.published p.declared)) l.key := by
    refine List.mem_flatMap.mpr ⟨l.published p.declared, ?_, hpublished⟩
    exact List.mem_filter.mpr ⟨List.mem_map_of_mem hl, decide_eq_true rfl⟩
  -- whoever takes the name of it among all scopes has a slot as well
  obtain ⟨e, he, hn⟩ := Declared.exists_mem_winners hunder
  obtain ⟨l', hl', hel'⟩ := List.mem_flatMap.mp (Declared.mem_of_mem_winners he)
  obtain ⟨l'', -, rfl⟩ := List.mem_map.mp (List.mem_filter.mp hl').1
  obtain ⟨slot, hslot⟩ := OrderedMap.mem_keys_iff.mp
    (OrderedMap.contains_iff.mp (List.mem_filter.mp hel').2)
  exact ⟨slot, (settled_of_run? hr).lookup_eq_some_iff.mpr ⟨e, he, hn, hslot⟩⟩

/-- A published name has the slot of a declaration for which it stands in some scope. -/
theorem exists_winner_of_lookup (hr : initial.run? host options bound files = some p)
    (hslot : (p.finish options).table.lookup key name = some slot) :
    ∃ l ∈ options.packageLayout.listings options.rootDir files, l.key = key ∧
      ∃ d ∈ Declared.winners l.declared, d.name = name ∧
        (host.kindOf (host.resolve d.decl)).IsSupported ∧
        p.registry.lookup (host.canonical (host.resolve d.decl)) = some slot := by
  obtain ⟨d, hd, hn, hdecl⟩ := (settled_of_run? hr).lookup_eq_some_iff.mp hslot
  obtain ⟨l', hl', hdl'⟩ := List.mem_flatMap.mp (Declared.mem_of_mem_winners hd)
  obtain ⟨hl', hkey⟩ := List.mem_filter.mp hl'
  obtain ⟨l, hl, rfl⟩ := List.mem_map.mp hl'
  obtain ⟨hwin, hcontains⟩ := List.mem_filter.mp hdl'
  exact ⟨l, hl, of_decide_eq_true hkey, d, hwin, hn,
    (contains_declared_iff hr hl hwin).mp hcontains, slot_of_declared hr hdecl⟩

end Pass

/-- Cataloguing a program comes to an end.  A name is published under a key exactly if
it stands, in some scope with this key, for a declaration that can be catalogued, and
the slot that it gets is that of such a declaration; it does not matter what other
scopes with this key declare by the name. -/
theorem Program.isPublished_iff (program : Program) (options : CatalogOptions)
    (files : List SourceFile) :
    ∃ p : Pass,
      (∀ bound, program.typeCount ≤ bound →
        Pass.initial.run? program.host options bound files = some p) ∧
      ∀ key name,
        ((∃ slot, (p.finish options).table.lookup key name = some slot) ↔
          ∃ l ∈ options.packageLayout.listings options.rootDir files, l.key = key ∧
            ∃ d ∈ Declared.winners l.declared, d.name = name ∧
              (program.host.kindOf (program.host.resolve d.decl)).IsSupported) ∧
        ∀ slot, (p.finish options).table.lookup key name = some slot →
          ∃ l ∈ options.packageLayout.listings options.rootDir files, l.key = key ∧
            ∃ d ∈ Declared.winners l.declared, d.name = name ∧
              p.registry.lookup (program.host.canonical (program.host.resolve d.decl))
                = some slot := by
  obtain ⟨p, hp⟩ := program.exists_run? (rfl : program.host.kind = _) options files
  have hr := hp _ (Nat.le_refl _)
  refine ⟨p, hp, fun key name => ⟨⟨?_, ?_⟩, ?_⟩⟩
  · rintro ⟨slot, hslot⟩
    obtain ⟨l, hl, hkey, d, hd, hn, hs, -⟩ := Pass.exists_winner_of_lookup hr hslot
    exact ⟨l, hl, hkey, d, hd, hn, hs⟩
  · rintro ⟨l, hl, rfl, d, hd, rfl, hs⟩
    exact Pass.exists_slot_of_mem_winners hr hl hd hs
  · intro slot hslot
    obtain ⟨l, hl, hkey, d, hd, hn, -, hlook⟩ := Pass.exists_winner_of_lookup hr hslot
    exact ⟨l, hl, hkey, d, hd, hn, hlook⟩

/-- An interface and a class of the same name; the class cannot be catalogued. -/
def Program.eclipsed : Program where
  types := [.object .interfaceForm (ObjectShape.named "N"), .unmodelled "mapped type"]
  declarations := [⟨10⟩, ⟨11⟩]
  files := [⟨"f.ts", [.interfaceDeclaration ⟨0⟩ (some "N"), .classDeclaration ⟨1⟩ (some "N")],
    false⟩]
  representatives := _
  no_problem := by decide
  representatives_eq := rfl

/-- The class takes the name in their scope, and then neither of the two is published. -/
theorem Program.not_published_of_supported :
    ¬ ∀ (program : Program) (options : CatalogOptions) (files : List SourceFile) (p : Pass),
      Pass.initial.run? program.host options program.typeCount files = some p →
      ∀ l ∈ options.packageLayout.listings options.rootDir files, ∀ d ∈ l.declared,
        (program.host.kindOf (program.host.resolve d.decl)).IsSupported →
        ∃ slot, (p.finish options).table.lookup l.key d.name = some slot := by
  intro h
  have hlisting : (⟨"f", [⟨"N", .interfaceKind, ⟨0⟩⟩, ⟨"N", .classKind, ⟨1⟩⟩]⟩ : Listing) ∈
      PackageLayout.nested.listings none eclipsed.files := by
    decide +kernel
  have hrun : (Pass.initial.run? eclipsed.host .default eclipsed.typeCount eclipsed.files).map
      (fun p => (p.finish .default).table.lookup "f" "N") = some none := by
    decide +kernel
  obtain ⟨p, hp, hnone⟩ := Option.map_eq_some_iff.mp hrun
  obtain ⟨slot, hslot⟩ := h eclipsed .default eclipsed.files p hp _ hlisting
    ⟨"N", .interfaceKind, ⟨0⟩⟩ List.mem_cons_self ⟨id, nofun⟩
  rw [hnone] at hslot
  cases hslot

end TypeCatalog
