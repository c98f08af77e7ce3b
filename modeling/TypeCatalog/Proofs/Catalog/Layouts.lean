/-
The two layouts of a table publish the same names.

With the nested layout every scope has a key of its own, and with the flat layout a
name has the path of its scope before it.  If the keys of scopes are different and no
name has a dot in it, then both say which scope a name is from
(`PackageScope.qualified_inj`), so no scope takes a name from another one, with either
layout, and a name is published for the scope that declares it
(`Pass.lookup_iff_of_settles`).  The two tables then have the same entries under other
keys and names, and are the same in all else (`Pass.layouts_agree`).
-/
import TypeCatalog.Proofs.Catalog.Publication
import TypeCatalog.Proofs.Package.Paths

namespace TypeCatalog

/-- The same options with another layout. -/
def CatalogOptions.laidOut (options : CatalogOptions) (layout : PackageLayout) : CatalogOptions :=
  { options with packageLayout := layout }

/-! ### Scopes of a file -/

namespace PackageScope

theorem mem_within_self (s : PackageScope) : s ∈ s.within := by
  rw [within_eq]
  exact List.mem_cons_self

theorem inner_mem_within (s : PackageScope) (name : String)
    (hname : name ∈ Statement.namespaces s.statements) : s.inner name ∈ s.within := by
  rw [within_eq]
  exact List.mem_cons_of_mem _ (List.mem_flatMap.mpr ⟨name, hname, mem_within_self _⟩)

end PackageScope

/-! ### Names that stand for one declaration -/

/-- A name stands for one declaration at most. -/
theorem Declared.eq_of_mem_winners {ds : List Declared} {d d' : Declared}
    (hd : d ∈ winners ds) (hd' : d' ∈ winners ds) (hn : d.name = d'.name) : d = d' := by
  obtain ⟨i, hi, hw⟩ := mem_winners_iff.mp hd
  obtain ⟨i', hi', hw'⟩ := mem_winners_iff.mp hd'
  rw [hn, hw'] at hw
  cases hw
  rw [hi'] at hi
  exact (Option.some.inj hi).symm

namespace Listing

variable {declared : OrderedMap DeclId SlotId} {d : Directory} {listings : List Listing}
  {key name : String} {slot : SlotId}

/-- No name is declared twice under a key. -/
def Separates (listings : List Listing) : Prop :=
  ∀ l ∈ listings, ∀ l' ∈ listings, l.key = l'.key →
    ∀ r ∈ l.declared, ∀ r' ∈ l'.declared, r.name = r'.name → r = r'

theorem mem_declaredUnder {r : Declared} :
    r ∈ declaredUnder listings key ↔ ∃ l ∈ listings, l.key = key ∧ r ∈ l.declared := by
  simp [declaredUnder, and_assoc]

/-- Where no name is declared twice, every declaration has the slot that is found by its
name. -/
theorem Settled.lookup_iff_of_separates (h : Settled declared d listings)
    (hs : Separates listings) :
    (d.packages.get? key >>= fun names => names.get? name) = some slot ↔
      ∃ l ∈ listings, l.key = key ∧ ∃ r ∈ l.declared, r.name = name ∧
        declared.get? r.decl = some slot := by
  rw [h.lookup_eq_some_iff]
  constructor
  · rintro ⟨r, hr, hn, hslot⟩
    obtain ⟨l, hl, hkey, hr⟩ := mem_declaredUnder.mp (Declared.mem_of_mem_winners hr)
    exact ⟨l, hl, hkey, r, hr, hn, hslot⟩
  · rintro ⟨l, hl, hkey, r, hr, hn, hslot⟩
    -- whoever has the name is this declaration
    obtain ⟨e, he, hname⟩ := Declared.exists_mem_winners (mem_declaredUnder.mpr ⟨l, hl, hkey, hr⟩)
    obtain ⟨l', hl', hkey', he'⟩ := mem_declaredUnder.mp (Declared.mem_of_mem_winners he)
    have hsame : e = r := hs l' hl' l hl (hkey'.trans hkey.symm) e he' r hr hname
    exact ⟨e, he, hname.trans hn, hsame ▸ hslot⟩

/-- Every scope has a key of its own, and no name has a dot in it. -/
structure IsUnambiguous (listings : List Listing) : Prop where
  keys : (listings.map Listing.key).Nodup
  names : ∀ l ∈ listings, ∀ d ∈ l.declared, '.' ∉ d.name.toList

end Listing

/-! ### What a layout tells of a name -/

open Statement

namespace PackageLayout

variable {layout : PackageLayout} {rootDir : Option String} {files : List SourceFile}
  {s s' : PackageScope} {packageName packageName' name name' : String}

/-- The name that a type of a scope has under the key of the scope. -/
def nameIn (layout : PackageLayout) (s : PackageScope) (name : String) : String :=
  match layout with
  | nested => name
  | flat => s.qualified name

theorem publishedAs_eq (layout : PackageLayout) (s : PackageScope) (d : Declared) :
    layout.publishedAs s d = ⟨layout.nameIn s d.name, d.kind, d.decl⟩ := by
  cases layout <;> rfl

theorem mem_listings {l : Listing} : l ∈ layout.listings rootDir files ↔
    ∃ file ∈ SourceFile.packaged files, ∃ s ∈ (PackageScope.ofFile file).within,
      layout.listing (Package.name file.fileName rootDir) s = l := by
  simp only [listings, List.mem_flatMap, List.mem_map]

theorem declared_listing_nested (packageName : String) (s : PackageScope) :
    (nested.listing packageName s).declared = named s.statements :=
  List.map_id _

/-- What a scope publishes are the winners of its declarations, with either layout. -/
theorem winners_listing (layout : PackageLayout) (packageName : String) (s : PackageScope) :
    Declared.winners (layout.listing packageName s).declared
      = (Declared.winners (named s.statements)).map (layout.publishedAs s) := by
  have hnested := Listing.map_rows_registered nested packageName s
  rw [declared_listing_nested] at hnested
  rw [← Listing.map_rows_registered, ← hnested]
  exact congrArg (List.map _) (List.map_id _).symm

/-- A name without dots is told, and its scope by the key that it has with the nested layout. -/
theorem scope_and_name_inj (hn : '.' ∉ name.toList) (hn' : '.' ∉ name'.toList)
    (hkey : layout.scopeKey packageName s = layout.scopeKey packageName' s')
    (hname : layout.nameIn s name = layout.nameIn s' name') :
    nested.scopeKey packageName s = nested.scopeKey packageName' s' ∧ name = name' := by
  cases layout with
  | nested => exact ⟨hkey, hname⟩
  | flat =>
    have hpackage : packageName = packageName' := hkey
    obtain ⟨hpath, hname⟩ := (PackageScope.qualified_inj hn hn').mp hname
    exact ⟨by rw [scopeKey, scopeKey, hpackage, hpath], hname⟩

end PackageLayout

namespace Listing

open PackageLayout

variable {rootDir : Option String} {files : List SourceFile} {file file' : SourceFile}
  {s s' : PackageScope} {declared : OrderedMap DeclId SlotId}

/-- Scopes with one key declare the same. -/
theorem IsUnambiguous.named_eq (hu : IsUnambiguous (nested.listings rootDir files))
    (hfile : file ∈ SourceFile.packaged files) (hs : s ∈ (PackageScope.ofFile file).within)
    (hfile' : file' ∈ SourceFile.packaged files) (hs' : s' ∈ (PackageScope.ofFile file').within)
    (hkey : nested.scopeKey (Package.name file.fileName rootDir) s
      = nested.scopeKey (Package.name file'.fileName rootDir) s') :
    named s.statements = named s'.statements := by
  have hsame := List.inj_on_of_nodup_map hu.keys (mem_listings.mpr ⟨file, hfile, s, hs, rfl⟩)
    (mem_listings.mpr ⟨file', hfile', s', hs', rfl⟩) hkey
  rw [← declared_listing_nested (Package.name file.fileName rootDir) s, hsame,
    declared_listing_nested]

theorem IsUnambiguous.dot_notMem (hu : IsUnambiguous (nested.listings rootDir files))
    (hfile : file ∈ SourceFile.packaged files) (hs : s ∈ (PackageScope.ofFile file).within)
    {d : Declared} (hd : d ∈ Declared.winners (named s.statements)) : '.' ∉ d.name.toList := by
  refine hu.names _ (mem_listings.mpr ⟨file, hfile, s, hs, rfl⟩) d ?_
  rw [declared_listing_nested]
  exact Declared.mem_of_mem_winners hd

theorem mem_published {layout : PackageLayout} {l : Listing} {r : Declared} :
    (l ∈ (layout.listings rootDir files).map (published declared) ∧ r ∈ l.declared) ↔
      ∃ file ∈ SourceFile.packaged files, ∃ s ∈ (PackageScope.ofFile file).within,
        (layout.listing (Package.name file.fileName rootDir) s).published declared = l ∧
        ∃ d ∈ Declared.winners (named s.statements), layout.publishedAs s d = r ∧
          declared.contains d.decl = true := by
  constructor
  · rintro ⟨hl, hr⟩
    obtain ⟨_, hlisted, rfl⟩ := List.mem_map.mp hl
    obtain ⟨file, hfile, s, hs, rfl⟩ := mem_listings.mp hlisted
    obtain ⟨hr, hcontains⟩ := List.mem_filter.mp hr
    rw [winners_listing] at hr
    obtain ⟨d, hd, rfl⟩ := List.mem_map.mp hr
    rw [publishedAs_eq] at hcontains
    exact ⟨file, hfile, s, hs, rfl, d, hd, rfl, hcontains⟩
  · rintro ⟨file, hfile, s, hs, rfl, d, hd, rfl, hcontains⟩
    refine ⟨List.mem_map_of_mem (mem_listings.mpr ⟨file, hfile, s, hs, rfl⟩),
      List.mem_filter.mpr ⟨?_, ?_⟩⟩
    · rw [winners_listing]
      exact List.mem_map_of_mem hd
    · rw [publishedAs_eq]
      exact hcontains

/-- With either layout, no scope publishes a name that another one publishes. -/
theorem IsUnambiguous.separates (hu : IsUnambiguous (nested.listings rootDir files))
    (layout : PackageLayout) :
    Separates ((layout.listings rootDir files).map (published declared)) := by
  intro l hl l' hl' hkey r hr r' hr' hn
  obtain ⟨file, hfile, s, hs, rfl, d, hd, rfl, -⟩ := mem_published.mp ⟨hl, hr⟩
  obtain ⟨file', hfile', s', hs', rfl, d', hd', rfl, -⟩ := mem_published.mp ⟨hl', hr'⟩
  rw [publishedAs_eq, publishedAs_eq] at hn
  have hn : layout.nameIn s d.name = layout.nameIn s' d'.name := hn
  obtain ⟨hkeys, hname⟩ := scope_and_name_inj (hu.dot_notMem hfile hs hd)
    (hu.dot_notMem hfile' hs' hd') hkey hn
  -- scopes with one key declare the same, and a name stands for one declaration in it
  rw [hu.named_eq hfile hs hfile' hs' hkeys] at hd
  rw [publishedAs_eq, publishedAs_eq, hn, Declared.eq_of_mem_winners hd hd' hname]

end Listing

/-! ### Tables with both layouts -/

namespace Pass

open PackageLayout

variable {host : TypeHost} {options : CatalogOptions} {p : Pass} {bound : Nat}
  {files : List SourceFile} {key name : String} {slot : SlotId}

/-- The entries of a table are the winners of scopes that have slots. -/
theorem lookup_iff_of_unambiguous (hr : initial.run? host options bound files = some p)
    (hu : Listing.IsUnambiguous (nested.listings options.rootDir files)) (layout : PackageLayout) :
    (p.finish (options.laidOut layout)).table.lookup key name = some slot ↔
      ∃ file ∈ SourceFile.packaged files, ∃ s ∈ (PackageScope.ofFile file).within,
        layout.scopeKey (Package.name file.fileName options.rootDir) s = key ∧
        ∃ d ∈ Declared.winners (named s.statements), layout.nameIn s d.name = name ∧
          p.declared.get? d.decl = some slot := by
  have hrun : initial.run? host (options.laidOut layout) bound files = some p := hr
  refine ((settled_of_run? hrun).lookup_iff_of_separates (hu.separates layout)).trans ?_
  constructor
  · rintro ⟨l, hl, hkey, r, hr, hname, hslot⟩
    obtain ⟨file, hfile, s, hs, rfl, d, hd, rfl, -⟩ := Listing.mem_published.mp ⟨hl, hr⟩
    rw [publishedAs_eq] at hname hslot
    exact ⟨file, hfile, s, hs, hkey, d, hd, hname, hslot⟩
  · rintro ⟨file, hfile, s, hs, hkey, d, hd, hname, hslot⟩
    have hcontains : p.declared.contains d.decl = true :=
      OrderedMap.contains_iff.mpr (OrderedMap.mem_keys_iff.mpr ⟨slot, hslot⟩)
    obtain ⟨hl, hr⟩ := Listing.mem_published.mpr ⟨file, hfile, s, hs, rfl, d, hd, rfl, hcontains⟩
    refine ⟨_, hl, hkey, _, hr, ?_, ?_⟩
    · rw [publishedAs_eq]
      exact hname
    · rw [publishedAs_eq]
      exact hslot

/-- What a name of a scope stands for does not depend on the layout. -/
theorem lookup_nameIn_iff (hr : initial.run? host options bound files = some p)
    (hu : Listing.IsUnambiguous (nested.listings options.rootDir files)) (layout : PackageLayout)
    {file : SourceFile} (hfile : file ∈ SourceFile.packaged files) {s : PackageScope}
    (hs : s ∈ (PackageScope.ofFile file).within) (hn : '.' ∉ name.toList) :
    (p.finish (options.laidOut layout)).table.lookup
        (layout.scopeKey (Package.name file.fileName options.rootDir) s) (layout.nameIn s name)
      = some slot ↔
      ∃ d ∈ Declared.winners (named s.statements), d.name = name ∧
        p.declared.get? d.decl = some slot := by
  rw [lookup_iff_of_unambiguous hr hu layout]
  constructor
  · rintro ⟨file', hfile', s', hs', hkey, d, hd, hname, hslot⟩
    obtain ⟨hkeys, hname⟩ := scope_and_name_inj (hu.dot_notMem hfile' hs' hd) hn hkey hname
    rw [hu.named_eq hfile' hs' hfile hs hkeys] at hd
    exact ⟨d, hd, hname, hslot⟩
  · rintro ⟨d, hd, rfl, hslot⟩
    exact ⟨file, hfile, s, hs, rfl, d, hd, rfl, hslot⟩

/-- A pass that comes to its end has a table with either layout, and the two have the same
slots and the same records.  If the keys of scopes are different with the nested layout and
no name has a dot in it, then a name of a scope stands for the same in both, under the key
of the scope in the one and with its path in the other, and neither has any other entry. -/
theorem layouts_agree_of_run? (host : TypeHost) (options : CatalogOptions) (bound : Nat)
    (files : List SourceFile) (p : Pass)
    (hr : initial.run? host options bound files = some p) :
    ∃ nestedOutput flatOutput : CatalogOutput,
      catalog? host (options.laidOut .nested) bound files = some nestedOutput ∧
      catalog? host (options.laidOut .flat) bound files = some flatOutput ∧
      nestedOutput.table.slotCount = flatOutput.table.slotCount ∧
      nestedOutput.table.populations = flatOutput.table.populations ∧
      (Listing.IsUnambiguous (nested.listings options.rootDir files) →
        (∀ file ∈ SourceFile.packaged files, ∀ s ∈ (PackageScope.ofFile file).within,
          ∀ name, '.' ∉ name.toList →
            nestedOutput.table.lookup
                (nested.scopeKey (Package.name file.fileName options.rootDir) s) name
              = flatOutput.table.lookup (Package.name file.fileName options.rootDir)
                (s.qualified name)) ∧
        (∀ key name slot, nestedOutput.table.lookup key name = some slot →
          ∃ file ∈ SourceFile.packaged files, ∃ s ∈ (PackageScope.ofFile file).within,
            key = nested.scopeKey (Package.name file.fileName options.rootDir) s ∧
              '.' ∉ name.toList) ∧
        ∀ key name slot, flatOutput.table.lookup key name = some slot →
          ∃ file ∈ SourceFile.packaged files, ∃ s ∈ (PackageScope.ofFile file).within,
            key = Package.name file.fileName options.rootDir ∧
              ∃ ownName, '.' ∉ ownName.toList ∧ name = s.qualified ownName) := by
  -- the layout is looked at only when the pass is at its end
  have hcatalog : ∀ layout, catalog? host (options.laidOut layout) bound files
      = some (p.finish (options.laidOut layout)) := by
    intro layout
    have hrun : initial.run? host (options.laidOut layout) bound files = some p := hr
    rw [catalog?, hrun, Option.map_some]
  refine ⟨_, _, hcatalog .nested, hcatalog .flat, rfl, rfl, fun hu => ⟨?_, ?_, ?_⟩⟩
  · intro file hfile s hs name hn
    refine Option.ext fun slot => ?_
    exact (lookup_nameIn_iff hr hu .nested hfile hs hn).trans
      (lookup_nameIn_iff hr hu .flat hfile hs hn).symm
  · intro key name slot hslot
    obtain ⟨file, hfile, s, hs, rfl, d, hd, rfl, -⟩ :=
      (lookup_iff_of_unambiguous hr hu .nested).mp hslot
    exact ⟨file, hfile, s, hs, rfl, hu.dot_notMem hfile hs hd⟩
  · intro key name slot hslot
    obtain ⟨file, hfile, s, hs, rfl, d, hd, rfl, -⟩ :=
      (lookup_iff_of_unambiguous hr hu .flat).mp hslot
    exact ⟨file, hfile, s, hs, rfl, d.name, hu.dot_notMem hfile hs hd, rfl⟩

end Pass

/-- Two files that declare one name in three scopes: a class takes it from an interface in a
namespace, and what declares it in the second file cannot be catalogued. -/
def Program.threefold : Program where
  types := [.object .interfaceForm (ObjectShape.named "N"),
    .object .interfaceForm (ObjectShape.named "N"), .object .classForm (ObjectShape.named "N"),
    .unmodelled "mapped type"]
  declarations := [⟨10⟩, ⟨11⟩, ⟨12⟩, ⟨13⟩]
  files := [
    ⟨"a.ts", [.interfaceDeclaration ⟨0⟩ (some "N"), .nameSpace "p"
      [.interfaceDeclaration ⟨1⟩ (some "N"), .classDeclaration ⟨2⟩ (some "N")]], false⟩,
    ⟨"b.ts", [.interfaceDeclaration ⟨3⟩ (some "N")], false⟩]
  representatives := _
  no_problem := by decide
  representatives_eq := rfl

/-- With both layouts the name is published for the first file and for the class in its
namespace, and for the second file with neither. -/
theorem Pass.layouts_agree_of_threefold :
    ∃ nestedOutput flatOutput : CatalogOutput,
      catalog? Program.threefold.host (.laidOut .default .nested) Program.threefold.typeCount
        Program.threefold.files = some nestedOutput ∧
      catalog? Program.threefold.host (.laidOut .default .flat) Program.threefold.typeCount
        Program.threefold.files = some flatOutput ∧
      nestedOutput.table.populations = flatOutput.table.populations ∧
      flatOutput.table.lookup "a" "N" = some ⟨0⟩ ∧ flatOutput.table.lookup "a" "p.N" = some ⟨1⟩ ∧
      flatOutput.table.lookup "b" "N" = none := by
  have hu : Listing.IsUnambiguous (PackageLayout.nested.listings none Program.threefold.files) :=
    ⟨by decide +kernel, by decide +kernel⟩
  have hlookups : (catalog? Program.threefold.host (.laidOut .default .nested)
      Program.threefold.typeCount Program.threefold.files).map
        (fun output => (output.table.lookup "a" "N", output.table.lookup "a.p" "N",
          output.table.lookup "b" "N"))
      = some (some ⟨0⟩, some ⟨1⟩, none) := by
    decide +kernel
  obtain ⟨p, hp⟩ := Program.threefold.exists_run? (rfl : Program.threefold.host.kind = _) .default
    Program.threefold.files
  obtain ⟨nestedOutput, flatOutput, hnested, hflat, -, hpopulations, hall⟩ :=
    layouts_agree_of_run? Program.threefold.host .default Program.threefold.typeCount
      Program.threefold.files p (hp _ (Nat.le_refl _))
  rw [hnested, Option.map_some, Option.some.injEq, Prod.mk.injEq, Prod.mk.injEq] at hlookups
  obtain ⟨hfirst, hinner, hsecond⟩ := hlookups
  obtain ⟨hsame, -, -⟩ := hall hu
  have ha := hsame Program.threefold.files[0] List.mem_cons_self
  have hb := hsame Program.threefold.files[1] (List.mem_cons_of_mem _ List.mem_cons_self)
  have haName : Package.name Program.threefold.files[0].fileName CatalogOptions.default.rootDir
      = "a" := by decide +kernel
  have hbName : Package.name Program.threefold.files[1].fileName CatalogOptions.default.rootDir
      = "b" := by decide +kernel
  rw [haName] at ha
  rw [hbName] at hb
  have hN := ha _ (PackageScope.mem_within_self _) "N" (by decide)
  have hpN := ha _ (PackageScope.inner_mem_within _ "p" (by decide)) "N" (by decide)
  have hbN := hb _ (PackageScope.mem_within_self _) "N" (by decide)
  exact ⟨nestedOutput, flatOutput, hnested, hflat, hpopulations, hN ▸ hfirst, hpN ▸ hinner,
    hbN ▸ hsecond⟩

end TypeCatalog
