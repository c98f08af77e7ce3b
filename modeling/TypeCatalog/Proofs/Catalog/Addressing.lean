/-
Which records are found by qualified names.

A qualified name is a key and a name with a number sign between them.  It is
taken apart at its first number sign, and refused if a part of it is empty or if
there is another number sign (`splitQualifiedName_join`).  Keys and names are
made without regard to this: the names of namespaces are sanitized, but paths and
the names of declarations are taken as they are.

So a record is found by the qualified name of an entry exactly if both parts of
it are `IsNamePart`, and then no other entry has this qualified name; all entries
are found this way if the paths and declarations have such names
(`Program.finds_of_load`).  The others can still be found by key and name.
-/
import TypeCatalog.Proofs.Catalog.Emission
import TypeCatalog.Proofs.Catalog.Publication
import TypeCatalog.Proofs.Identifier

namespace TypeCatalog

/-! ### Qualified names -/

/-- What can be a part of a qualified name: something without a number sign. -/
def IsNamePart (part : String) : Prop := part ≠ "" ∧ '#' ∉ part.toList

instance (part : String) : Decidable (IsNamePart part) :=
  inferInstanceAs (Decidable (_ ∧ _))

/-- A qualified name is taken apart at its first number sign. -/
theorem splitQualifiedName_eq {qualified : String} {package name : List Char}
    (hq : qualified.toList = package ++ '#' :: name) (hp : '#' ∉ package) :
    splitQualifiedName qualified =
      if package = [] ∨ name = [] ∨ '#' ∈ name then .error (.malformedName qualified)
      else .ok (String.ofList package, String.ofList name) := by
  have hall : ∀ c ∈ package, decide (c ≠ '#') = true := by
    intro c hc
    exact decide_eq_true fun h => hp (h ▸ hc)
  have hpackage : qualified.toList.takeWhile (· ≠ '#') = package := by
    rw [hq, List.takeWhile_append_of_pos hall]
    simp
  have hname : qualified.toList.drop (package.length + 1) = name := by
    rw [hq]
    simp
  simp only [splitQualifiedName, hpackage, hname]

/-- The parts of a qualified name are found again if they can be parts of one. -/
theorem splitQualifiedName_join (package name : String) :
    splitQualifiedName (package ++ "#" ++ name) =
      if IsNamePart package ∧ IsNamePart name then .ok (package, name)
      else .error (.malformedName (package ++ "#" ++ name)) := by
  have hq : (package ++ "#" ++ name).toList = package.toList ++ '#' :: name.toList := by
    simp
  by_cases hp : '#' ∈ package.toList
  · -- what comes behind the first number sign has another one
    obtain ⟨before, after, hpackage, hbefore⟩ := List.eq_append_cons_of_mem hp
    rw [hpackage, List.append_assoc, List.cons_append] at hq
    rw [splitQualifiedName_eq hq hbefore, if_pos (.inr (.inr (by simp))),
      if_neg fun h => h.1.2 hp]
  · have hrefused : (package.toList = [] ∨ name.toList = [] ∨ '#' ∈ name.toList) ↔
        ¬ (IsNamePart package ∧ IsNamePart name) := by
      rw [String.toList_eq_nil_iff, String.toList_eq_nil_iff, IsNamePart, IsNamePart]
      tauto
    rw [splitQualifiedName_eq hq hp, String.ofList_toList, String.ofList_toList]
    by_cases h : IsNamePart package ∧ IsNamePart name
    · rw [if_pos h, if_neg fun h' => hrefused.mp h' h]
    · rw [if_neg h, if_pos (hrefused.mpr h)]

/-- Two keys and names make the same qualified name only if they are the same. -/
theorem eq_of_join_eq {package name package' name' : String} (hp : IsNamePart package)
    (hn : IsNamePart name) (h : package' ++ "#" ++ name' = package ++ "#" ++ name) :
    package' = package ∧ name' = name := by
  have hsplit := splitQualifiedName_join package' name'
  rw [h, splitQualifiedName_join, if_pos ⟨hp, hn⟩] at hsplit
  split at hsplit
  · cases hsplit
    exact ⟨rfl, rfl⟩
  · cases hsplit

namespace Shelf

variable {s : Shelf} {l : Library} {package name : String} {n : TypeNode}

/-- A record of the default library is found by its qualified name, as what it is; and it
is found by key and name. -/
structure Finds (s : Shelf) (l : Library) (package name : String) (n : TypeNode) : Prop where
  classIn : n.kind.isClass = true → s.classIn defaultLibrary package name = .ok ⟨l, n⟩
  interfaceIn : n.kind.isInterface = true → s.interfaceIn defaultLibrary package name = .ok ⟨l, n⟩
  asClass : IsNamePart package → IsNamePart name → n.kind.isClass = true →
    s.classForName (package ++ "#" ++ name) = .ok ⟨l, n⟩
  asInterface : IsNamePart package → IsNamePart name → n.kind.isInterface = true →
    s.interfaceForName (package ++ "#" ++ name) = .ok ⟨l, n⟩
  malformed : ¬ (IsNamePart package ∧ IsNamePart name) →
    s.classForName (package ++ "#" ++ name) = .error (.malformedName (package ++ "#" ++ name)) ∧
      s.interfaceForName (package ++ "#" ++ name)
        = .error (.malformedName (package ++ "#" ++ name))

theorem classForName_join (s : Shelf) (package name : String) :
    s.classForName (package ++ "#" ++ name) =
      if IsNamePart package ∧ IsNamePart name then s.classIn defaultLibrary package name
      else .error (.malformedName (package ++ "#" ++ name)) := by
  rw [classForName, classOf, splitQualifiedName_join]
  split <;> rfl

theorem interfaceForName_join (s : Shelf) (package name : String) :
    s.interfaceForName (package ++ "#" ++ name) =
      if IsNamePart package ∧ IsNamePart name then s.interfaceIn defaultLibrary package name
      else .error (.malformedName (package ++ "#" ++ name)) := by
  rw [interfaceForName, splitQualifiedName_join]
  split <;> rfl

/-- What the default library gives for a name, a shelf finds. -/
theorem finds_of_gives (hl : s.library defaultLibrary = .ok l) (hn : l.Gives package name n) :
    s.Finds l package name n := by
  have hclass : n.kind.isClass = true → s.classIn defaultLibrary package name = .ok ⟨l, n⟩ := by
    intro h
    rw [classIn, hl]
    show (do let node ← l.classForName package name; return (⟨l, node⟩ : TypeView)) = _
    rw [hn.asClass h]
    rfl
  have hinterface : n.kind.isInterface = true →
      s.interfaceIn defaultLibrary package name = .ok ⟨l, n⟩ := by
    intro h
    rw [interfaceIn, hl]
    show (do let node ← l.interfaceForName package name; return (⟨l, node⟩ : TypeView)) = _
    rw [hn.asInterface h]
    rfl
  refine ⟨hclass, hinterface, fun hp hn h => ?_, fun hp hn h => ?_, fun h => ⟨?_, ?_⟩⟩
  · rw [classForName_join, if_pos ⟨hp, hn⟩, hclass h]
  · rw [interfaceForName_join, if_pos ⟨hp, hn⟩, hinterface h]
  · rw [classForName_join, if_neg h]
  · rw [interfaceForName_join, if_neg h]

end Shelf

/-! ### Keys and names of scopes -/

theorem Identifier.hash_notMem_sanitize (name : String) : '#' ∉ (sanitize name).toList :=
  fun h => absurd (continuesName_of_mem_sanitize h) (by decide)

namespace PackageScope

variable {s s' : PackageScope}

theorem hash_notMem_qualified {name : String} (hs : '#' ∉ s.fullName.toList)
    (hn : '#' ∉ name.toList) : '#' ∉ (s.qualified name).toList := by
  unfold qualified
  split
  · exact hn
  · simp [hs, hn]

/-- The names of scopes are made of sanitized names. -/
theorem hash_notMem_fullName (hs : '#' ∉ s.fullName.toList) (hmem : s' ∈ s.within) :
    '#' ∉ s'.fullName.toList := by
  induction s using within.induct with
  | case1 s ih =>
    rw [within_eq, List.mem_cons, List.mem_flatMap] at hmem
    obtain rfl | ⟨name, hname, hmem⟩ := hmem
    · exact hs
    · obtain ⟨statement, -, hopens⟩ := Statement.mem_namespaces.mp hname
      have hsafe : '#' ∉ name.toList := by
        cases statement with
        | nameSpace name' body =>
          cases hopens
          exact Identifier.hash_notMem_sanitize name'
        | _ => cases hopens
      exact ih ⟨name, hname⟩ (hash_notMem_qualified hs hsafe) hmem

end PackageScope

/-- The package of a file and all that is declared in it have names that can be parts of
qualified names. -/
def SourceFile.IsAddressable (rootDir : Option String) (file : SourceFile) : Prop :=
  IsNamePart (Package.name file.fileName rootDir) ∧
    ∀ s ∈ (PackageScope.ofFile file).within, ∀ d ∈ Statement.named s.statements, IsNamePart d.name

/-- Then the keys and names of the file can be such parts. -/
theorem isNamePart_of_mem_listings {layout : PackageLayout} {rootDir : Option String}
    {files : List SourceFile}
    (hfiles : ∀ file ∈ SourceFile.packaged files, file.IsAddressable rootDir) {l : Listing}
    (hl : l ∈ layout.listings rootDir files) {d : Declared} (hd : d ∈ l.declared) :
    IsNamePart l.key ∧ IsNamePart d.name := by
  obtain ⟨file, hfile, hl⟩ := List.mem_flatMap.mp hl
  obtain ⟨s, hs, rfl⟩ := List.mem_map.mp hl
  obtain ⟨r, hr, rfl⟩ := List.mem_map.mp hd
  obtain ⟨⟨hne, hkey⟩, hnames⟩ := hfiles file hfile
  obtain ⟨hrne, hrname⟩ := hnames s hs r hr
  have hscope : '#' ∉ s.fullName.toList :=
    PackageScope.hash_notMem_fullName (by simp [PackageScope.ofFile]) hs
  cases layout with
  | nested =>
    refine ⟨?_, hrne, hrname⟩
    show IsNamePart (PackageLayout.nested.scopeKey _ s)
    unfold PackageLayout.scopeKey
    dsimp only
    split
    · exact ⟨hne, hkey⟩
    · exact ⟨by simp, by simp [hkey, hscope]⟩
  | flat =>
    refine ⟨⟨hne, hkey⟩, ?_, PackageScope.hash_notMem_qualified hscope hrname⟩
    show s.qualified r.name ≠ ""
    unfold PackageScope.qualified
    split
    · exact hrne
    · simp

/-! ### Entries of loaded tables -/

/-- Cataloguing a program for the default library comes to an end, and any shelf loads
the table unless it has too many slots.  Then the record of every entry is found by
its qualified name if its key and its name can be parts of one, and no other entry
has this qualified name; if they cannot, the qualified name is malformed.  They can
if this holds of the packages of all files and of all that is declared in them. -/
theorem Program.finds_of_load (program : Program) {options : CatalogOptions}
    (hlibrary : options.libraryName = defaultLibrary) (files : List SourceFile) :
    ∃ p : Pass,
      (∀ bound, program.typeCount ≤ bound →
        Pass.initial.run? program.host options bound files = some p) ∧
      ((p.finish options).table.slotCount ≤ greatestSlotCount →
        ∀ shelf : Shelf, ∃ l shelf', shelf.load (p.finish options).table = .ok (l, shelf') ∧
          ∀ package name slot, (p.finish options).table.lookup package name = some slot →
            ∃ n, (p.finish options).table.population? slot = some n ∧
              shelf'.Finds l package name n) ∧
      (∀ package name, IsNamePart package → IsNamePart name →
        ∀ package' name' slot, (p.finish options).table.lookup package' name' = some slot →
          package' ++ "#" ++ name' = package ++ "#" ++ name →
            package' = package ∧ name' = name) ∧
      ((∀ file ∈ SourceFile.packaged files, file.IsAddressable options.rootDir) →
        ∀ package name slot, (p.finish options).table.lookup package name = some slot →
          IsNamePart package ∧ IsNamePart name) := by
  obtain ⟨p, hp⟩ := program.exists_run? (rfl : program.host.kind = _) options files
  have hr := hp _ (Nat.le_refl _)
  have hkept : Pass.Kept program.host options fun log p => p.Orderly program.host log [] :=
    Pass.orderly_kept
  have hcomplete : (p.finish options).table.IsComplete :=
    (hkept.run Pass.orderly_initial hr).isComplete_finish (Pass.pending_of_drain? hr)
  refine ⟨p, hp, fun hsize shelf => ?_, ?_, ?_⟩
  · obtain ⟨l, hl⟩ := Library.load_ok_iff.mpr ⟨hsize, hcomplete⟩
    obtain ⟨shelf', hload, hfound⟩ := shelf.exists_load hl
    have hdefault : shelf'.library defaultLibrary = .ok l := hlibrary ▸ hfound
    refine ⟨l, shelf', hload, fun package name slot hslot => ?_⟩
    obtain ⟨n, -, -, hn, hgives⟩ := Library.gives_of_load hl hslot
    exact ⟨n, hn, Shelf.finds_of_gives hdefault hgives⟩
  · intro package name hpackage hname package' name' _ _ hjoin
    exact eq_of_join_eq hpackage hname hjoin
  · intro hfiles package name slot hslot
    obtain ⟨l, hl, rfl, d, hd, rfl, -⟩ := Pass.exists_winner_of_lookup hr hslot
    exact isNamePart_of_mem_listings hfiles hl (Declared.mem_of_mem_winners hd)

/-- Number signs in the name of a file and in the name of a namespace. -/
def Program.signed : Program where
  types := [.object .classForm (ObjectShape.named "N"),
    .object .interfaceForm (ObjectShape.named "I")]
  declarations := [⟨10⟩, ⟨10⟩, ⟨11⟩]
  files := [⟨"a#b.ts", [.classDeclaration ⟨0⟩ (some "N")], false⟩,
    ⟨"c.ts", [.classDeclaration ⟨1⟩ (some "N"),
      .nameSpace "x#y" [.interfaceDeclaration ⟨2⟩ (some "I")]], false⟩]
  representatives := _
  no_problem := by decide
  representatives_eq := rfl

theorem Program.run_signed :
    (Pass.initial.run? signed.host .default signed.typeCount signed.files).map
      (fun p => ((p.finish .default).table.slotCount,
        [("a#b", "N"), ("c", "N"), ("c.x_y", "I")].map fun e =>
          (p.finish .default).table.lookup e.1 e.2,
        (p.finish .default).table.populations.map fun n =>
          (n.slot.index, n.kind.isClass, n.kind.isInterface)))
      = some (2, [some ⟨0⟩, some ⟨0⟩, some ⟨1⟩], [(0, true, false), (1, false, true)]) := by
  decide +kernel

/-- The records of the second file are found, and the one of the first file is not. -/
theorem Program.finds_signed :
    ∃ p l shelf, Pass.initial.run? signed.host .default signed.typeCount signed.files = some p ∧
      Shelf.empty.load (p.finish .default).table = .ok (l, shelf) ∧
      (∃ n ∈ p.populations, n.slot = ⟨0⟩ ∧ shelf.classForName "c#N" = .ok ⟨l, n⟩) ∧
      (∃ n ∈ p.populations, n.slot = ⟨1⟩ ∧ shelf.interfaceForName "c.x_y#I" = .ok ⟨l, n⟩) ∧
      shelf.classForName "a#b#N" = .error (.malformedName "a#b#N") := by
  have hlibrary : CatalogOptions.default.libraryName = defaultLibrary := rfl
  obtain ⟨p, hp, hload, -, -⟩ := finds_of_load signed hlibrary signed.files
  have hrun := hp _ (Nat.le_refl _)
  have hp' := run_signed
  rw [hrun, Option.map_some, Option.some.injEq] at hp'
  obtain ⟨hsize, hp'⟩ := Prod.mk.inj hp'
  obtain ⟨hslots, hkinds⟩ := Prod.mk.inj hp'
  simp only [List.map_cons, List.map_nil, List.cons.injEq, and_true] at hslots
  obtain ⟨hfirst, hclass, hinterface⟩ := hslots
  obtain ⟨l, shelf, hloaded, hentries⟩ := hload (by rw [hsize]; decide) Shelf.empty
  have hkind : ∀ n ∈ p.populations, (n.slot.index, n.kind.isClass, n.kind.isInterface) ∈
      [(0, true, false), (1, false, true)] := by
    intro n hn
    exact hkinds ▸ List.mem_map_of_mem hn
  obtain ⟨c, hc, hcfinds⟩ := hentries "c" "N" _ hclass
  obtain ⟨i, hi, hifinds⟩ := hentries "c.x_y" "I" _ hinterface
  obtain ⟨_, -, hsigned⟩ := hentries "a#b" "N" _ hfirst
  have hcmem : c ∈ p.populations := List.mem_of_find?_eq_some hc
  have himem : i ∈ p.populations := List.mem_of_find?_eq_some hi
  have hcslot : c.slot = ⟨0⟩ := by simpa using List.find?_some hc
  have hislot : i.slot = ⟨1⟩ := by simpa using List.find?_some hi
  have hckind : c.kind.isClass = true := by
    have h := hkind c hcmem
    simp [hcslot] at h
    exact h.1
  have hikind : i.kind.isInterface = true := by
    have h := hkind i himem
    simp [hislot] at h
    exact h.2
  refine ⟨p, l, shelf, hrun, hloaded, ⟨c, hcmem, hcslot, ?_⟩, ⟨i, himem, hislot, ?_⟩, ?_⟩
  · exact hcfinds.asClass (by decide) (by decide) hckind
  · exact hifinds.asInterface (by decide) (by decide) hikind
  · exact (hsigned.malformed (by decide)).1

/-- A class that is published need not be found by its qualified name. -/
theorem Program.not_classForName_of_published :
    ¬ ∀ (program : Program) (options : CatalogOptions) (files : List SourceFile) (p : Pass)
        (shelf shelf' : Shelf) (l : Library), options.libraryName = defaultLibrary →
      Pass.initial.run? program.host options program.typeCount files = some p →
      shelf.load (p.finish options).table = .ok (l, shelf') →
      ∀ package name slot n, (p.finish options).table.lookup package name = some slot →
        (p.finish options).table.population? slot = some n → n.kind.isClass = true →
        shelf'.classForName (package ++ "#" ++ name) = .ok ⟨l, n⟩ := by
  intro h
  have hrun : (Pass.initial.run? signed.host .default signed.typeCount signed.files).map
      (fun p => ((p.finish .default).table.lookup "a#b" "N",
        ((p.finish .default).table.population? ⟨0⟩).map fun n => n.kind.isClass,
        (Shelf.empty.load (p.finish .default).table).toOption.isSome))
      = some (some ⟨0⟩, some true, true) := by
    decide +kernel
  obtain ⟨p, hp, hfacts⟩ := Option.map_eq_some_iff.mp hrun
  obtain ⟨hslot, hfacts⟩ := Prod.mk.inj hfacts
  obtain ⟨hrecord, hload⟩ := Prod.mk.inj hfacts
  obtain ⟨n, hn, hkind⟩ := Option.map_eq_some_iff.mp hrecord
  cases hshelf : Shelf.empty.load (p.finish .default).table with
  | error e =>
    rw [hshelf] at hload
    cases hload
  | ok loaded =>
    have hfound := h signed .default signed.files p .empty loaded.2 loaded.1 rfl hp hshelf
      "a#b" "N" _ n hslot hn hkind
    rw [Shelf.classForName_join, if_neg (by decide)] at hfound
    cases hfound

end TypeCatalog
