/-
Under which name a declared type is published.

The name of a record is fixed when its slot is given out, and that is done by
whoever comes first.  A declaration that comes first gives the name it declares;
a type that refers to another one comes first as soon as it is itself declared,
and the other one then goes by its own name, or by a placeholder if it has none,
whatever is declared later.  So the first declaration of a type names its record
exactly when no type that was declared before refers to the type
(`Program.name_of_declared`).

`Pass.Foretold` is what the declarations keep: a type that has a slot has been
declared, or is known from a declared type that refers to it.
-/
import TypeCatalog.Proofs.Catalog.Sight

namespace TypeCatalog

namespace TypeHost

variable {host : TypeHost} {h t type : TypeHandle} {decls decls' : List DeclId}

/-- The name by which a type goes when nobody declares it. -/
def nameOf? (host : TypeHost) (type : TypeHandle) : Option String :=
  match host.classify type with
  | .shape _ name _ => name
  | _ => none

/-- One of the declared types refers to a type with this representative. -/
def IsForeseen (host : TypeHost) (decls : List DeclId) (h : TypeHandle) : Prop :=
  ∃ decl ∈ decls, ∃ t, host.Refers (host.canonical (host.resolve decl)) t ∧ host.canonical t = h

theorem mem_typesOf :
    h ∈ host.typesOf decls ↔ ∃ decl ∈ decls, host.handle? (host.resolve decl) = some h := by
  rw [typesOf, List.mem_eraseDups, List.mem_filterMap]

theorem mem_typesOf_append (hh : h ∈ host.typesOf decls) :
    h ∈ host.typesOf (decls ++ decls') := by
  obtain ⟨decl, hd, hdecl⟩ := mem_typesOf.mp hh
  exact mem_typesOf.mpr ⟨decl, List.mem_append_left _ hd, hdecl⟩

/-- What is foreseen is referred to by one of the declared types. -/
theorem isForeseen_iff : host.IsForeseen decls h ↔
    ∃ h' ∈ host.typesOf decls, ∃ t, host.Refers h' t ∧ host.canonical t = h := by
  constructor
  · rintro ⟨decl, hd, t, hr, ht⟩
    refine ⟨_, mem_typesOf.mpr ⟨decl, hd, ?_⟩, t, hr, ht⟩
    exact handle?_eq_some_iff.mpr ⟨hr.isSupported, rfl⟩
  · rintro ⟨h', hh', t, hr, ht⟩
    obtain ⟨decl, hd, hdecl⟩ := mem_typesOf.mp hh'
    rw [← (handle?_eq_some_iff.mp hdecl).2] at hr
    exact ⟨decl, hd, t, hr, ht⟩

end TypeHost

namespace Pass

variable {host : TypeHost} {options : CatalogOptions} {p q : Pass} {log : Log}
  {decls : List DeclId} {files : List SourceFile} {bound : Nat}

/-! ### What declarations keep -/

/-- Types have been declared, and what has a slot without having been declared is
described by a declared type that refers to it. -/
structure Foretold (host : TypeHost) (decls : List DeclId) (log : Log) (p : Pass) : Prop where
  introduced : p.Introduced host decls log
  foretold : ∀ e ∈ p.registry.entries, e.handle ∉ host.typesOf decls →
    ∃ h ∈ host.typesOf decls, ∃ t, host.Refers h t ∧
      host.classify t = .shape e.handle e.name e.shape

theorem Foretold.declare (hp : p.Foretold host decls log) (decl : DeclId) (label : String) :
    (p.declare host decl label).Foretold host (decls ++ [decl])
      (log ++ p.joined (p.declare host decl label)) := by
  refine ⟨hp.introduced.declare decl label, ?_⟩
  have hold : ∀ e ∈ p.registry.entries, e.handle ∉ host.typesOf (decls ++ [decl]) →
      ∃ h ∈ host.typesOf (decls ++ [decl]), ∃ t, host.Refers h t ∧
        host.classify t = .shape e.handle e.name e.shape := by
    intro e he hnot
    obtain ⟨h, hh, hrefers⟩ :=
      hp.foretold e he fun hmem => hnot (TypeHost.mem_typesOf_append hmem)
    exact ⟨h, TypeHost.mem_typesOf_append hh, hrefers⟩
  obtain ⟨-, report, he⟩ | ⟨h, name, shape, hc, he⟩ := declare_cases host p decl label
  · rw [he]
    exact hold
  · have hmem : h ∈ host.typesOf (decls ++ [decl]) :=
      TypeHost.mem_typesOf.mpr ⟨decl, List.mem_append_right _ (List.mem_singleton.mpr rfl),
        TypeHost.handle?_of_classify hc⟩
    have ho := hp.introduced.orderly.assign hc label
    rw [he]
    intro e hentry hnot
    rcases mem_entries_settle ho.serves hentry with hentry | ⟨e', he', t, hrefers, hclass⟩
    · obtain ⟨slot, -, hi⟩ | ⟨-, hi⟩ := p.registry.identify_cases h (some label) shape
      · rw [assign, hi] at hentry
        exact hold e hentry hnot
      · rw [assign, hi] at hentry
        rcases List.mem_append.mp hentry with hentry | hentry
        · exact hold e hentry hnot
        · -- the only new entry is that of the declared type
          cases List.mem_singleton.mp hentry
          exact absurd hmem hnot
    · obtain ⟨e'', he'', hhandle⟩ := Registry.entry?_of_lookup
        (p.registry.lookup_identify h (some label) shape)
      change Registry.entry? (p.registry.identify h (some label) shape).2 _ = some e' at he'
      rw [he''] at he'
      cases he'
      exact ⟨h, hmem, t, hhandle ▸ hrefers, hclass⟩

theorem Foretold.declareAll (hp : p.Foretold host [] log)
    (declarations : List (DeclId × String)) :
    (declarations.foldl (fun p d => p.declare host d.1 d.2) p).Foretold host
      (declarations.map Prod.fst) (log ++ p.joinedByDeclaring host declarations) := by
  refine declareAll_induction
    (motive := fun done log p => p.Foretold host (done.map Prod.fst) log) declarations
    (fun {done log p} d _ h => ?_) hp
  rw [List.map_append]
  exact h.declare d.1 d.2

/-! ### The name of a slot -/

/-- What a declared type refers to has a slot. -/
theorem Foretold.isLinked (hp : p.Foretold host decls log) {h t : TypeHandle}
    (hh : h ∈ host.typesOf decls) (hr : host.Refers h t) : host.IsLinked p.registry t := by
  obtain ⟨slot, hslot, hl⟩ := hp.introduced.slots.exists_slot hh
  obtain ⟨n, hn, rfl⟩ := List.mem_map.mp hslot
  obtain ⟨e, he, -, -, hlinked⟩ := hp.introduced.orderly.drawn n hn
  obtain ⟨e', he', rfl⟩ := Registry.entry?_of_lookup hl
  rw [he] at he'
  cases he'
  have hshape := hp.introduced.orderly.serves.shaped e (Registry.mem_entries_of_entry he)
  exact hlinked t ((TypeHost.refers_iff hshape).mp hr)

/-- A declaration names the slot that it gives out. -/
theorem exists_entry_declare {decl : DeclId} {h : TypeHandle} {name : Option String}
    {shape : Shape} (hc : host.classify (host.resolve decl) = .shape h name shape)
    (hl : p.registry.lookup h = none) (label : String) :
    ∃ slot, (p.declare host decl label).registry.lookup h = some slot ∧
      Registry.entry? (p.declare host decl label).registry slot = some ⟨h, some label, shape⟩ := by
  obtain ⟨hno, -⟩ | ⟨h', name', shape', hc', he⟩ := declare_cases host p decl label
  · exact absurd hc (hno _ _ _)
  rw [hc] at hc'
  cases hc'
  have hidentify : p.registry.identify h (some label) shape
      = (⟨⟨p.registry.size⟩, true⟩, ⟨p.registry.entries ++ [⟨h, some label, shape⟩]⟩) := by
    rw [Registry.identify, hl]
  have hlook := p.registry.lookup_identify h (some label) shape
  have hentry : Registry.entry? (p.assign decl label h shape).registry ⟨p.registry.size⟩
      = some ⟨h, some label, shape⟩ := by
    rw [assign, hidentify]
    exact List.getElem?_concat_length
  -- settling the slot gives out others, which come after it
  have hsettle := (@leadsTo_settle host (p.assign decl label h shape)
    (p.registry.identify h (some label) shape).1.slot).registry
  rw [he]
  refine ⟨_, Registry.lookup_of_growsTo hsettle hlook, ?_⟩
  rw [hidentify] at hsettle ⊢
  exact Registry.entry?_of_growsTo hsettle hentry

/-- The first declaration of a type names its slot, unless the type was foreseen. -/
theorem Foretold.name_declare (hp : p.Foretold host decls log) {decl : DeclId} {h : TypeHandle}
    {name : Option String} {shape : Shape}
    (hc : host.classify (host.resolve decl) = .shape h name shape)
    (hnew : h ∉ host.typesOf decls) (label : String) :
    ∃ slot e, (p.declare host decl label).registry.lookup h = some slot ∧
      Registry.entry? (p.declare host decl label).registry slot = some e ∧
      (host.IsForeseen decls h → e.name = name) ∧
      (¬ host.IsForeseen decls h → e.name = some label) := by
  have hcanonical := TypeHost.handle_of_classify hc
  have hgrow : p.registry.GrowsTo (p.declare host decl label).registry :=
    (p.leadsTo_declare decl label).registry
  cases hl : p.registry.lookup h with
  | some slot =>
    obtain ⟨e, hentry, rfl⟩ := Registry.entry?_of_lookup hl
    obtain ⟨h', hh', t, hrefers, hclass⟩ :=
      hp.foretold e (Registry.mem_entries_of_entry hentry) hnew
    have htarget := TypeHost.handle_of_classify hclass
    have hforeseen : host.IsForeseen decls e.handle :=
      TypeHost.isForeseen_iff.mpr ⟨h', hh', t, hrefers, htarget.symm⟩
    -- both are what one representative is catalogued as
    rw [TypeHost.classify_eq_of_canonical_eq (htarget.symm.trans hcanonical), hc] at hclass
    cases hclass
    exact ⟨slot, e, Registry.lookup_of_growsTo hgrow hl, Registry.entry?_of_growsTo hgrow hentry,
      fun _ => rfl, fun hnot => absurd hforeseen hnot⟩
  | none =>
    have hnot : ¬ host.IsForeseen decls h := by
      intro hforeseen
      obtain ⟨h', hh', t, hrefers, htarget⟩ := TypeHost.isForeseen_iff.mp hforeseen
      have hclass : host.classify t = .shape h name shape :=
        (TypeHost.classify_eq_of_canonical_eq (htarget.trans hcanonical)).trans hc
      obtain ⟨slot, hslot⟩ := hp.isLinked hh' hrefers _ _ _ hclass
      rw [hl] at hslot
      cases hslot
    obtain ⟨slot, hslot, hentry⟩ := exists_entry_declare hc hl label
    exact ⟨slot, _, hslot, hentry, fun hforeseen => absurd hforeseen hnot, fun _ => rfl⟩

/-- In a first run, the first declaration of a type names its record, unless a type
that was declared before refers to it. -/
theorem name_of_run? (hr : initial.run? host options bound files = some p)
    {before after : List ((String × DeclarationKind) × DeclId)}
    {e : (String × DeclarationKind) × DeclId}
    (hfiles : (SourceFile.packaged files).flatMap SourceFile.registered = before ++ e :: after)
    (hs : (host.kindOf (host.resolve e.2)).IsSupported)
    (hfirst : ∀ e' ∈ before,
      host.canonical (host.resolve e'.2) ≠ host.canonical (host.resolve e.2)) :
    ∃ n ∈ p.populations, p.slotOf? e.2 = some n.slot ∧
      (host.IsForeseen (before.map Prod.snd) (host.canonical (host.resolve e.2)) →
        n.name = host.nameOf? (host.resolve e.2)) ∧
      (¬ host.IsForeseen (before.map Prod.snd) (host.canonical (host.resolve e.2)) →
        n.name = some e.1.1) := by
  have ho := orderly_initial.run hr
  obtain ⟨name, shape, hc⟩ := TypeHost.classify_of_isSupported hs
  have hdeclarations : initial.declarationsOf options files
      = before.map (fun e => (e.2, e.1.1)) ++ (e.2, e.1.1) :: after.map fun e => (e.2, e.1.1) := by
    rw [declarationsOf_eq (PackageTree.represents_empty options.rootDir) files, hfiles,
      List.map_append, List.map_cons]
  have hgrown : (initial.growTree options files).2.Foretold host [] [] :=
    ⟨⟨orderly_initial.grow files, rfl⟩, fun _ he => absurd he List.not_mem_nil⟩
  have hbefore := hgrown.declareAll (before.map fun e => (e.2, e.1.1))
  rw [List.map_map] at hbefore
  obtain ⟨q, hq⟩ : ∃ q, q = (before.map fun e => (e.2, e.1.1)).foldl
    (fun p d => p.declare host d.1 d.2) (initial.growTree options files).2 := ⟨_, rfl⟩
  rw [← hq] at hbefore
  have hnew : host.canonical (host.resolve e.2) ∉ host.typesOf (before.map Prod.snd) := by
    intro hmem
    obtain ⟨decl, hdecl, hh⟩ := TypeHost.mem_typesOf.mp hmem
    obtain ⟨e', he', rfl⟩ := List.mem_map.mp hdecl
    exact hfirst e' he' (TypeHost.handle?_eq_some_iff.mp hh).2
  obtain ⟨slot, entry, hlook, hentry, hnames⟩ := hbefore.name_declare hc hnew e.1.1
  -- what follows leaves the entry as it is, and its record is made of it
  have hgrow : (q.declare host e.2 e.1.1).registry.GrowsTo p.registry := by
    have hlater : (initial.declareFiles host options files).LeadsTo p := leadsTo_of_drain? hr
    rw [declareFiles, hdeclarations, List.foldl_append, ← hq, List.foldl_cons] at hlater
    exact ((leadsTo_declareAll _ _).trans hlater).registry
  obtain ⟨n, hn, rfl, hname, -⟩ := ho.exists_drawn (pending_of_drain? hr)
    (Registry.entry?_of_growsTo hgrow hentry)
  obtain ⟨slot', hdecl, hlook'⟩ := declared_of_mem_declarationsOf hr ho
    (hdeclarations ▸ List.mem_append_right _ List.mem_cons_self) hc
  rw [Registry.lookup_of_growsTo hgrow hlook] at hlook'
  cases hlook'
  refine ⟨n, hn, hdecl, fun hforeseen => ?_, fun hnot => hname.trans (hnames.2 hnot)⟩
  rw [hname, hnames.1 hforeseen, TypeHost.nameOf?, hc]

end Pass

/-- Cataloguing a program comes to an end.  The first declaration of a type names the
record of the type if no type that is declared before refers to the type; otherwise
the type goes by its own name. -/
theorem Program.name_of_declared (program : Program) (options : CatalogOptions)
    (files : List SourceFile) :
    ∃ p : Pass,
      (∀ bound, program.typeCount ≤ bound →
        Pass.initial.run? program.host options bound files = some p) ∧
      ∀ before e after,
        (SourceFile.packaged files).flatMap SourceFile.registered = before ++ e :: after →
        (program.host.kindOf (program.host.resolve e.2)).IsSupported →
        (∀ e' ∈ before, program.host.canonical (program.host.resolve e'.2)
          ≠ program.host.canonical (program.host.resolve e.2)) →
        ∃ n ∈ (p.finish options).table.populations, p.slotOf? e.2 = some n.slot ∧
          (program.host.IsForeseen (before.map Prod.snd)
              (program.host.canonical (program.host.resolve e.2)) →
            n.name = program.host.nameOf? (program.host.resolve e.2)) ∧
          (¬ program.host.IsForeseen (before.map Prod.snd)
              (program.host.canonical (program.host.resolve e.2)) →
            n.name = some e.1.1) := by
  obtain ⟨p, hp⟩ := program.exists_run? (rfl : program.host.kind = _) options files
  refine ⟨p, hp, ?_⟩
  intro before e after hfiles hs hfirst
  exact Pass.name_of_run? (hp _ (Nat.le_refl _)) hfiles hs hfirst

/-- An interface that refers to another one, which is declared under a name that is not its own. -/
def Program.preempted : Program where
  types := [
    .object .interfaceForm
      { ObjectShape.named "A" with members := [⟨"b", .property, ⟨11⟩, false⟩] },
    .object .interfaceForm (ObjectShape.named "B")]
  declarations := [⟨10⟩, ⟨11⟩]
  files := [⟨"f.ts", [.interfaceDeclaration ⟨0⟩ (some "A"), .interfaceDeclaration ⟨1⟩ (some "N")],
    false⟩]
  representatives := _
  no_problem := by decide
  representatives_eq := rfl

theorem Program.registered_preempted :
    (SourceFile.packaged preempted.files).flatMap SourceFile.registered
      = [(("A", .interfaceKind), ⟨0⟩), (("N", .interfaceKind), ⟨1⟩)] := by
  decide +kernel

/-- The first interface goes by the name that it declares, and the second one by its own. -/
theorem Program.names_preempted :
    ∃ p, Pass.initial.run? preempted.host .default preempted.typeCount preempted.files = some p ∧
      (∃ n ∈ p.populations, p.slotOf? ⟨0⟩ = some n.slot ∧ n.name = some "A") ∧
      ∃ n ∈ p.populations, p.slotOf? ⟨1⟩ = some n.slot ∧ n.name = some "B" := by
  obtain ⟨p, hp, hnames⟩ := name_of_declared preempted .default preempted.files
  have hinterface : ∀ name, (TypeKind.interfaceType name).IsSupported := fun _ => ⟨id, nofun⟩
  obtain ⟨n, hn, hslot, -, hname⟩ := hnames [] _ _ registered_preempted (hinterface (some "A"))
    fun _ h => absurd h List.not_mem_nil
  obtain ⟨n', hn', hslot', hname', -⟩ := hnames [_] _ [] registered_preempted
    (hinterface (some "B")) (by decide +kernel)
  refine ⟨p, hp _ (Nat.le_refl _), ⟨n, hn, hslot, hname ?_⟩, n', hn', hslot', hname' ?_⟩
  · rintro ⟨decl, hdecl, -⟩
    exact absurd hdecl List.not_mem_nil
  · refine ⟨⟨0⟩, List.mem_singleton.mpr rfl, ⟨11⟩, ?_, rfl⟩
    have hmember : (⟨"b", .property, ⟨11⟩, false⟩ : HostMember) ∈ preempted.host.members ⟨10⟩ :=
      List.mem_singleton.mpr rfl
    exact .interfaceBody rfl (.member hmember rfl)

/-- A type that only one declaration resolves to need not be published under the name
of this declaration. -/
theorem Program.not_name_eq_declared :
    ¬ ∀ (program : Program) (options : CatalogOptions) (files : List SourceFile) (p : Pass),
      Pass.initial.run? program.host options program.typeCount files = some p →
      ∀ before e after,
        (SourceFile.packaged files).flatMap SourceFile.registered = before ++ e :: after →
        (program.host.kindOf (program.host.resolve e.2)).IsSupported →
        (∀ e' ∈ before ++ after, program.host.canonical (program.host.resolve e'.2)
          ≠ program.host.canonical (program.host.resolve e.2)) →
        ∃ n ∈ p.populations, p.slotOf? e.2 = some n.slot ∧ n.name = some e.1.1 := by
  intro h
  have hrun : (Pass.initial.run? preempted.host .default preempted.typeCount preempted.files).map
      (fun p => (p.slotOf? ⟨1⟩, p.populations.map fun n => (n.slot, n.name)))
        = some (some ⟨1⟩, [(⟨0⟩, some "A"), (⟨1⟩, some "B")]) := by
    decide +kernel
  obtain ⟨p, hp, hp'⟩ := Option.map_eq_some_iff.mp hrun
  obtain ⟨hslot, hrecords⟩ := Prod.mk.inj hp'
  obtain ⟨n, hn, hn', hname⟩ := h preempted .default preempted.files p hp [_] _ []
    registered_preempted ⟨id, nofun⟩ (by decide +kernel)
  rw [hslot, Option.some.injEq] at hn'
  have hmem : (n.slot, n.name) ∈ p.populations.map fun n => (n.slot, n.name) :=
    List.mem_map_of_mem hn
  rw [hrecords, ← hn', hname] at hmem
  simp at hmem

end TypeCatalog
