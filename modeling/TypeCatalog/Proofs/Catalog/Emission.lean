/-
From a pass to a library.

A finished pass writes the text of its table, and a shelf loads a library from
the text.  The two sides meet at tables that are complete and fit words: the
table of a finished pass is such a table if not too many slots have been given
out and no signature is too long (`Pass.Orderly.fitsWords_finish`), and such a
table is read back and loaded (`Shelf.exists_loadText`).

In a loaded library a name gives the record that the table has for its slot
(`Library.gives_of_load`).  Hence what a pass stored for a name is what is found
by it (`Program.gives_of_loadText`).
-/
import TypeCatalog.Proofs.Catalog.Termination
import TypeCatalog.Proofs.Library.Acceptance
import TypeCatalog.Proofs.Shelf.Bindings
import TypeCatalog.Proofs.Table.Codec

namespace TypeCatalog

/-! ### What is found by a name -/

namespace Library

variable {t : MetadataTable} {l : Library} {package name : String} {slot : SlotId} {n : TypeNode}

/-- The record of a name is found; it is found as a class or as an interface if it is one,
and is of the wrong kind otherwise. -/
structure Gives (l : Library) (package name : String) (n : TypeNode) : Prop where
  record : l.lookup package name = .ok n
  asClass : n.kind.isClass = true → l.classForName package name = .ok n
  asInterface : n.kind.isInterface = true → l.interfaceForName package name = .ok n
  notClass : n.kind.isClass = false → l.classForName package name =
    .error (.kindMismatch package name "a class" (kindPhrase n.kind))
  notInterface : n.kind.isInterface = false → l.interfaceForName package name =
    .error (.kindMismatch package name "an interface" (kindPhrase n.kind))

/-- Nothing is found by a name, for one reason. -/
structure Lacks (l : Library) (package name : String) (e : LookupError) : Prop where
  reason : e = .packageNotFound package ∨ e = .typeNotFound package name
  record : l.lookup package name = .error e
  asClass : l.classForName package name = .error e
  asInterface : l.interfaceForName package name = .error e

theorem gives_of_lookup (hn : l.lookup package name = .ok n) : l.Gives package name n := by
  have hclass : l.classForName package name = if n.kind.isClass then .ok n
      else .error (.kindMismatch package name "a class" (kindPhrase n.kind)) := by
    rw [classForName, hn]
    rfl
  have hinterface : l.interfaceForName package name = if n.kind.isInterface then .ok n
      else .error (.kindMismatch package name "an interface" (kindPhrase n.kind)) := by
    rw [interfaceForName, hn]
    rfl
  refine ⟨hn, fun h => ?_, fun h => ?_, fun h => ?_, fun h => ?_⟩
  · rw [hclass, if_pos h]
  · rw [hinterface, if_pos h]
  · rw [hclass, h, if_neg Bool.false_ne_true]
  · rw [hinterface, h, if_neg Bool.false_ne_true]

theorem lacks_of_slotOf {e : LookupError} (he : l.slotOf package name = .error e) :
    l.Lacks package name e := by
  have hlookup : l.lookup package name = .error e := by
    rw [lookup, he]
    rfl
  refine ⟨?_, hlookup, ?_, ?_⟩
  · rw [slotOf] at he
    split at he
    · cases he
      exact .inl rfl
    · split at he
      · cases he
        exact .inr rfl
      · cases he
  · rw [classForName, hlookup]
    rfl
  · rw [interfaceForName, hlookup]
    rfl

theorem packages_of_load (hl : load t = .ok l) : l.packages = t.packages := by
  rw [(eq_of_load hl).2]

theorem slotOf_eq_ok_iff : l.slotOf package name = .ok slot ↔
    (l.packages.get? package >>= fun names => names.get? name) = some slot := by
  unfold slotOf
  cases l.packages.get? package with
  | none => exact ⟨nofun, nofun⟩
  | some names =>
    dsimp only [Option.bind_eq_bind, Option.bind_some]
    cases names.get? name with
    | none => exact ⟨nofun, nofun⟩
    | some slot' => rw [Except.ok.injEq, Option.some.injEq]

/-- A library knows the slots that its table knows. -/
theorem slotOf_of_load (hl : load t = .ok l) :
    l.slotOf package name = .ok slot ↔ t.lookup package name = some slot := by
  rw [slotOf_eq_ok_iff, packages_of_load hl]
  rfl

/-- A name that has a slot gives the one record of this slot. -/
theorem gives_of_load (hl : load t = .ok l) (hs : t.lookup package name = some slot) :
    ∃ n ∈ t.populations, n.slot = slot ∧ t.population? slot = some n ∧
      l.Gives package name n := by
  have hc := (load_ok_iff.mp ⟨l, hl⟩).2
  have hlt : slot.index < t.slotCount := by
    obtain ⟨names, hnames, hslot⟩ := Option.bind_eq_some_iff.mp hs
    exact hc.names names (OrderedMap.mem_values_iff.mpr ⟨package, hnames⟩) slot
      (OrderedMap.mem_values_iff.mpr ⟨name, hslot⟩)
  obtain ⟨n, hn, hnslot, -⟩ := exists_typeAt?_of_load hl hlt
  have hrecord : t.population? slot = some n := (population?_eq_some_iff hc).mpr ⟨hn, hnslot⟩
  refine ⟨n, hn, hnslot, hrecord, gives_of_lookup ?_⟩
  have hnode : l.node? slot = some n := by rw [node?_of_load hl, if_pos hlt, hrecord]
  refine (bind_of_eq_ok ((slotOf_of_load hl).mpr hs) _).trans ?_
  simp only [hnode, pure, Except.pure]

/-- Nothing is found by a name that has no slot. -/
theorem lacks_of_load (hl : load t = .ok l) (hs : t.lookup package name = none) :
    ∃ e, l.Lacks package name e := by
  cases he : l.slotOf package name with
  | error e => exact ⟨e, lacks_of_slotOf he⟩
  | ok slot =>
    rw [(slotOf_of_load hl).mp he] at hs
    cases hs

end Library

/-! ### Signatures of records -/

namespace TypeHost

variable {host : TypeHost} {r : Registry} {h : TypeHandle}

/-- The signatures of a record are those of its type. -/
theorem exists_of_mem_signatures_image {shape : Shape} {s : Signature}
    (hs : s ∈ (host.image r h shape).signatures) :
    ∃ kind, ∃ s' ∈ host.signatures h kind, s = host.signatureImage r s' := by
  have himage : ∀ kind, s ∈ host.signatureImages r h kind →
      ∃ kind, ∃ s' ∈ host.signatures h kind, s = host.signatureImage r s' := by
    intro kind hs
    obtain ⟨s', hs', rfl⟩ := List.mem_map.mp hs
    exact ⟨kind, s', hs', rfl⟩
  have hbody : s ∈ (host.bodyImage r h).signatures →
      ∃ kind, ∃ s' ∈ host.signatures h kind, s = host.signatureImage r s' := by
    intro hs
    obtain hs | hs := List.mem_append.mp hs
    · obtain hs | hs := List.mem_append.mp hs
      · exact himage .construct hs
      · exact himage .call hs
    · exact himage .index hs
  cases shape with
  | classShape => exact hbody hs
  | interfaceShape => exact hbody hs
  | typeLiteral => exact hbody hs
  | function => exact himage .call hs
  | array _ => exact absurd hs List.not_mem_nil
  | reference _ _ => exact absurd hs List.not_mem_nil
  | union _ => exact absurd hs List.not_mem_nil
  | intersection _ => exact absurd hs List.not_mem_nil
  | tuple _ => exact absurd hs List.not_mem_nil
  | typeParameter _ => exact absurd hs List.not_mem_nil
  | expression _ => exact absurd hs List.not_mem_nil

/-- The parameters of every signature can be counted in the 32 bits that tables have for it. -/
def FitsWords (host : TypeHost) : Prop := ∀ h kind, ∀ s ∈ host.signatures h kind, s.FitsWord

/-- The length of a signature that fits is one that a table can hold. -/
theorem length_signatureImage_lt (host : TypeHost) (registry : Registry) {s : HostSignature}
    (hw : s.FitsWord) : (host.signatureImage registry s).length < Nat.pow 2 32 :=
  Nat.lt_of_le_of_lt (Nat.sub_le _ _) hw

end TypeHost

/-- The signatures of a type. -/
def TypeData.signatures : TypeData → List HostSignature
  | object _ shape => shape.call ++ shape.construct ++ shape.index
  | function _ signatures => signatures
  | _ => []

namespace Program

@[inherit_doc TypeHost.FitsWords]
def FitsWords (program : Program) : Prop :=
  ∀ data ∈ program.types, ∀ s ∈ data.signatures, s.FitsWord

instance (program : Program) : Decidable program.FitsWords :=
  inferInstanceAs (Decidable (∀ data ∈ program.types, ∀ s ∈ data.signatures, _))

theorem FitsWords.host {program : Program} (hw : program.FitsWords) : program.host.FitsWords := by
  intro h kind s hs
  have hfound : ∃ data, program.type? h = some data ∧ s ∈ data.signatures := by
    change s ∈ program.signatures h kind at hs
    unfold signatures at hs
    split at hs
    · rename_i name signatures hdata
      split at hs
      · exact ⟨.function name signatures, hdata, hs⟩
      · exact absurd hs List.not_mem_nil
    · rename_i form shape hdata
      refine ⟨.object form shape, hdata, ?_⟩
      cases kind with
      | call => exact List.mem_append_left _ (List.mem_append_left _ hs)
      | construct => exact List.mem_append_left _ (List.mem_append_right _ hs)
      | index => exact List.mem_append_right _ hs
    · exact absurd hs List.not_mem_nil
  obtain ⟨data, hdata, hs⟩ := hfound
  -- primitive types have no signatures
  obtain hmem | hmem := List.mem_append.mp (List.mem_of_getElem? hdata)
  · obtain ⟨k, -, rfl⟩ := List.mem_map.mp hmem
    exact absurd hs List.not_mem_nil
  · exact hw data hmem s hs

end Program

/-! ### Tables of finished passes -/

theorem MetadataTable.IsComplete.fitsWords {t : MetadataTable} (hc : t.IsComplete)
    (hsize : t.slotCount ≤ greatestSlotCount)
    (hlengths : ∀ n ∈ t.populations, ∀ s ∈ n.kind.signatures, s.length < Nat.pow 2 32) :
    t.FitsWords := by
  have hword : ∀ {i}, i < t.slotCount → i < Nat.pow 2 32 :=
    fun hi => Nat.lt_of_lt_of_le (Nat.lt_of_lt_of_le hi hsize) (by decide)
  exact
    { slotCount := Nat.lt_of_le_of_lt hsize (by decide)
      names := fun names hn s hs => hword (hc.names names hn s hs)
      slots := fun n hn => hword ((Library.perm_range_iff.mp hc.records).1 _
        (List.mem_map_of_mem hn))
      edges := fun n hn s hs => hword (hc.edges n hn s hs)
      lengths := hlengths }

theorem Pass.Orderly.fitsWords_finish {host : TypeHost} {p : Pass} {log : Pass.Log}
    (ho : p.Orderly host log []) (hq : p.queue.pending = []) (hw : host.FitsWords)
    (hsize : p.registry.size ≤ greatestSlotCount) (options : CatalogOptions) :
    (p.finish options).table.FitsWords := by
  refine (ho.isComplete_finish hq).fitsWords hsize fun n hn s hs => ?_
  obtain ⟨e, -, -, hkind, -⟩ := ho.drawn n hn
  rw [hkind] at hs
  obtain ⟨kind, s', hs', rfl⟩ := TypeHost.exists_of_mem_signatures_image hs
  exact TypeHost.length_signatureImage_lt _ _ (hw _ kind s' hs')

/-- A table that can be loaded takes the place of the library of its name. -/
theorem Shelf.exists_load (shelf : Shelf) {t : MetadataTable} {l : Library}
    (hl : Library.load t = .ok l) :
    ∃ shelf', shelf.load t = .ok (l, shelf') ∧ shelf'.library t.library = .ok l := by
  obtain ⟨e, he, -⟩ | ⟨l', hl', hon⟩ := shelf.on_load t
  · rw [hl] at he
    cases he
  · rw [hl] at hl'
    cases hl'
    obtain ⟨bindings, hload⟩ : ∃ bindings,
        shelf.load t = .ok (l, ⟨shelf.libraries.insert l.name l, bindings⟩) := by
      rw [Shelf.load, Change.onSuccess, hon]
      exact ⟨_, rfl⟩
    refine ⟨_, hload, ?_⟩
    rw [library, ← Library.name_of_load hl, OrderedMap.get?_insert, if_pos rfl]

/-- The text of a table that can be loaded is loaded, in place of the library of its name. -/
theorem Shelf.exists_loadText (shelf : Shelf) {t : MetadataTable} {l : Library} (hw : t.FitsWords)
    (hl : Library.load t = .ok l) :
    ∃ shelf', shelf.loadText t.toText = .ok (l, shelf') ∧ shelf'.library t.library = .ok l := by
  have hread : MetadataTable.read t.toText = .ok t :=
    (Json.decodeText_pretty MetadataTable.fields.decode (MetadataTable.isReadable_toJson hw)
      (by decide)).trans (MetadataTable.reads_toJson hw .streamed)
  rw [loadText, hread]
  exact shelf.exists_load hl

/-- Cataloguing a program comes to an end.  If no more slots were given out than a
table may have, then any shelf loads the text of the table, and every name that
has a slot in the table gives the record that the pass made for this slot. -/
theorem Program.gives_of_loadText (program : Program) (hw : program.FitsWords)
    (options : CatalogOptions) (files : List SourceFile) :
    ∃ p : Pass,
      (∀ bound, program.typeCount ≤ bound →
        Pass.initial.run? program.host options bound files = some p) ∧
      (p.registry.size ≤ greatestSlotCount → ∀ shelf : Shelf, ∃ l shelf',
        shelf.loadText (p.finish options).table.toText = .ok (l, shelf') ∧
        shelf'.library options.libraryName = .ok l ∧
        ∀ package name,
          (∀ slot, (p.finish options).table.lookup package name = some slot →
            ∃ n ∈ p.populations, n.slot = slot ∧
              (p.finish options).table.population? slot = some n ∧ l.Gives package name n) ∧
          ((p.finish options).table.lookup package name = none →
            ∃ e, l.Lacks package name e)) := by
  obtain ⟨p, hp⟩ := program.exists_run? (rfl : program.host.kind = _) options files
  refine ⟨p, hp, fun hsize shelf => ?_⟩
  have hr := hp _ (Nat.le_refl _)
  have hkept : Pass.Kept program.host options fun log p => p.Orderly program.host log [] :=
    Pass.orderly_kept
  have ho := hkept.run Pass.orderly_initial hr
  have hq : p.queue.pending = [] := Pass.pending_of_drain? hr
  have hc : (p.finish options).table.IsComplete := ho.isComplete_finish hq
  obtain ⟨l, hl⟩ := Library.load_ok_iff.mpr ⟨hsize, hc⟩
  obtain ⟨shelf', hload, hlibrary⟩ :=
    shelf.exists_loadText (ho.fitsWords_finish hq hw.host hsize options) hl
  refine ⟨l, shelf', hload, hlibrary, fun package name => ⟨fun slot hs => ?_, fun hs => ?_⟩⟩
  · exact Library.gives_of_load hl hs
  · exact Library.lacks_of_load hl hs

/-- A class, an interface and a union, each declared by a name. -/
def Program.mingled : Program where
  types := [
    .object .classForm { ObjectShape.named "C" with
      members := [⟨"of \"I\"", .property, ⟨11⟩, true⟩]
      call := [⟨[⟨"rest", ⟨12⟩, true, false⟩], ⟨5⟩, []⟩] },
    .object .interfaceForm (ObjectShape.named "I"), .union [⟨10⟩, ⟨1⟩]]
  declarations := [⟨10⟩, ⟨11⟩, ⟨12⟩]
  files := [⟨"a.ts", [.classDeclaration ⟨0⟩ (some "C"), .interfaceDeclaration ⟨1⟩ (some "I"),
    .interfaceDeclaration ⟨2⟩ (some "U")], false⟩]
  representatives := _
  no_problem := by decide
  representatives_eq := rfl

/-- The class is found as one, and the union as neither a class nor an interface. -/
theorem Program.gives_of_loadText_mingled :
    mingled.FitsWords ∧
    ∃ p l shelf, Pass.initial.run? mingled.host .default mingled.typeCount mingled.files = some p ∧
      Shelf.empty.loadText (p.finish .default).table.toText = .ok (l, shelf) ∧
      (∃ n ∈ p.populations, n.slot = ⟨0⟩ ∧ l.classForName "a" "C" = .ok n) ∧
      l.classForName "a" "U" = .error (.kindMismatch "a" "U" "a class" "union") ∧
      l.interfaceForName "a" "U" = .error (.kindMismatch "a" "U" "an interface" "union") ∧
      ∃ e, l.Lacks "a" "V" e := by
  have hwords : mingled.FitsWords := by decide
  obtain ⟨p, hp, hloaded⟩ := gives_of_loadText mingled hwords .default mingled.files
  have hrun := hp _ (Nat.le_refl _)
  have hslots : (Pass.initial.run? mingled.host .default mingled.typeCount mingled.files).map
      (fun p => (p.registry.size, ["C", "U", "V"].map ((p.finish .default).table.lookup "a")))
      = some (3, [some ⟨0⟩, some ⟨2⟩, none]) := by
    decide +kernel
  have hkinds : (Pass.initial.run? mingled.host .default mingled.typeCount mingled.files).map
      (fun p => p.populations.map fun n => (n.slot.index, n.kind.isClass, n.kind.isInterface,
        n.kind.tag))
      = some [(0, true, false, "class"), (1, false, true, "interface"),
          (2, false, false, "union")] := by
    decide +kernel
  rw [hrun, Option.map_some, Option.some.injEq] at hslots hkinds
  obtain ⟨hsize, hslots⟩ := Prod.mk.inj hslots
  simp only [List.map_cons, List.map_nil, List.cons.injEq, and_true] at hslots
  obtain ⟨hc, hu, hv⟩ := hslots
  obtain ⟨l, shelf, hload, -, hnames⟩ := hloaded (by rw [hsize]; decide) Shelf.empty
  have hkind : ∀ n ∈ p.populations, (n.slot.index, n.kind.isClass, n.kind.isInterface,
      n.kind.tag) ∈ [(0, true, false, "class"), (1, false, true, "interface"),
        (2, false, false, "union")] :=
    fun n hn => hkinds ▸ List.mem_map_of_mem hn
  obtain ⟨c, hcmem, hcslot, -, hcgives⟩ := (hnames "a" "C").1 _ hc
  obtain ⟨u, humem, huslot, -, hugives⟩ := (hnames "a" "U").1 _ hu
  have hckind : c.kind.isClass = true ∧ c.kind.isInterface = false ∧ c.kind.tag = "class" := by
    simpa [hcslot] using hkind c hcmem
  have hukind : u.kind.isClass = false ∧ u.kind.isInterface = false ∧ u.kind.tag = "union" := by
    simpa [huslot] using hkind u humem
  refine ⟨hwords, p, l, shelf, hrun, hload, ⟨c, hcmem, hcslot, hcgives.asClass hckind.1⟩, ?_, ?_,
    (hnames "a" "V").2 hv⟩
  · rw [hugives.notClass hukind.1, Library.kindPhrase, hukind.1, hukind.2.1, hukind.2.2]
    rfl
  · rw [hugives.notInterface hukind.2.1, Library.kindPhrase, hukind.1, hukind.2.1, hukind.2.2]
    rfl

end TypeCatalog
