/-
Representatives change how many records there are, and not what they say.

A program may be catalogued twice, once with a record for every representative
and once, by a host that merges nothing, with a record for every type.  The two
tables then differ by a map of slots: every record of the second goes to the
record that the first has for the representative of its type, every edge to the
edge between these, and the names to the slots that take the place of theirs
(`Program.mergesInto_of_plain`).

The reason is that a type and its representative are catalogued alike
(`Program.classify_host`): a structural type is built like its representative,
from parts that have the same representatives, and all other types stand for
themselves.  Hence both hosts reach the same types but for representatives
(`Program.reachable_canonical`, `Program.exists_reachable_plain`), and edges go to
edges (`Program.carries_merge`).
-/
import TypeCatalog.Proofs.Canonical.Likeness
import TypeCatalog.Proofs.Catalog.Renumbering
import TypeCatalog.Proofs.Catalog.Termination
import TypeCatalog.Proofs.Library.Acceptance

namespace TypeCatalog

/-- One table merges into another one: every slot goes to one, and every slot of the other
takes the place of some; the record of the new slot says the same of the new slots, and
the names are the same, in the same order, with the new slots. -/
structure MetadataTable.MergesInto (t t' : MetadataTable) (f : SlotId → SlotId) : Prop where
  slots : ∀ s : SlotId, s.index < t.slotCount → (f s).index < t'.slotCount
  onto : ∀ s : SlotId, s.index < t'.slotCount → ∃ s' : SlotId, s'.index < t.slotCount ∧ f s' = s
  records : ∀ s : SlotId, s.index < t.slotCount → ∃ n n', t.population? s = some n ∧
    t'.population? (f s) = some n' ∧ n'.kind = n.kind.renumber f
  packages : t'.packages.entries.map (fun e => (e.1, e.2.entries))
    = t.packages.entries.map fun e => (e.1, e.2.entries.map fun n => (n.1, f n.2))

/-! ### Shapes that are built alike -/

/-- Two shapes are built in the same way, from related types. -/
inductive Shape.Alike (R : TypeHandle → TypeHandle → Prop) : Shape → Shape → Prop where
  | array {element element' : TypeHandle} : R element element' →
      Alike R (.array element) (.array element')
  | reference {target target' : TypeHandle} {typeArguments typeArguments' : List TypeHandle} :
      R target target' → List.Forall₂ R typeArguments typeArguments' →
      Alike R (.reference target typeArguments) (.reference target' typeArguments')
  | union {types types' : List TypeHandle} : List.Forall₂ R types types' →
      Alike R (.union types) (.union types')
  | intersection {types types' : List TypeHandle} : List.Forall₂ R types types' →
      Alike R (.intersection types) (.intersection types')
  | tuple {elements elements' : List TypeHandle} : List.Forall₂ R elements elements' →
      Alike R (.tuple elements) (.tuple elements')

namespace Shape.Alike

variable {R : TypeHandle → TypeHandle → Prop} {host host' : TypeHost} {r : Registry}
  {shape shape' : Shape} {h h' : TypeHandle}

/-- Shapes that are built alike have related child types, one by one. -/
theorem childTypes (ha : Alike R shape shape') :
    List.Forall₂ R (host.childTypes h shape) (host'.childTypes h' shape') := by
  cases ha with
  | array he => simpa using he
  | reference ht hs => simpa using ⟨ht, hs⟩
  | union hs => simpa using hs
  | intersection hs => simpa using hs
  | tuple hs => simpa using hs

/-- Shapes that are built alike have the same record if related types have the same edges. -/
theorem image_eq (ha : Alike R shape shape')
    (hR : ∀ t t', R t t' → host.edge? r t' = host.edge? r t) :
    host.image r h' shape' = host.image r h shape := by
  have hlist : ∀ {ts ts'}, List.Forall₂ R ts ts' → host.edgeList r ts' = host.edgeList r ts := by
    intro ts ts' hts
    unfold TypeHost.edgeList
    induction hts with
    | nil => rfl
    | cons ht _ ih => rw [List.filterMap_cons, List.filterMap_cons, hR _ _ ht, ih]
  have hrequired : ∀ {t t'}, R t t' → host.requiredEdge r t' = host.requiredEdge r t := by
    intro t t' ht
    rw [TypeHost.requiredEdge, TypeHost.requiredEdge, hR _ _ ht]
  cases ha with
  | array he => rw [TypeHost.image, TypeHost.image, hrequired he]
  | reference ht hs => rw [TypeHost.image, TypeHost.image, hrequired ht, hlist hs]
  | union hs => rw [TypeHost.image, TypeHost.image, hlist hs]
  | intersection hs => rw [TypeHost.image, TypeHost.image, hlist hs]
  | tuple hs => rw [TypeHost.image, TypeHost.image, hlist hs]

end Shape.Alike

/-- Hosts that say the same of a type see the same child types. -/
theorem TypeHost.SaysSame.childTypes {host host' : TypeHost} {h : TypeHandle}
    (hs : host.SaysSame host' h) (shape : Shape) :
    host'.childTypes h shape = host.childTypes h shape := by
  cases shape with
  | classShape | interfaceShape | typeLiteral | function =>
    simp only [TypeHost.childTypes, positions, bodyPositions, base?, hs.members, hs.statics,
      hs.signatures, hs.heritage, hs.typeParameters]
  | _ => rfl

/-! ### A type and its representative -/

namespace Program

variable {program : Program} {h t u : TypeHandle} {data : TypeData} {tree : PackageTree}
  {shape : ObjectShape}

/-- No type says itself whether references to it are arrays. -/
def Untagged (program : Program) : Prop :=
  ∀ data ∈ program.types, ∀ shape ∈ data.shape?, shape.arrayLike = none

/-- No type has static members. -/
def WithoutStatics (program : Program) : Prop :=
  ∀ data ∈ program.types, ∀ shape ∈ data.shape?, shape.statics = []

/-- Only types of the program itself have a shape. -/
theorem exists_mem_types (hs : program.shape? h = some shape) :
    ∃ data ∈ program.types, shape ∈ data.shape? := by
  obtain ⟨data, hd, hs⟩ := Option.bind_eq_some_iff.mp hs
  refine ⟨data, ?_, hs⟩
  rcases List.mem_append.mp (List.mem_of_getElem? hd) with hmem | hmem
  · obtain ⟨k, -, rfl⟩ := List.mem_map.mp hmem
    cases hs
  · exact hmem

theorem kind_of_type? (hd : program.type? h = some data) : program.kind h = data.kind := by
  rw [kind, hd]

/-- A type stands for itself, or is primitive like its representative, or is built like it. -/
theorem representative_cases (program : Program) (h : TypeHandle) :
    program.canonical h = h ∨
    (∃ k, program.kind h = .intrinsic k ∧ program.kind (program.canonical h) = .intrinsic k) ∨
    ∃ data data', program.kind h = data.kind ∧ program.kind (program.canonical h) = data'.kind ∧
      program.Alike data data' := by
  obtain ⟨-, hintrinsic, hnominal, hbuilt⟩ := program.alike_canonical h
  cases hd : program.type? h with
  | none => exact .inl (canonical_of_length_le (List.getElem?_eq_none_iff.mp hd))
  | some data =>
    by_cases hn : data.isNominal = true
    · exact .inl (hnominal data hd hn)
    by_cases hc : data.composition?.isSome = true
    · obtain ⟨data', hd', halike⟩ := hbuilt data hd hc
      exact .inr (.inr ⟨data, data', kind_of_type? hd, kind_of_type? hd', halike⟩)
    · cases data with
      | intrinsic k =>
        refine .inr (.inl ⟨k, kind_of_type? hd, ?_⟩)
        rw [hintrinsic k hd]
        exact kind_of_type? (program.type?_handle k)
      | reference | union | intersection | tuple => exact absurd rfl hc
      | _ => exact absurd rfl hn

/-- A type has the name and the parameter of arrays just when its representative has. -/
theorem isStandardArray_canonical (program : Program) (h : TypeHandle) :
    TypeHost.isStandardArray program.kind program.typeParameters (program.canonical h)
      = TypeHost.isStandardArray program.kind program.typeParameters h := by
  obtain hself | ⟨k, hk, hk'⟩ | ⟨data, data', hk, hk', halike⟩ := program.representative_cases h
  · rw [hself]
  · rw [TypeHost.isStandardArray, TypeHost.isStandardArray, hk, hk']
  · rw [TypeHost.isStandardArray, TypeHost.isStandardArray, hk, hk']
    cases halike <;> rfl

theorem Untagged.isArrayLike_eq (ht : program.Untagged) :
    program.isArrayLike = TypeHost.isStandardArray program.kind program.typeParameters := by
  funext h
  rw [isArrayLike]
  cases hs : program.shape? h with
  | none => rfl
  | some shape =>
    obtain ⟨data, hd, hshape⟩ := exists_mem_types hs
    rw [Option.bind_eq_bind, Option.bind_some, ht data hd shape hshape]

/-- Arrays are told alike by targets that have the same representative. -/
theorem Untagged.isArrayLike_congr (ht : program.Untagged) (hr : program.SameRepresentative t u) :
    program.isArrayLike t = program.isArrayLike u := by
  rw [ht.isArrayLike_eq, ← isStandardArray_canonical, hr, isStandardArray_canonical]

/-- Types that are built alike are catalogued alike. -/
theorem Alike.classifyKind {data data' : TypeData} (ht : program.Untagged)
    (ha : program.Alike data data') (h h' : TypeHandle) :
    ∃ shape shape',
      TypeCatalog.classifyKind program.isArrayLike h data.kind = .shape h none shape ∧
      TypeCatalog.classifyKind program.isArrayLike h' data'.kind = .shape h' none shape' ∧
      shape.Alike program.SameRepresentative shape' := by
  cases ha with
  | union hs => exact ⟨_, _, rfl, rfl, .union hs⟩
  | intersection hs => exact ⟨_, _, rfl, rfl, .intersection hs⟩
  | tuple hs => exact ⟨_, _, rfl, rfl, .tuple hs⟩
  | @reference target target' _ _ htarget harguments =>
    cases harguments with
    | nil => exact ⟨_, _, rfl, rfl, .reference htarget .nil⟩
    | @cons element element' rest rest' helement hrest =>
      cases hrest with
      | cons hsecond hrest =>
        exact ⟨_, _, rfl, rfl, .reference htarget (.cons helement (.cons hsecond hrest))⟩
      | nil =>
        -- one argument makes an array of both or of neither
        have hlike := ht.isArrayLike_congr htarget
        simp only [TypeData.kind, TypeCatalog.classifyKind, hlike]
        cases program.isArrayLike target' with
        | true => exact ⟨_, _, rfl, rfl, .array helement⟩
        | false => exact ⟨_, _, rfl, rfl, .reference htarget (.cons helement .nil)⟩

/-- The host that merges types catalogues every type as the plain host does, but
under its representative and, if it is built from parts, as one that is built alike. -/
theorem classify_host (ht : program.Untagged) (t : TypeHandle) :
    match program.plainHost.classify t with
    | .intrinsic k => program.host.classify t = .intrinsic k
    | .unsupported reason => program.host.classify t = .unsupported reason
    | .shape h _ shape => h = t ∧ ∃ name' shape',
      program.host.classify t = .shape (program.canonical t) name' shape' ∧
        (program.canonical t = t ∧ shape' = shape ∨
          shape.Alike program.SameRepresentative shape') := by
  have hplain : program.plainHost.classify t
      = classifyKind program.isArrayLike t (program.kind t) := by
    rw [ht.isArrayLike_eq]
    rfl
  have hhost : program.host.classify t
      = classifyKind program.isArrayLike (program.canonical t)
        (program.kind (program.canonical t)) := rfl
  rw [hplain, hhost]
  obtain hself | ⟨k, hk, hk'⟩ | ⟨data, data', hk, hk', halike⟩ := program.representative_cases t
  · rw [hself]
    cases hc : classifyKind program.isArrayLike t (program.kind t) with
    | intrinsic k => rfl
    | unsupported reason => rfl
    | shape h name shape =>
      obtain rfl := handle_of_classifyKind hc
      exact ⟨rfl, name, shape, rfl, .inl ⟨rfl, rfl⟩⟩
  · rw [hk, hk']
    rfl
  · obtain ⟨shape, shape', hc, hc', hshapes⟩ := halike.classifyKind ht t (program.canonical t)
    rw [hk, hk', hc, hc']
    exact ⟨rfl, none, shape', rfl, .inr hshapes⟩

theorem WithoutStatics.saysSame (hn : program.WithoutStatics) (h : TypeHandle) :
    program.plainHost.SaysSame program.host h := by
  refine ⟨rfl, ?_, rfl, rfl, rfl⟩
  show program.statics h = []
  unfold statics
  split
  · rename_i shape hd
    obtain ⟨data, hmem, hshape⟩ := exists_mem_types (show program.shape? h = some shape by
      rw [shape?, hd]
      rfl)
    exact hn data hmem shape hshape
  · rfl

/-- What the plain host catalogues, the other one catalogues under its representative. -/
theorem handle?_host (ht : program.Untagged) (t : TypeHandle) :
    program.host.handle? t = (program.plainHost.handle? t).map program.canonical := by
  have h := classify_host ht t
  unfold TypeHost.handle?
  cases hc : program.plainHost.classify t with
  | intrinsic k =>
    rw [hc] at h
    rw [h]
    rfl
  | unsupported reason =>
    rw [hc] at h
    rw [h]
    rfl
  | shape t' name shape =>
    rw [hc] at h
    obtain ⟨rfl, name', shape', hhost, -⟩ := h
    rw [hhost]
    rfl

/-- The shapes of a type and of its representative are the same, or are built alike. -/
theorem shapes_of_hasShape (ht : program.Untagged) {shape shape' : Shape}
    (hs : program.plainHost.HasShape t shape)
    (hs' : program.host.HasShape (program.canonical t) shape') :
    program.canonical t = t ∧ shape' = shape ∨
      shape.Alike program.SameRepresentative shape' := by
  obtain ⟨name, hc⟩ := hs
  obtain ⟨name', hc'⟩ := hs'
  have h := classify_host ht t
  change program.plainHost.classify t = _ at hc
  change program.host.classify t = _ at hc'
  rw [hc] at h
  obtain ⟨-, name'', shape'', hhost, hshapes⟩ := h
  rw [hc'] at hhost
  cases hhost
  exact hshapes

theorem childTypes_of_hasShape (ht : program.Untagged) (hn : program.WithoutStatics)
    {shape shape' : Shape} (hs : program.plainHost.HasShape t shape)
    (hs' : program.host.HasShape (program.canonical t) shape') :
    List.Forall₂ program.SameRepresentative (program.plainHost.childTypes t shape)
      (program.host.childTypes (program.canonical t) shape') := by
  obtain ⟨hself, rfl⟩ | halike := shapes_of_hasShape ht hs hs'
  · rw [hself, (hn.saysSame t).childTypes]
    exact List.forall₂_same.mpr fun _ _ => rfl
  · exact halike.childTypes

/-- A type that can be catalogued has a shape, and so has its representative. -/
theorem exists_shapes (ht : program.Untagged) (hh : program.plainHost.handle? t = some t) :
    ∃ shape shape', program.plainHost.HasShape t shape ∧
      program.host.HasShape (program.canonical t) shape' := by
  have hhost := handle?_host ht t
  rw [hh, Option.map_some] at hhost
  obtain ⟨name, shape, hc⟩ :=
    TypeHost.classify_of_isSupported (TypeHost.handle?_eq_some_iff.mp hh).1
  obtain ⟨name', shape', hc'⟩ :=
    TypeHost.classify_of_isSupported (TypeHost.handle?_eq_some_iff.mp hhost).1
  exact ⟨shape, shape', TypeHost.hasShape_of_classify hc, TypeHost.hasShape_of_classify hc'⟩

/-! ### What both hosts reach -/

theorem refers_canonical (ht : program.Untagged) (hn : program.WithoutStatics)
    (hu : program.plainHost.handle? u = some u) (hr : program.plainHost.Refers u t) :
    ∃ t', program.host.Refers (program.canonical u) t' ∧ program.SameRepresentative t t' := by
  obtain ⟨shape, shape', hs, hs'⟩ := exists_shapes ht hu
  obtain ⟨t', ht', hsame⟩ := exists_right_of_forall₂ (childTypes_of_hasShape ht hn hs hs') t
    ((TypeHost.refers_iff hs).mp hr)
  exact ⟨t', (TypeHost.refers_iff hs').mpr ht', hsame⟩

theorem exists_refers_plain (ht : program.Untagged) (hn : program.WithoutStatics)
    (hu : program.plainHost.handle? u = some u)
    (hr : program.host.Refers (program.canonical u) t) :
    ∃ t', program.plainHost.Refers u t' ∧ program.SameRepresentative t' t := by
  obtain ⟨shape, shape', hs, hs'⟩ := exists_shapes ht hu
  obtain ⟨t', ht', hsame⟩ := exists_left_of_forall₂ (childTypes_of_hasShape ht hn hs hs') t
    ((TypeHost.refers_iff hs').mp hr)
  exact ⟨t', (TypeHost.refers_iff hs).mpr ht', hsame⟩

/-- A type can be catalogued if its representative can, and only then. -/
theorem isSupported_host_iff (ht : program.Untagged) (t : TypeHandle) :
    (program.host.kindOf t).IsSupported ↔ (program.plainHost.kindOf t).IsSupported := by
  have hh := handle?_host ht t
  constructor <;> intro hs
  · rw [TypeHost.handle?_eq_some_iff.mpr ⟨hs, rfl⟩] at hh
    obtain ⟨u, hu, -⟩ := Option.map_eq_some_iff.mp hh.symm
    exact (TypeHost.handle?_eq_some_iff.mp hu).1
  · rw [TypeHost.handle?_eq_some_iff.mpr ⟨hs, rfl⟩, Option.map_some] at hh
    exact (TypeHost.handle?_eq_some_iff.mp hh).1

/-- What the plain host reaches can be catalogued. -/
theorem handle?_of_reachable (h : Reachable program.plainHost tree u) :
    program.plainHost.handle? u = some u := by
  cases h with
  | declared _ _ hs => exact TypeHost.handle?_eq_some_iff.mpr ⟨hs, rfl⟩
  | child _ _ hs => exact TypeHost.handle?_eq_some_iff.mpr ⟨hs, rfl⟩

/-- The representative of what the plain host reaches is reached. -/
theorem reachable_canonical (ht : program.Untagged) (hn : program.WithoutStatics)
    (h : Reachable program.plainHost tree u) :
    Reachable program.host tree (program.canonical u) := by
  induction h with
  | declared hnode hd hs => exact .declared hnode hd ((isSupported_host_iff ht _).mpr hs)
  | @child u t hu hr hs ih =>
    obtain ⟨t', hr', hsame⟩ := refers_canonical ht hn (handle?_of_reachable hu) hr
    have hs' : (program.host.kindOf t').IsSupported := by
      have hcanonical : program.host.canonical t' = program.host.canonical t := hsame.symm
      rw [TypeHost.kindOf, hcanonical]
      exact (isSupported_host_iff ht t).mpr hs
    have hreached := Reachable.child ih hr' hs'
    rwa [show program.host.canonical t' = program.canonical t from hsame.symm] at hreached

/-- What is reached is the representative of a type that the plain host reaches. -/
theorem exists_reachable_plain (ht : program.Untagged) (hn : program.WithoutStatics)
    (h : Reachable program.host tree t) :
    ∃ u, Reachable program.plainHost tree u ∧ program.canonical u = t := by
  induction h with
  | declared hnode hd hs =>
    exact ⟨_, .declared hnode hd ((isSupported_host_iff ht _).mp hs), rfl⟩
  | @child _ t _ hr hs ih =>
    obtain ⟨u, hu, rfl⟩ := ih
    obtain ⟨t', hr', hsame⟩ := exists_refers_plain ht hn (handle?_of_reachable hu) hr
    have hs' : (program.host.kindOf t').IsSupported := by
      rw [TypeHost.kindOf, show program.host.canonical t' = program.host.canonical t from hsame]
      exact hs
    exact ⟨t', .child hu hr' ((isSupported_host_iff ht t').mp hs'), hsame⟩

/-! ### From slots to slots -/

/-- The slot that a second pass has for the representative of the type of a slot. -/
def merge (program : Program) (q p : Pass) (slot : SlotId) : SlotId :=
  match q.registry.entry? slot with
  | some e => (p.registry.lookup (program.canonical e.handle)).getD slot
  | none => slot

variable {options : CatalogOptions} {files : List SourceFile} {bound : Nat} {p q : Pass}

theorem merge_of_lookup {slot slot' : SlotId} (hl : q.registry.lookup t = some slot)
    (hl' : p.registry.lookup (program.canonical t) = some slot') :
    program.merge q p slot = slot' := by
  obtain ⟨e, he, rfl⟩ := Registry.entry?_of_lookup hl
  rw [merge, he]
  dsimp only
  rw [hl', Option.getD_some]

/-- Two passes over the same files, one of which merges nothing. -/
structure Twins (program : Program) (options : CatalogOptions) (files : List SourceFile)
    (bound : Nat) (q p : Pass) : Prop where
  untagged : program.Untagged
  withoutStatics : program.WithoutStatics
  plain : Pass.initial.run? program.plainHost options bound files = some q
  merged : Pass.initial.run? program.host options bound files = some p

namespace Twins

variable (hw : program.Twins options files bound q p)
include hw

theorem tree_eq : q.tree = p.tree :=
  (Pass.tree_of_run? hw.plain).trans (Pass.tree_of_run? hw.merged).symm

/-- A type that has a slot goes to the slot of its representative. -/
theorem exists_lookup {slot : SlotId} (hl : q.registry.lookup t = some slot) :
    p.registry.lookup (program.canonical t) = some (program.merge q p slot) := by
  have hreached := (Pass.lookup_iff_reachable_of_run? hw.plain).mp ⟨slot, hl⟩
  rw [hw.tree_eq] at hreached
  obtain ⟨slot', hl'⟩ := (Pass.lookup_iff_reachable_of_run? hw.merged).mpr
    (reachable_canonical hw.untagged hw.withoutStatics hreached)
  rw [hl', merge_of_lookup hl hl']

/-- Every slot takes the place of another one. -/
theorem exists_slot {slot : SlotId} (hs : slot.index < p.registry.size) :
    ∃ slot', slot'.index < q.registry.size ∧ program.merge q p slot' = slot := by
  have ho := (Pass.confined_of_run? hw.merged).orderly
  obtain ⟨e, he⟩ := Registry.entry?_of_lt_size hs
  have hl := Registry.lookup_of_entry? ho.serves.nodup he
  have hreached := (Pass.lookup_iff_reachable_of_run? hw.merged).mp ⟨slot, hl⟩
  obtain ⟨u, hu, hcanonical⟩ := exists_reachable_plain hw.untagged hw.withoutStatics hreached
  rw [← hw.tree_eq] at hu
  obtain ⟨slot', hl'⟩ := (Pass.lookup_iff_reachable_of_run? hw.plain).mpr hu
  rw [← hcanonical] at hl
  exact ⟨slot', Registry.lt_size_of_lookup hl', merge_of_lookup hl' hl⟩

/-- Edges go to edges. -/
theorem carries :
    program.plainHost.Carries program.host q.registry p.registry (program.merge q p) := by
  intro t hlinked
  have h := classify_host hw.untagged t
  unfold TypeHost.edge?
  cases hc : program.plainHost.classify t with
  | intrinsic k =>
    rw [hc] at h
    rw [h]
    rfl
  | unsupported reason =>
    rw [hc] at h
    rw [h]
    rfl
  | shape t' name shape =>
    rw [hc] at h
    obtain ⟨rfl, name', shape', hhost, -⟩ := h
    obtain ⟨slot, hl⟩ := hlinked _ _ _ hc
    rw [hhost]
    show (p.registry.lookup _).map TypeRef.slot
      = ((q.registry.lookup _).map TypeRef.slot).map (TypeRef.renumber _)
    rw [hl, hw.exists_lookup hl]
    rfl

/-- Records go to records. -/
theorem exists_record {n : TypeNode} (hn : n ∈ q.populations) :
    ∃ m ∈ p.populations, m.slot = program.merge q p n.slot ∧
      m.kind = n.kind.renumber (program.merge q p) := by
  have hq := (Pass.confined_of_run? hw.plain).orderly
  have hp := (Pass.confined_of_run? hw.merged).orderly
  obtain ⟨e, he, -, hkind, hlinked⟩ := hq.drawn n hn
  have hl := hw.exists_lookup (Registry.lookup_of_entry? hq.serves.nodup he)
  obtain ⟨e', he', hhandle⟩ := Registry.entry?_of_lookup hl
  obtain ⟨m, hm, hmslot, -, hkind'⟩ := hp.exists_drawn (Pass.pending_of_drain? hw.merged) he'
  refine ⟨m, hm, hmslot, ?_⟩
  have hshape := hq.serves.shaped e (Registry.mem_entries_of_entry he)
  have hshape' := hp.serves.shaped e' (Registry.mem_entries_of_entry he')
  rw [hhandle] at hshape'
  -- the record of the type itself, under the second registry, is between the two
  have himage := TypeHost.image_renumber (hw.withoutStatics.saysSame e.handle) fun t ht =>
    hw.carries t (hlinked t ht)
  rw [hkind, hkind', hhandle, ← himage]
  obtain ⟨hself, hsame⟩ | halike := shapes_of_hasShape hw.untagged hshape hshape'
  · rw [hself, hsame]
  · refine halike.image_eq fun t t' ht => ?_
    have hsame : program.host.classify t = program.host.classify t' :=
      TypeHost.classify_eq_of_canonical_eq ht
    rw [TypeHost.edge?, TypeHost.edge?, hsame]

/-- Names go to names. -/
theorem packages_eq :
    (p.finish options).table.packages
      = (q.finish options).table.packages.mapValues (OrderedMap.mapValues (program.merge q p)) := by
  have hq := (Pass.confined_of_run? hw.plain).orderly
  have hp := (Pass.confined_of_run? hw.merged).orderly
  have haq := Pass.accounts_initial.run hw.plain
  have hap := Pass.accounts_initial.run hw.merged
  rw [List.nil_append] at haq hap
  have hdirectory : (Directory.ofTree options.packageLayout q.tree q.declared).renumber
      (program.merge q p) = Directory.ofTree options.packageLayout q.tree p.declared := by
    refine Directory.ofTree_renumber q.tree fun e he => ?_
    rw [haq.tree.registeredBelow_eq] at he
    obtain ⟨hslot, hlinked⟩ := Pass.get?_declared hq haq he
    obtain ⟨hslot', -⟩ := Pass.get?_declared hp hap he
    rw [hslot, hslot']
    exact hw.carries.slot? hlinked
  show (Directory.ofTree options.packageLayout p.tree p.declared).packages = _
  rw [← hw.tree_eq, ← hdirectory]
  rfl

/-- The table of the pass that merges nothing merges into the other one. -/
theorem mergesInto : (q.finish options).table.MergesInto (p.finish options).table
    (program.merge q p) := by
  have hq := (Pass.confined_of_run? hw.plain).orderly
  have hp := (Pass.confined_of_run? hw.merged).orderly
  have hcq : (q.finish options).table.IsComplete :=
    hq.isComplete_finish (Pass.pending_of_drain? hw.plain)
  have hcp : (p.finish options).table.IsComplete :=
    hp.isComplete_finish (Pass.pending_of_drain? hw.merged)
  refine ⟨fun s hs => ?_, fun s hs => hw.exists_slot hs, fun s hs => ?_, ?_⟩
  · obtain ⟨e, he⟩ := Registry.entry?_of_lt_size hs
    have hl := Registry.lookup_of_entry? hq.serves.nodup he
    exact Registry.lt_size_of_lookup (hw.exists_lookup hl)
  · obtain ⟨n, hn, rfl⟩ := hq.exists_record (Pass.pending_of_drain? hw.plain) hs
    obtain ⟨m, hm, hmslot, hkind⟩ := hw.exists_record hn
    exact ⟨n, m, (Library.population?_eq_some_iff hcq).mpr ⟨hn, rfl⟩,
      (Library.population?_eq_some_iff hcp).mpr ⟨hm, hmslot⟩, hkind⟩
  · rw [hw.packages_eq, OrderedMap.mapValues, List.map_map]
    rfl

end Twins

/-- Cataloguing a program comes to an end with the host that merges types as well as with
the plain one.  If no class has static members and no type says itself whether references
to it are arrays, the table of the plain host merges into that of the other one. -/
theorem mergesInto_of_plain (program : Program) (options : CatalogOptions)
    (files : List SourceFile) (ht : program.Untagged) (hn : program.WithoutStatics) :
    ∃ p q : Pass,
      (∀ bound, program.typeCount ≤ bound →
        Pass.initial.run? program.host options bound files = some p ∧
        Pass.initial.run? program.plainHost options bound files = some q) ∧
      ∃ f, (q.finish options).table.MergesInto (p.finish options).table f := by
  obtain ⟨p, hp⟩ := program.exists_run? (rfl : program.host.kind = _) options files
  obtain ⟨q, hq⟩ := program.exists_run? (rfl : program.plainHost.kind = _) options files
  have hw : program.Twins options files program.typeCount q p :=
    ⟨ht, hn, hq _ (Nat.le_refl _), hp _ (Nat.le_refl _)⟩
  exact ⟨p, q, fun bound hb => ⟨hp bound hb, hq bound hb⟩, program.merge q p, hw.mergesInto⟩

/-- An interface that refers to a tuple of itself and of another tuple, which has the
same elements and so is one of its own. -/
def doubled : Program where
  types := [
    .object .interfaceForm { ObjectShape.named "A" with
      members := [⟨"x", .property, ⟨11⟩, false⟩, ⟨"y", .property, ⟨12⟩, true⟩] },
    .tuple [⟨10⟩, ⟨12⟩],
    .tuple [⟨10⟩, ⟨12⟩]]
  declarations := [⟨10⟩]
  files := [⟨"a.ts", [.interfaceDeclaration ⟨0⟩ (some "A")], false⟩]
  representatives := _
  no_problem := by decide
  representatives_eq := rfl

/-- The two tuples have two records, which merge into one. -/
theorem mergesInto_of_plain_doubled :
    ∃ p q : Pass,
      Pass.initial.run? doubled.host .default doubled.typeCount doubled.files = some p ∧
      Pass.initial.run? doubled.plainHost .default doubled.typeCount doubled.files = some q ∧
      (p.finish .default).table.slotCount = 2 ∧ (q.finish .default).table.slotCount = 3 ∧
      ∃ f, (q.finish .default).table.MergesInto (p.finish .default).table f := by
  have huntagged : doubled.Untagged := by
    unfold Untagged
    decide
  have hstatics : doubled.WithoutStatics := by
    unfold WithoutStatics
    decide
  obtain ⟨p, q, hruns, hmerges⟩ :=
    mergesInto_of_plain doubled .default doubled.files huntagged hstatics
  obtain ⟨hp, hq⟩ := hruns _ (Nat.le_refl _)
  have hsizes : (Pass.initial.run? doubled.host .default doubled.typeCount doubled.files).map
      (·.registry.size) = some 2 ∧
      (Pass.initial.run? doubled.plainHost .default doubled.typeCount doubled.files).map
        (·.registry.size) = some 3 := by
    decide +kernel
  rw [hp, hq] at hsizes
  exact ⟨p, q, hp, hq, Option.some.inj hsizes.1, Option.some.inj hsizes.2, hmerges⟩

end Program

end TypeCatalog
