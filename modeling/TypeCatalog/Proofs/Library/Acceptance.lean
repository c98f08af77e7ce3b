/-
Which tables are loaded.

A table of at most `greatestSlotCount` slots is loaded exactly if it is complete
(`loads_iff_isComplete`).  The records of a table without a reported fault are
in range and none has the slot of another; that no slot is left over is asked
last, and makes their slots those of the table in some order.

`LoadError.IsFaultOf` says what a fault tells of a table, and every fault that
is reported is one that the table has.  The order of the records does not
matter: in a complete table each slot has one record, wherever it stands.
-/
import Mathlib.Data.List.Perm.Basic
import Mathlib.Data.List.Count
import TypeCatalog.Proofs.Catalog.Complete
import TypeCatalog.Proofs.Library.Records

namespace TypeCatalog

/-- What a fault says of a table. -/
def LoadError.IsFaultOf (t : MetadataTable) : LoadError → Prop
  | tooManySlots count => count = t.slotCount ∧ greatestSlotCount < t.slotCount
  | slotOutOfRange slot count =>
    count = t.slotCount ∧ t.slotCount ≤ slot ∧ ∃ n ∈ t.populations, n.slot.index = slot
  | duplicatePopulation slot => 2 ≤ (t.populations.map (·.slot.index)).count slot
  | danglingReference slot target count =>
    count = t.slotCount ∧ t.slotCount ≤ target ∧
      ∃ n ∈ t.populations, n.slot.index = slot ∧ ⟨target⟩ ∈ n.slotRefs
  | unpopulated slot => slot < t.slotCount ∧ ∀ n ∈ t.populations, n.slot.index ≠ slot
  | danglingName package name slot =>
    t.slotCount ≤ slot ∧ t.lookup package name = some ⟨slot⟩
  | unreadable _ => False

namespace Library

variable {t : MetadataTable} {count : Nat} {nodes : List TypeNode} {filled : List SlotId}
  {fault : LoadError}

/-! ### Faults of records -/

theorem populationFault?_cons (count : Nat) (filled : List SlotId) (n : TypeNode)
    (rest : List TypeNode) :
    (count ≤ n.slot.index ∧
      populationFault? count filled (n :: rest) = some (.slotOutOfRange n.slot.index count)) ∨
    (n.slot.index < count ∧ n.slot ∈ filled ∧
      populationFault? count filled (n :: rest) = some (.duplicatePopulation n.slot.index)) ∨
    (n.slot.index < count ∧ n.slot ∉ filled ∧
      ∃ target ∈ n.slotRefs, count ≤ target.index ∧
        populationFault? count filled (n :: rest)
          = some (.danglingReference n.slot.index target.index count)) ∨
    (n.slot.index < count ∧ n.slot ∉ filled ∧ (∀ s ∈ n.slotRefs, s.index < count) ∧
      populationFault? count filled (n :: rest)
        = populationFault? count (n.slot :: filled) rest) := by
  rw [populationFault?]
  by_cases hlt : n.slot.index < count
  · rw [if_neg (by omega)]
    by_cases hmem : n.slot ∈ filled
    · rw [if_pos hmem]
      exact .inr (.inl ⟨hlt, hmem, rfl⟩)
    · rw [if_neg hmem]
      cases hfind : n.slotRefs.find? (count ≤ ·.index) with
      | some target =>
        have hle : count ≤ target.index := by simpa using List.find?_some hfind
        exact .inr (.inr (.inl
          ⟨hlt, hmem, target, List.mem_of_find?_eq_some hfind, hle, rfl⟩))
      | none =>
        refine .inr (.inr (.inr ⟨hlt, hmem, fun s hs => ?_, rfl⟩))
        simpa using List.find?_eq_none.mp hfind s hs
  · rw [if_pos (by omega)]
    exact .inl ⟨by omega, rfl⟩

/-- Records have no fault if they are in range, have slots of their own that are
not filled, and lead to slots of the table. -/
theorem populationFault?_eq_none_iff :
    populationFault? count filled nodes = none ↔
      (∀ n ∈ nodes, n.slot.index < count) ∧ (nodes.map (·.slot)).Nodup ∧
      (∀ n ∈ nodes, n.slot ∉ filled) ∧ ∀ n ∈ nodes, ∀ s ∈ n.slotRefs, s.index < count := by
  induction nodes generalizing filled with
  | nil => simp [populationFault?]
  | cons n rest ih =>
    simp only [List.forall_mem_cons, List.map_cons, List.nodup_cons]
    obtain ⟨hle, he⟩ | ⟨-, hmem, he⟩ | ⟨-, -, target, ht, hle, he⟩ | ⟨hlt, hmem, hrefs, he⟩ :=
      populationFault?_cons count filled n rest
    · rw [he]
      refine ⟨nofun, fun h => ?_⟩
      exact absurd h.1.1 (by omega)
    · rw [he]
      refine ⟨nofun, fun h => ?_⟩
      exact absurd hmem h.2.2.1.1
    · rw [he]
      refine ⟨nofun, fun h => ?_⟩
      exact absurd (h.2.2.2.1 target ht) (by omega)
    · -- the slot of the first record is filled for those behind it
      rw [he, ih]
      constructor
      · rintro ⟨hrange, hnodup, hfree, hedges⟩
        refine ⟨⟨hlt, hrange⟩, ⟨?_, hnodup⟩, ⟨hmem, fun m hm h => ?_⟩, hrefs, hedges⟩
        · intro hn
          obtain ⟨m, hm, heq⟩ := List.mem_map.mp hn
          exact hfree m hm (heq ▸ List.mem_cons_self)
        · exact hfree m hm (List.mem_cons_of_mem _ h)
      · rintro ⟨⟨-, hrange⟩, ⟨hn, hnodup⟩, ⟨-, hfree⟩, -, hedges⟩
        refine ⟨hrange, hnodup, fun m hm h => ?_, hedges⟩
        rcases List.mem_cons.mp h with h | h
        · exact hn (List.mem_map.mpr ⟨m, hm, h⟩)
        · exact hfree m hm h

/-- A fault that is found among the last records of a table is one of the table. -/
theorem isFaultOf_of_populationFault? {before : List TypeNode}
    (ht : t.populations = before ++ nodes) (hfilled : ∀ s ∈ filled, ∃ n ∈ before, n.slot = s)
    (hf : populationFault? t.slotCount filled nodes = some fault) : fault.IsFaultOf t := by
  induction nodes generalizing before filled with
  | nil => cases hf
  | cons n rest ih =>
    have hn : n ∈ t.populations := ht ▸ List.mem_append_right _ List.mem_cons_self
    obtain ⟨hle, he⟩ | ⟨-, hmem, he⟩ | ⟨-, -, target, htarget, hle, he⟩ | ⟨-, -, -, he⟩ :=
      populationFault?_cons t.slotCount filled n rest
    · rw [he] at hf
      cases hf
      exact ⟨rfl, hle, n, hn, rfl⟩
    · rw [he] at hf
      cases hf
      -- one record stands here and the other one before
      obtain ⟨m, hm, hslot⟩ := hfilled n.slot hmem
      have hbefore : 0 < (before.map (·.slot.index)).count n.slot.index :=
        List.count_pos_iff.mpr (List.mem_map.mpr ⟨m, hm, congrArg SlotId.index hslot⟩)
      show 2 ≤ (t.populations.map (·.slot.index)).count n.slot.index
      rw [ht, List.map_append, List.map_cons, List.count_append, List.count_cons_self]
      omega
    · rw [he] at hf
      cases hf
      exact ⟨rfl, hle, n, hn, rfl, htarget⟩
    · rw [he] at hf
      refine @ih (n.slot :: filled) (before ++ [n]) ?_ ?_ hf
      · rw [ht, List.append_assoc]
        rfl
      · intro s hs
        rcases List.mem_cons.mp hs with rfl | hs
        · exact ⟨n, List.mem_append_right _ (List.mem_singleton.mpr rfl), rfl⟩
        · obtain ⟨m, hm, hslot⟩ := hfilled s hs
          exact ⟨m, List.mem_append_left _ hm, hslot⟩

/-! ### Gaps and names -/

theorem firstGap?_eq_some {left first i : Nat} (hg : firstGap? nodes left first = some i) :
    first ≤ i ∧ i < first + left ∧ ∀ n ∈ nodes, n.slot.index ≠ i := by
  induction left generalizing first with
  | zero => cases hg
  | succ left ih =>
    rw [firstGap?] at hg
    split at hg
    · obtain ⟨hle, hlt, hnone⟩ := ih hg
      exact ⟨by omega, by omega, hnone⟩
    · rename_i hany
      cases hg
      exact ⟨Nat.le_refl _, by omega, by simpa using hany⟩

theorem firstGap?_eq_none_iff {left first : Nat} :
    firstGap? nodes left first = none ↔
      ∀ i, first ≤ i → i < first + left → ∃ n ∈ nodes, n.slot.index = i := by
  refine ⟨exists_of_firstGap?_eq_none, fun h => ?_⟩
  rw [Option.eq_none_iff_forall_ne_some]
  intro i hi
  obtain ⟨hle, hlt, hnone⟩ := firstGap?_eq_some hi
  obtain ⟨n, hn, hslot⟩ := h i hle hlt
  exact hnone n hn hslot

/-- The names of a package have no fault, or the first one that leads beyond the slots. -/
theorem nameFault?_cases (count : Nat) (package : String) (names : List (String × SlotId)) :
    (nameFault? count package names = none ∧ ∀ e ∈ names, e.2.index < count) ∨
    ∃ e ∈ names, count ≤ e.2.index ∧
      nameFault? count package names = some (.danglingName package e.1 e.2.index) := by
  induction names with
  | nil => exact .inl ⟨rfl, fun e he => absurd he List.not_mem_nil⟩
  | cons e rest ih =>
    rw [nameFault?]
    split
    · exact .inr ⟨e, List.mem_cons_self, ‹_›, rfl⟩
    · obtain ⟨hnone, hall⟩ | ⟨e', he', hle, hsome⟩ := ih
      · exact .inl ⟨hnone, List.forall_mem_cons.mpr ⟨by omega, hall⟩⟩
      · exact .inr ⟨e', List.mem_cons_of_mem e he', hle, hsome⟩

/-- The names of some packages have no fault, or the first one that leads beyond the slots. -/
theorem packageFault?_cases (count : Nat) (packages : List (String × PackageTable)) :
    (packageFault? count packages = none ∧
      ∀ p ∈ packages, ∀ e ∈ p.2.entries, e.2.index < count) ∨
    ∃ p ∈ packages, ∃ e ∈ p.2.entries, count ≤ e.2.index ∧
      packageFault? count packages = some (.danglingName p.1 e.1 e.2.index) := by
  induction packages with
  | nil => exact .inl ⟨rfl, fun p hp => absurd hp List.not_mem_nil⟩
  | cons p rest ih =>
    rw [packageFault?]
    obtain ⟨hnone, hall⟩ | ⟨e, he, hle, hsome⟩ := nameFault?_cases count p.1 p.2.entries
    · rw [hnone]
      obtain ⟨hnone', hall'⟩ | ⟨p', hp', h⟩ := ih
      · exact .inl ⟨hnone', List.forall_mem_cons.mpr ⟨hall, hall'⟩⟩
      · exact .inr ⟨p', List.mem_cons_of_mem p hp', h⟩
    · rw [hsome]
      exact .inr ⟨p, List.mem_cons_self, e, he, hle, rfl⟩

theorem packageFault?_eq_none_iff :
    packageFault? count t.packages.entries = none ↔
      ∀ names ∈ t.packages.values, ∀ s ∈ names.values, s.index < count := by
  have hvalues : (∀ names ∈ t.packages.values, ∀ s ∈ names.values, s.index < count) ↔
      ∀ p ∈ t.packages.entries, ∀ e ∈ p.2.entries, e.2.index < count := by
    simp only [OrderedMap.values, List.forall_mem_map]
  rw [hvalues]
  obtain ⟨hnone, hall⟩ | ⟨p, hp, e, he, hle, hsome⟩ :=
    packageFault?_cases count t.packages.entries
  · exact ⟨fun _ => hall, fun _ => hnone⟩
  · rw [hsome]
    refine ⟨fun h => ?_, fun h => ?_⟩
    · cases h
    · exact absurd (h p hp e he) (by omega)

theorem isFaultOf_of_packageFault?
    (hf : packageFault? t.slotCount t.packages.entries = some fault) : fault.IsFaultOf t := by
  obtain ⟨hnone, -⟩ | ⟨p, hp, e, he, hle, hsome⟩ :=
    packageFault?_cases t.slotCount t.packages.entries
  · rw [hnone] at hf
    cases hf
  · rw [hsome] at hf
    cases hf
    refine ⟨hle, ?_⟩
    rw [MetadataTable.lookup, OrderedMap.get?_eq_some_iff.mpr hp]
    exact OrderedMap.get?_eq_some_iff.mpr he

/-! ### Faults of tables -/

/-- Numbers below a bound that all occur, none of them twice, are those below it in some order. -/
theorem perm_range_iff {slots : List Nat} :
    slots.Perm (List.range count) ↔
      (∀ i ∈ slots, i < count) ∧ slots.Nodup ∧ ∀ i < count, i ∈ slots := by
  constructor
  · intro hp
    refine ⟨fun i hi => ?_, hp.nodup_iff.mpr List.nodup_range, fun i hi => ?_⟩
    · exact List.mem_range.mp (hp.mem_iff.mp hi)
    · exact hp.mem_iff.mpr (List.mem_range.mpr hi)
  · rintro ⟨hlt, hnodup, hall⟩
    refine (List.perm_ext_iff_of_nodup hnodup List.nodup_range).mpr fun i => ?_
    rw [List.mem_range]
    exact ⟨hlt i, hall i⟩

theorem nodup_map_index_iff :
    (nodes.map (·.slot.index)).Nodup ↔ (nodes.map (·.slot)).Nodup := by
  have hinj : Function.Injective SlotId.index := by
    rintro ⟨i⟩ ⟨j⟩ rfl
    rfl
  have hmap : nodes.map (·.slot.index) = (nodes.map (·.slot)).map SlotId.index := by
    rw [List.map_map]
    rfl
  rw [hmap, List.nodup_map_iff hinj]

theorem fault?_eq_none_iff :
    fault? t = none ↔ t.slotCount ≤ greatestSlotCount ∧ t.IsComplete := by
  rw [fault?]
  split
  · refine ⟨fun h => ?_, fun h => ?_⟩
    · cases h
    · exact absurd h.1 (by omega)
  · rename_i hle
    rw [Option.orElse_eq_none, Option.orElse_eq_none, Option.map_eq_none_iff,
      populationFault?_eq_none_iff, firstGap?_eq_none_iff, packageFault?_eq_none_iff]
    have hcomplete : t.IsComplete ↔
        (t.populations.map (·.slot.index)).Perm (List.range t.slotCount) ∧
        (∀ n ∈ t.populations, ∀ s ∈ n.slotRefs, s.index < t.slotCount) ∧
        ∀ names ∈ t.packages.values, ∀ s ∈ names.values, s.index < t.slotCount :=
      ⟨fun h => ⟨h.records, h.edges, h.names⟩, fun h => ⟨h.1, h.2.1, h.2.2⟩⟩
    rw [hcomplete, perm_range_iff, nodup_map_index_iff]
    constructor
    · rintro ⟨⟨hrange, hnodup, -, hedges⟩, hgaps, hnames⟩
      refine ⟨by omega, ⟨?_, hnodup, fun i hi => ?_⟩, hedges, hnames⟩
      · exact List.forall_mem_map.mpr hrange
      · exact List.mem_map.mpr (hgaps i (Nat.zero_le i) (by omega))
    · rintro ⟨-, ⟨hrange, hnodup, hgaps⟩, hedges, hnames⟩
      refine ⟨⟨List.forall_mem_map.mp hrange, hnodup, ?_, hedges⟩, ?_, hnames⟩
      · exact fun _ _ => List.not_mem_nil
      · exact fun i _ hi => List.mem_map.mp (hgaps i (by omega))

theorem isFaultOf_of_fault? (hf : fault? t = some fault) : fault.IsFaultOf t := by
  rw [fault?] at hf
  split at hf
  · cases hf
    exact ⟨rfl, ‹_›⟩
  · simp only [Option.orElse_eq_orElse, Option.orElse_eq_or, Option.or_eq_some_iff,
      Option.map_eq_some_iff] at hf
    obtain hf | ⟨-, ⟨i, hi, rfl⟩ | ⟨-, hf⟩⟩ := hf
    · have hempty : ∀ s ∈ ([] : List SlotId), ∃ n ∈ ([] : List TypeNode), n.slot = s :=
        fun s hs => absurd hs List.not_mem_nil
      exact isFaultOf_of_populationFault? rfl hempty hf
    · obtain ⟨-, hlt, hnone⟩ := firstGap?_eq_some hi
      exact ⟨by omega, hnone⟩
    · exact isFaultOf_of_packageFault? hf

/-! ### Loading -/

/-- In a complete table the record of a slot is the one that has it. -/
theorem population?_eq_some_iff (hc : t.IsComplete) {slot : SlotId} {n : TypeNode} :
    t.population? slot = some n ↔ n ∈ t.populations ∧ n.slot = slot := by
  have hnodup := nodup_map_index_iff.mp (perm_range_iff.mp hc.records).2.1
  constructor
  · intro h
    exact ⟨List.mem_of_find?_eq_some h, by simpa using List.find?_some h⟩
  · rintro ⟨hn, hslot⟩
    obtain ⟨m, hm⟩ : ∃ m, t.population? slot = some m := by
      rw [← Option.isSome_iff_exists, MetadataTable.population?, List.find?_isSome]
      exact ⟨n, hn, by simpa using hslot⟩
    have hmslot : m.slot = slot := by simpa using List.find?_some hm
    have heq : m = n :=
      List.inj_on_of_nodup_map hnodup (List.mem_of_find?_eq_some hm) hn (hmslot.trans hslot.symm)
    rw [hm, heq]

theorem isComplete_of_perm {populations : List TypeNode}
    (hp : populations.Perm t.populations) (hc : t.IsComplete) :
    ({ t with populations := populations } : MetadataTable).IsComplete where
  records := (hp.map _).trans hc.records
  edges n hn := hc.edges n (hp.mem_iff.mp hn)
  names := hc.names

/-- The order of the records makes no difference. -/
theorem load_of_perm {populations : List TypeNode} (hp : populations.Perm t.populations)
    (hf : fault? t = none) : load { t with populations := populations } = load t := by
  obtain ⟨hle, hc⟩ := fault?_eq_none_iff.mp hf
  have hc' := isComplete_of_perm hp hc
  have hf' : fault? { t with populations := populations } = none :=
    fault?_eq_none_iff.mpr ⟨hle, hc'⟩
  have hsame : ∀ slot, ({ t with populations := populations } : MetadataTable).population? slot
      = t.population? slot := by
    intro slot
    refine Option.ext fun n => ?_
    rw [population?_eq_some_iff hc', population?_eq_some_iff hc, hp.mem_iff]
  rw [load, load, hf', hf]
  simp only [hsame]

theorem load_ok_iff : (∃ l, load t = .ok l) ↔ t.slotCount ≤ greatestSlotCount ∧ t.IsComplete := by
  rw [← fault?_eq_none_iff]
  obtain ⟨fault, hsome, he⟩ | ⟨hnone, he⟩ := load_cases t
  · rw [he, hsome]
    exact ⟨nofun, nofun⟩
  · rw [he]
    exact ⟨fun _ => hnone, fun _ => ⟨_, rfl⟩⟩

/-- Every slot of a loaded table has its record. -/
theorem exists_typeAt?_of_load {l : Library} (hl : load t = .ok l) {i : Nat}
    (hi : i < t.slotCount) :
    ∃ n ∈ t.populations, n.slot = ⟨i⟩ ∧ l.typeAt? ⟨i⟩ = some ⟨l, n⟩ := by
  have hc := (load_ok_iff.mp ⟨l, hl⟩).2
  obtain ⟨n, hn, hslot⟩ := List.mem_map.mp ((perm_range_iff.mp hc.records).2.2 i hi)
  have hslot' : n.slot = ⟨i⟩ := congrArg SlotId.mk hslot
  refine ⟨n, hn, hslot', ?_⟩
  rw [typeAt?, node?_of_load hl, if_pos hi, (population?_eq_some_iff hc).mpr ⟨hn, hslot'⟩]
  rfl

/-- A table is loaded exactly if it is complete and not too large; every slot
then has its own record, in whatever order the records came.  A table that is
not loaded has the fault that is reported. -/
theorem loads_iff_isComplete (t : MetadataTable) :
    ((∃ l, load t = .ok l) ↔ t.slotCount ≤ greatestSlotCount ∧ t.IsComplete) ∧
    (∀ l, load t = .ok l →
      (∀ i < t.slotCount, ∃ n ∈ t.populations, n.slot = ⟨i⟩ ∧ l.typeAt? ⟨i⟩ = some ⟨l, n⟩) ∧
      ∀ populations, populations.Perm t.populations →
        ∃ l', load { t with populations := populations } = .ok l' ∧
          l'.slots = l.slots ∧ l'.packages = l.packages) ∧
    ∀ fault, load t = .error fault → fault.IsFaultOf t := by
  refine ⟨load_ok_iff, fun l hl => ⟨fun i hi => exists_typeAt?_of_load hl hi, ?_⟩, ?_⟩
  · intro populations hp
    have hf : fault? t = none := fault?_eq_none_iff.mpr (load_ok_iff.mp ⟨l, hl⟩)
    exact ⟨l, (load_of_perm hp hf).trans hl, rfl, rfl⟩
  · intro fault he
    obtain ⟨fault', hsome, he'⟩ | ⟨-, he'⟩ := load_cases t
    · rw [he'] at he
      cases he
      exact isFaultOf_of_fault? hsome
    · rw [he'] at he
      cases he

/-- Two interfaces whose records stand in the wrong order; the second refers to the first. -/
def swapped : MetadataTable where
  library := "default"
  slotCount := 2
  intrinsics := Intrinsic.all
  packages := .ofList [("file", .ofList [("A", ⟨0⟩), ("B", ⟨1⟩)])]
  populations := [
    ⟨⟨1⟩, some "B", .interfaceNode .empty []⟩,
    ⟨⟨0⟩, some "A",
      .interfaceNode { ObjectBody.empty with members := [⟨"b", .slot ⟨1⟩, false⟩] } []⟩]

/-- The table is loaded with its records in either order, and not if it has one slot less. -/
theorem loads_iff_isComplete_swapped :
    (∃ l, load swapped = .ok l ∧
      (∃ n ∈ swapped.populations, n.slot = ⟨0⟩ ∧ l.typeAt? ⟨0⟩ = some ⟨l, n⟩) ∧
      ∃ l', load { swapped with populations := swapped.populations.reverse } = .ok l' ∧
        l'.slots = l.slots ∧ l'.packages = l.packages) ∧
    load { swapped with slotCount := 1 } = .error (.slotOutOfRange 1 1) ∧
    (LoadError.slotOutOfRange 1 1).IsFaultOf { swapped with slotCount := 1 } := by
  obtain ⟨hiff, hloaded, -⟩ := loads_iff_isComplete swapped
  have hcomplete : swapped.IsComplete := ⟨by decide, by decide, by decide⟩
  obtain ⟨l, hl⟩ := hiff.mpr ⟨by decide, hcomplete⟩
  have hrefused : load { swapped with slotCount := 1 } = .error (.slotOutOfRange 1 1) := by
    decide +kernel
  refine ⟨⟨l, hl, (hloaded l hl).1 0 (by decide), ?_⟩, hrefused, ?_⟩
  · exact (hloaded l hl).2 _ swapped.populations.reverse_perm
  · exact (loads_iff_isComplete { swapped with slotCount := 1 }).2.2 _ hrefused

end Library

end TypeCatalog
