/-
The records of loaded tables.

A table with a slot that no record is for is not taken in, so that no place is
left out when the records are put in order: the record at a place of a loaded
table is the first one of this slot (`node?_of_load`).

What is found by a name is the record at some place, and of the kind that was
asked for (`node?_of_classForName`).
-/
import Mathlib.Data.Option.Basic
import TypeCatalog.Library.View
import TypeCatalog.Proofs.Except

namespace TypeCatalog

namespace Library

variable {t : MetadataTable} {l : Library} {populations : List TypeNode} {n : TypeNode}
  {slot : SlotId}

/-- Where there is no gap, every slot has a record. -/
theorem exists_of_firstGap?_eq_none {left first : Nat}
    (hg : firstGap? populations left first = none) :
    ∀ i, first ≤ i → i < first + left → ∃ n ∈ populations, n.slot.index = i := by
  induction left generalizing first with
  | zero =>
    intro i hle hlt
    omega
  | succ left ih =>
    intro i hle hlt
    rw [firstGap?] at hg
    split at hg
    · rename_i hany
      rcases Nat.eq_or_lt_of_le hle with rfl | hlt'
      · simpa using hany
      · exact ih hg i hlt' (by omega)
    · cases hg

theorem firstGap?_of_fault? (hf : fault? t = none) :
    firstGap? t.populations t.slotCount 0 = none := by
  rw [fault?] at hf
  split at hf
  · cases hf
  · rw [Option.orElse_eq_none, Option.orElse_eq_none, Option.map_eq_none_iff] at hf
    exact hf.2.1

theorem isSome_population?_of_fault? (hf : fault? t = none) {i : Nat} (hi : i < t.slotCount) :
    (t.population? ⟨i⟩).isSome := by
  obtain ⟨n, hn, hslot⟩ :=
    exists_of_firstGap?_eq_none (firstGap?_of_fault? hf) i (Nat.zero_le i) (by omega)
  rw [MetadataTable.population?, List.find?_isSome]
  exact ⟨n, hn, by simp [← hslot]⟩

theorem load_cases (t : MetadataTable) :
    (∃ fault, fault? t = some fault ∧ load t = .error fault) ∨
    (fault? t = none ∧ load t = .ok
      { name := t.library
        slots := (List.range t.slotCount).filterMap fun i => t.population? ⟨i⟩
        packages := t.packages
        constructors := .empty }) := by
  rw [load]
  split
  · exact .inl ⟨_, ‹_›, rfl⟩
  · exact .inr ⟨‹_›, rfl⟩

/-- What is loaded has no fault, and is made of the parts of the table. -/
theorem eq_of_load (hl : load t = .ok l) : fault? t = none ∧ l =
    { name := t.library
      slots := (List.range t.slotCount).filterMap fun i => t.population? ⟨i⟩
      packages := t.packages
      constructors := .empty } := by
  obtain ⟨fault, -, hfault⟩ | ⟨hf, hok⟩ := load_cases t
  · rw [hfault] at hl
    cases hl
  · rw [hok] at hl
    cases hl
    exact ⟨hf, rfl⟩

theorem length_filterMap_range {f : Nat → Option TypeNode} {count : Nat}
    (hf : ∀ i < count, (f i).isSome) : ((List.range count).filterMap f).length = count := by
  rw [List.length_filterMap_eq_countP, List.countP_eq_length.mpr, List.length_range]
  exact fun i hi => hf i (List.mem_range.mp hi)

/-- Where no place is left out, each keeps what is made for it. -/
theorem getElem?_filterMap_range {f : Nat → Option TypeNode} {count : Nat}
    (hf : ∀ i < count, (f i).isSome) (i : Nat) :
    ((List.range count).filterMap f)[i]? = if i < count then f i else none := by
  induction count with
  | zero => simp
  | succ count ih =>
    have hbefore : ∀ i < count, (f i).isSome := fun i hi => hf i (by omega)
    obtain ⟨n, hn⟩ := Option.isSome_iff_exists.mp (hf count (by omega))
    rw [List.range_succ, List.filterMap_append, List.filterMap_cons_some hn, List.filterMap_nil]
    rcases Nat.lt_trichotomy i count with hlt | rfl | hgt
    · rw [List.getElem?_append_left (by rw [length_filterMap_range hbefore]; exact hlt),
        ih hbefore, if_pos hlt, if_pos (by omega)]
    · have hlength := length_filterMap_range hbefore
      rw [List.getElem?_append_right (Nat.le_of_eq hlength), hlength, Nat.sub_self]
      simp [hn]
    · rw [if_neg (by omega)]
      refine List.getElem?_eq_none ?_
      rw [List.length_append, length_filterMap_range hbefore, List.length_singleton]
      exact hgt

/-- The record at a place of a loaded table is the one of this slot. -/
theorem node?_of_load (hl : load t = .ok l) :
    l.node? slot = if slot.index < t.slotCount then t.population? slot else none := by
  obtain ⟨hf, rfl⟩ := eq_of_load hl
  exact getElem?_filterMap_range (fun i hi => isSome_population?_of_fault? hf hi) slot.index

theorem slot_of_node?_of_load (hl : load t = .ok l) (hn : l.node? slot = some n) :
    n.slot = slot := by
  rw [node?_of_load hl] at hn
  split at hn
  · rw [MetadataTable.population?] at hn
    simpa using List.find?_some hn
  · cases hn

theorem name_of_load (hl : load t = .ok l) : l.name = t.library := by
  rw [(eq_of_load hl).2]

theorem constructors_of_load (hl : load t = .ok l) : l.constructors = .empty := by
  rw [(eq_of_load hl).2]

/-! ### What is found by a name -/

theorem node?_of_lookup {package name : String} (hn : l.lookup package name = .ok n) :
    ∃ slot, l.node? slot = some n := by
  obtain ⟨slot, -, hslot⟩ := exists_of_bind_eq_ok hn
  refine ⟨slot, ?_⟩
  split at hslot
  · cases hslot
    assumption
  · cases hslot

theorem node?_of_classForName {package name : String}
    (hn : l.classForName package name = .ok n) :
    (∃ slot, l.node? slot = some n) ∧ n.kind.isClass = true := by
  obtain ⟨n', hn', hclass⟩ := exists_of_bind_eq_ok hn
  split at hclass
  · cases hclass
    exact ⟨node?_of_lookup hn', ‹_›⟩
  · cases hclass

end Library

end TypeCatalog
