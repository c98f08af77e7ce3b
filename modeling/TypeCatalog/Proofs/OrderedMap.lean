/-
Further laws of ordered maps.

Which entries, keys and values there are after `insert` and `erase`; keys come in
like the elements of a list without its repetitions.  A sum over the values
changes with `insert` by what the new value adds and what the old one takes away
(`sum_values_insert`).
-/
import Mathlib.Algebra.Ring.Nat
import Mathlib.Data.List.Basic
import TypeCatalog.OrderedMap

namespace TypeCatalog

/-- One more element comes last, if it is new. -/
theorem eraseDups_concat {α : Type} [DecidableEq α] (l : List α) (a : α) :
    (l ++ [a]).eraseDups = if a ∈ l then l.eraseDups else l.eraseDups ++ [a] := by
  rw [List.eraseDups_append]
  split
  · rename_i ha
    have hnone : [a].removeAll l = [] := by simp [List.removeAll, ha]
    rw [hnone, List.eraseDups_nil, List.append_nil]
  · rename_i ha
    have hsome : [a].removeAll l = [a] := by simp [List.removeAll, ha]
    rw [hsome]
    rfl

namespace OrderedMap

universe u v

variable {κ : Type u} {α : Type v} [DecidableEq κ] {m : OrderedMap κ α} {k k' : κ} {a a' : α}

theorem mem_keys_iff : k ∈ m.keys ↔ ∃ a, m.get? k = some a := by
  rw [← Option.isSome_iff_exists, ← not_iff_not, ← get?_eq_none_iff, Option.not_isSome_iff_eq_none]

theorem contains_iff : m.contains k = true ↔ k ∈ m.keys := by
  rw [contains, Option.isSome_iff_exists, mem_keys_iff]

theorem entries_insert (h : k ∉ m.keys) : (m.insert k a).entries = m.entries ++ [(k, a)] :=
  place_of_not_mem h

theorem entries_erase (m : OrderedMap κ α) (k : κ) :
    (m.erase k).entries = m.entries.filter (·.1 ≠ k) :=
  rfl

theorem mem_values_iff : a ∈ m.values ↔ ∃ k, m.get? k = some a := by
  simp only [values, List.mem_map, get?_eq_some_iff]
  constructor
  · rintro ⟨e, he, rfl⟩
    exact ⟨e.1, he⟩
  · rintro ⟨k, hk⟩
    exact ⟨(k, a), hk, rfl⟩

theorem mem_values_insert (ha : a' ∈ (m.insert k a).values) : a' = a ∨ a' ∈ m.values := by
  obtain ⟨k', hk'⟩ := mem_values_iff.mp ha
  rw [get?_insert] at hk'
  split at hk'
  · exact .inl (Option.some.inj hk').symm
  · exact .inr (mem_values_iff.mpr ⟨k', hk'⟩)

theorem mem_values_erase (ha : a ∈ (m.erase k).values) : a ∈ m.values := by
  obtain ⟨k', hk'⟩ := mem_values_iff.mp ha
  rw [get?_erase] at hk'
  split at hk'
  · cases hk'
  · exact mem_values_iff.mpr ⟨k', hk'⟩

/-! ### Sizes and sums -/

omit [DecidableEq κ] in
theorem size_eq_length_keys (m : OrderedMap κ α) : m.size = m.keys.length :=
  List.length_map _ |>.symm

theorem size_insert_of_notMem (h : k ∉ m.keys) : (m.insert k a).size = m.size + 1 := by
  rw [size, entries_insert h, List.length_append]
  rfl

/-- Taking out a key that is there makes the map smaller by one. -/
theorem size_erase_of_mem (h : k ∈ m.keys) : (m.erase k).size + 1 = m.size := by
  have hpos : 0 < m.keys.length := List.length_pos_of_mem h
  have hnodup : m.keys.Nodup := m.nodup_keys
  have herase : m.keys.filter (· ≠ k) = m.keys.erase k := by
    rw [hnodup.erase_eq_filter k]
    exact List.filter_congr fun x _ => by by_cases hx : x = k <;> simp [hx]
  rw [size_eq_length_keys, size_eq_length_keys, keys_erase, herase, List.length_erase_of_mem h]
  omega

theorem sum_place (w : α → Nat) (k : κ) (a : α) (es : List (κ × α)) :
    ((place k a es).map fun e => w e.2).sum + ((find k es).map w).getD 0
      = (es.map fun e => w e.2).sum + w a := by
  induction es with
  | nil => simp [place, find]
  | cons e rest ih =>
    by_cases h : e.1 = k
    · simp [place, find, h]
      omega
    · simp only [place, find, if_neg h, List.map_cons, List.sum_cons]
      omega

theorem sum_values_insert (w : α → Nat) (m : OrderedMap κ α) (k : κ) (a : α) :
    ((m.insert k a).values.map w).sum + ((m.get? k).map w).getD 0
      = (m.values.map w).sum + w a := by
  rw [values, values, List.map_map, List.map_map]
  exact sum_place w k a m.entries

end OrderedMap

end TypeCatalog
