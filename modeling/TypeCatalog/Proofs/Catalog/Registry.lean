/-
Registries only grow.

`Registry.GrowsTo` relates a registry to the later states of itself: the old
entries are still there, at their old places.  Slots and entries that were given
out stay (`lookup_of_growsTo`, `entry?_of_growsTo`), and `identify` is a growth
by at most one entry (`identify_cases`).
-/
import Mathlib.Data.List.Nodup
import TypeCatalog.Catalog.Registry

namespace TypeCatalog

namespace Registry

variable {r r' r'' : Registry} {h : TypeHandle} {s : SlotId} {e : Entry}

/-- The handles that have a slot, in the order of their slots. -/
def handles (r : Registry) : List TypeHandle := r.entries.map Entry.handle

/-- The first registry is an earlier state of the second. -/
def GrowsTo (r r' : Registry) : Prop := r.entries <+: r'.entries

theorem GrowsTo.refl (r : Registry) : r.GrowsTo r := List.prefix_rfl

theorem GrowsTo.trans (h₁ : r.GrowsTo r') (h₂ : r'.GrowsTo r'') : r.GrowsTo r'' :=
  List.IsPrefix.trans h₁ h₂

theorem GrowsTo.size_le (hg : r.GrowsTo r') : r.size ≤ r'.size := List.IsPrefix.length_le hg

/-! ### Looking up -/

theorem findFrom_eq (h : TypeHandle) (i : Nat) (es : List Entry) :
    findFrom h i es = (es.findIdx? (·.handle = h)).map (· + i) := by
  induction es generalizing i with
  | nil => rfl
  | cons e rest ih =>
    by_cases he : e.handle = h
    · simp [findFrom, List.findIdx?_cons, he]
    · simp only [findFrom, ih, List.findIdx?_cons, he, decide_false, Bool.false_eq_true,
        if_false, Option.map_map]
      refine congrArg (Option.map · _) (funext fun j => ?_)
      show j + (i + 1) = j + 1 + i
      omega

theorem lookup_eq (r : Registry) (h : TypeHandle) :
    r.lookup h = (r.entries.findIdx? (·.handle = h)).map SlotId.mk := by
  rw [lookup, findFrom_eq, Option.map_map]
  rfl

theorem lookup_eq_none_iff : r.lookup h = none ↔ h ∉ r.handles := by
  rw [lookup_eq, Option.map_eq_none_iff, List.findIdx?_eq_none_iff]
  simp [handles]

theorem entry?_of_lookup (hl : r.lookup h = some s) :
    ∃ e, r.entry? s = some e ∧ e.handle = h := by
  rw [lookup_eq, Option.map_eq_some_iff] at hl
  obtain ⟨i, hi, rfl⟩ := hl
  obtain ⟨hlt, hh, -⟩ := List.findIdx?_eq_some_iff_getElem.mp hi
  refine ⟨r.entries[i], List.getElem?_eq_getElem hlt, ?_⟩
  simpa using hh

/-- Two handles do not share a slot. -/
theorem eq_of_lookup {h' : TypeHandle} (hl : r.lookup h = some s) (hl' : r.lookup h' = some s) :
    h = h' := by
  obtain ⟨e, he, rfl⟩ := entry?_of_lookup hl
  obtain ⟨e', he', rfl⟩ := entry?_of_lookup hl'
  rw [he] at he'
  cases he'
  rfl

theorem lt_size_of_entry (he : r.entry? s = some e) : s.index < r.size :=
  (List.getElem?_eq_some_iff.mp he).choose

theorem lt_size_of_lookup (hl : r.lookup h = some s) : s.index < r.size := by
  obtain ⟨e, he, -⟩ := entry?_of_lookup hl
  exact lt_size_of_entry he

theorem entry?_of_lt_size (hs : s.index < r.size) : ∃ e, r.entry? s = some e :=
  ⟨r.entries[s.index], List.getElem?_eq_getElem hs⟩

theorem mem_entries_of_entry (he : r.entry? s = some e) : e ∈ r.entries :=
  List.mem_of_getElem? he

/-- Where no handle stands twice, the slot of an entry is the slot of its handle. -/
theorem lookup_of_entry? (hn : r.handles.Nodup) (he : r.entry? s = some e) :
    r.lookup e.handle = some s := by
  have hmem : e.handle ∈ r.handles := List.mem_map_of_mem (mem_entries_of_entry he)
  cases hl : r.lookup e.handle with
  | none => exact absurd hmem (lookup_eq_none_iff.mp hl)
  | some s' =>
    obtain ⟨e', he', hh⟩ := entry?_of_lookup hl
    have hi : r.handles[s.index]? = some e.handle := by
      rw [handles, List.getElem?_map, show r.entries[s.index]? = some e from he]
      rfl
    have hi' : r.handles[s'.index]? = some e.handle := by
      rw [handles, List.getElem?_map, show r.entries[s'.index]? = some e' from he', ← hh]
      rfl
    have hlt : s'.index < r.handles.length := by
      rw [handles, List.length_map]
      exact lt_size_of_entry he'
    have hidx : s'.index = s.index := (List.getElem?_inj hlt hn).mp (hi'.trans hi.symm)
    exact congrArg some (congrArg SlotId.mk hidx)

/-! ### Growth keeps what is there -/

theorem entry?_of_growsTo (hg : r.GrowsTo r') (he : r.entry? s = some e) :
    r'.entry? s = some e := by
  obtain ⟨news, hnews⟩ := hg
  rw [ entry?, ← hnews, List.getElem?_append_left (lt_size_of_entry he)]
  exact he

theorem lookup_of_growsTo (hg : r.GrowsTo r') (hl : r.lookup h = some s) :
    r'.lookup h = some s := by
  obtain ⟨news, hnews⟩ := hg
  rw [lookup_eq, Option.map_eq_some_iff] at hl
  obtain ⟨i, hi, rfl⟩ := hl
  rw [lookup_eq, ← hnews, List.findIdx?_append, hi]
  rfl

/-! ### Giving out slots -/

/-- A known handle keeps its slot; a new one gets the slot behind all others. -/
theorem identify_cases (r : Registry) (h : TypeHandle) (name : Option String) (shape : Shape) :
    (∃ s, r.lookup h = some s ∧ r.identify h name shape = (⟨s, false⟩, r)) ∨
    (h ∉ r.handles ∧
      r.identify h name shape = (⟨⟨r.size⟩, true⟩, ⟨r.entries ++ [⟨h, name, shape⟩]⟩)) := by
  cases hl : r.lookup h with
  | some s => exact .inl ⟨s, rfl, by rw [identify, hl]⟩
  | none => exact .inr ⟨lookup_eq_none_iff.mp hl, by rw [identify, hl]⟩

theorem growsTo_concat (r : Registry) (e : Entry) : r.GrowsTo ⟨r.entries ++ [e]⟩ :=
  List.prefix_append _ _

theorem growsTo_identify (r : Registry) (h : TypeHandle) (name : Option String) (shape : Shape) :
    r.GrowsTo (r.identify h name shape).2 := by
  obtain ⟨s, -, he⟩ | ⟨-, he⟩ := r.identify_cases h name shape
  · rw [he]
    exact GrowsTo.refl r
  · rw [he]
    exact growsTo_concat r _

theorem lookup_identify (r : Registry) (h : TypeHandle) (name : Option String) (shape : Shape) :
    (r.identify h name shape).2.lookup h = some (r.identify h name shape).1.slot := by
  obtain ⟨s, hs, he⟩ | ⟨hh, he⟩ := r.identify_cases h name shape
  · rw [he]
    exact hs
  · have hnone : r.entries.findIdx? (·.handle = h) = none := by
      rw [← Option.map_eq_none_iff (f := SlotId.mk), ← lookup_eq]
      exact lookup_eq_none_iff.mpr hh
    rw [he, lookup_eq, List.findIdx?_append, hnone]
    simp [size]

end Registry

end TypeCatalog
