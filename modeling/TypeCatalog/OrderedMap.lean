/-
Maps that remember the order in which their keys first came in.

An `OrderedMap` is a list of entries in which no key stands twice; the order of
the list is the order that readers of the map see.

* `insert` overwrites the value of a known key where it stands, and puts a new
  key at the end (`keys_insert`, `get?_insert`);
* `erase` closes the gap and leaves the others in their order (`keys_erase`);
* `ofList` is insertion from the left, so that of equal keys the last value
  stays at the first place; on a list without equal keys it changes nothing
  (`entries_ofList`).
-/

namespace TypeCatalog

universe u v

/-- A map whose entries stand in the order in which their keys first came in. -/
structure OrderedMap (κ : Type u) (α : Type v) where
  entries : List (κ × α)
  nodup_keys : (entries.map Prod.fst).Nodup

namespace OrderedMap

variable {κ : Type u} {α : Type v}

theorem ext_entries {m n : OrderedMap κ α} (h : m.entries = n.entries) : m = n := by
  cases m
  cases n
  cases h
  rfl

instance [DecidableEq κ] [DecidableEq α] : DecidableEq (OrderedMap κ α) := fun m n =>
  if h : m.entries = n.entries then isTrue (ext_entries h)
  else isFalse fun e => h (e ▸ rfl)

/-- The map without entries. -/
def empty : OrderedMap κ α := ⟨[], List.nodup_nil⟩

instance : Inhabited (OrderedMap κ α) := ⟨empty⟩

/-- The keys, first come first. -/
def keys (m : OrderedMap κ α) : List κ := m.entries.map Prod.fst

/-- The values, in the order of their keys. -/
def values (m : OrderedMap κ α) : List α := m.entries.map Prod.snd

/-- How many keys there are. -/
def size (m : OrderedMap κ α) : Nat := m.entries.length

@[simp] theorem entries_empty : (empty : OrderedMap κ α).entries = [] := rfl

variable [DecidableEq κ]

/-- The value of a key in a list of entries, the first if there are several. -/
def find (k : κ) : List (κ × α) → Option α
  | [] => none
  | (k', a) :: rest => if k' = k then some a else find k rest

/-- The list with `k` mapped to `a`: in its old place, or else at the end. -/
def place (k : κ) (a : α) : List (κ × α) → List (κ × α)
  | [] => [(k, a)]
  | (k', b) :: rest => if k' = k then (k', a) :: rest else (k', b) :: place k a rest

theorem fst_place (k : κ) (a : α) (es : List (κ × α)) :
    (place k a es).map Prod.fst
      = if k ∈ es.map Prod.fst then es.map Prod.fst else es.map Prod.fst ++ [k] := by
  induction es with
  | nil => simp [place]
  | cons e rest ih =>
    obtain ⟨k', b⟩ := e
    by_cases h : k' = k
    · simp [place, h]
    · have h' : ¬ k = k' := fun e => h e.symm
      simp only [place, if_neg h, List.map_cons, ih, List.mem_cons, h', false_or]
      split <;> simp

theorem nodup_place {k : κ} {a : α} {es : List (κ × α)} (h : (es.map Prod.fst).Nodup) :
    ((place k a es).map Prod.fst).Nodup := by
  rw [fst_place]
  split
  · exact h
  · rename_i hk
    rw [List.nodup_append]
    refine ⟨h, by simp, ?_⟩
    intro x hx y hy
    rw [List.mem_singleton] at hy
    subst hy
    exact fun e => hk (e ▸ hx)

/-- The value of a key. -/
def get? (m : OrderedMap κ α) (k : κ) : Option α := find k m.entries

/-- Whether the key is there. -/
def contains (m : OrderedMap κ α) (k : κ) : Bool := (m.get? k).isSome

/-- Maps `k` to `a`; a new key comes last. -/
def insert (m : OrderedMap κ α) (k : κ) (a : α) : OrderedMap κ α :=
  ⟨place k a m.entries, nodup_place m.nodup_keys⟩

/-- Takes a key out; the others keep their order. -/
def erase (m : OrderedMap κ α) (k : κ) : OrderedMap κ α :=
  ⟨m.entries.filter (fun e => e.1 ≠ k), by
    have := m.nodup_keys
    exact List.Nodup.sublist (List.Sublist.map _ List.filter_sublist) this⟩

/-- Inserts entry after entry. -/
def ofList (es : List (κ × α)) : OrderedMap κ α :=
  es.foldl (fun m e => m.insert e.1 e.2) empty

@[simp] theorem get?_empty (k : κ) : (empty : OrderedMap κ α).get? k = none := rfl

theorem keys_insert (m : OrderedMap κ α) (k : κ) (a : α) :
    (m.insert k a).keys = if k ∈ m.keys then m.keys else m.keys ++ [k] :=
  fst_place k a m.entries

theorem find_place (k : κ) (a : α) (k' : κ) (es : List (κ × α)) :
    find k' (place k a es) = if k = k' then some a else find k' es := by
  induction es with
  | nil => simp [place, find]
  | cons e rest ih =>
    obtain ⟨k'', b⟩ := e
    by_cases h : k'' = k
    · by_cases h' : k = k' <;> simp [place, find, h, h']
    · by_cases h' : k'' = k'
      · subst h'
        have : ¬ k = k'' := fun e => h e.symm
        simp [place, find, h, this]
      · simp only [place, if_neg h, find, if_neg h', ih]

theorem get?_insert (m : OrderedMap κ α) (k : κ) (a : α) (k' : κ) :
    (m.insert k a).get? k' = if k = k' then some a else m.get? k' :=
  find_place k a k' m.entries

theorem find_eq_none_iff {k : κ} {es : List (κ × α)} :
    find k es = none ↔ k ∉ es.map Prod.fst := by
  induction es with
  | nil => simp [find]
  | cons e rest ih =>
    obtain ⟨k', b⟩ := e
    by_cases h : k' = k
    · simp [find, h]
    · have h' : ¬ k = k' := fun e => h e.symm
      simp [find, h, h', ih]

theorem get?_eq_none_iff {m : OrderedMap κ α} {k : κ} : m.get? k = none ↔ k ∉ m.keys :=
  find_eq_none_iff

theorem mem_of_find {k : κ} {a : α} {es : List (κ × α)} (h : find k es = some a) :
    (k, a) ∈ es := by
  induction es with
  | nil => simp [find] at h
  | cons e rest ih =>
    obtain ⟨k', b⟩ := e
    by_cases hk : k' = k
    · simp only [find, if_pos hk, Option.some.injEq] at h
      simp [hk, h]
    · simp only [find, if_neg hk] at h
      exact List.mem_cons_of_mem _ (ih h)

theorem mem_of_get? {m : OrderedMap κ α} {k : κ} {a : α} (h : m.get? k = some a) :
    (k, a) ∈ m.entries :=
  mem_of_find h

theorem find_of_mem {k : κ} {a : α} {es : List (κ × α)} (hn : (es.map Prod.fst).Nodup)
    (h : (k, a) ∈ es) : find k es = some a := by
  induction es with
  | nil => simp at h
  | cons e rest ih =>
    obtain ⟨k', b⟩ := e
    rw [List.map_cons, List.nodup_cons] at hn
    rcases List.mem_cons.1 h with h | h
    · cases h
      simp [find]
    · have : ¬ k' = k := by
        rintro rfl
        exact hn.1 (List.mem_map.2 ⟨_, h, rfl⟩)
      simp only [find, if_neg this]
      exact ih hn.2 h

theorem get?_eq_some_iff {m : OrderedMap κ α} {k : κ} {a : α} :
    m.get? k = some a ↔ (k, a) ∈ m.entries :=
  ⟨mem_of_get?, find_of_mem m.nodup_keys⟩

theorem keys_erase (m : OrderedMap κ α) (k : κ) :
    (m.erase k).keys = m.keys.filter (· ≠ k) := by
  simp only [keys, erase]
  induction m.entries with
  | nil => rfl
  | cons e rest ih =>
    by_cases h : e.1 = k <;> simp_all

theorem get?_erase (m : OrderedMap κ α) (k k' : κ) :
    (m.erase k).get? k' = if k = k' then none else m.get? k' := by
  simp only [get?, erase]
  induction m.entries with
  | nil => simp [find]
  | cons e rest ih =>
    obtain ⟨k'', b⟩ := e
    by_cases h : k'' = k
    · by_cases h' : k = k' <;> simp_all [find]
    · by_cases h' : k'' = k'
      · have : ¬ k = k' := fun e => h (h'.trans e.symm)
        simp_all [find]
      · simp_all [find]

theorem place_of_not_mem {k : κ} {a : α} {es : List (κ × α)} (h : k ∉ es.map Prod.fst) :
    place k a es = es ++ [(k, a)] := by
  induction es with
  | nil => rfl
  | cons e rest ih =>
    obtain ⟨k', b⟩ := e
    simp only [List.map_cons, List.mem_cons, not_or] at h
    have hk : ¬ k' = k := fun e => h.1 e.symm
    simp [place, hk, ih h.2]

theorem entries_foldl_insert (es : List (κ × α)) (m : OrderedMap κ α)
    (h : (m.entries.map Prod.fst ++ es.map Prod.fst).Nodup) :
    (es.foldl (fun m e => m.insert e.1 e.2) m).entries = m.entries ++ es := by
  induction es generalizing m with
  | nil => simp
  | cons e rest ih =>
    -- a key that is new is appended
    have hk : e.1 ∉ m.entries.map Prod.fst := by
      intro hm
      rw [List.nodup_append] at h
      exact h.2.2 _ hm e.1 (by simp) rfl
    have he : (m.insert e.1 e.2).entries = m.entries ++ [e] := place_of_not_mem hk
    rw [List.foldl_cons, ih]
    · rw [he]
      simp
    · rw [he]
      simpa using h

/-- A list without equal keys is taken over as it stands. -/
theorem entries_ofList {es : List (κ × α)} (h : (es.map Prod.fst).Nodup) :
    (ofList es).entries = es := by
  have := entries_foldl_insert es (empty : OrderedMap κ α) (by simpa using h)
  simpa [ofList] using this

theorem ofList_entries (m : OrderedMap κ α) : ofList m.entries = m :=
  ext_entries (entries_ofList m.nodup_keys)

end OrderedMap

end TypeCatalog
