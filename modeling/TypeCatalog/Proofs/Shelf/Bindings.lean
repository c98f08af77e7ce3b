/-
What a shelf knows of bindings is one relation.

A relation of constructors and class slots is kept in two places, in the map of
the shelf and in the maps of its libraries.  `Shelf.Represents` says that both
are this one relation, and that the bound slots hold classes.

A change that fails leaves the shelf as it was (`on_load`, `on_registerIn`).
Binding a constructor takes away the pairs with the same constructor and those
with the same class (`Represents.bind`), loading a library those with one of its
classes (`Represents.load`); each changes both places.
-/
import Mathlib.Data.Set.Basic
import TypeCatalog.Proofs.Library.Records
import TypeCatalog.Proofs.OrderedMap
import TypeCatalog.Shelf

namespace TypeCatalog

/-- A constructor, with the library and the slot of its class. -/
abbrev Binding := Constructor × String × SlotId

namespace Binding

variable {R : Set Binding} {c : Constructor} {place : String × SlotId} {library : String}

/-- A constructor has at most one class, and a class at most one constructor. -/
structure IsOneToOne (R : Set Binding) : Prop where
  place_unique : ∀ {c place place'}, (c, place) ∈ R → (c, place') ∈ R → place = place'
  constructor_unique : ∀ {c c' place}, (c, place) ∈ R → (c', place) ∈ R → c = c'

/-- Puts a pair in the place of those with its constructor and of those with its class. -/
def bind (R : Set Binding) (c : Constructor) (place : String × SlotId) : Set Binding :=
  {b | b = (c, place) ∨ b ∈ R ∧ b.1 ≠ c ∧ b.2 ≠ place}

theorem mem_bind_iff {c' : Constructor} {place' : String × SlotId} :
    (c', place') ∈ bind R c place ↔
      (c' = c ∧ place' = place) ∨ (c', place') ∈ R ∧ c' ≠ c ∧ place' ≠ place :=
  or_congr_left Prod.ext_iff

/-- Takes away the pairs with a class of the library. -/
def clear (R : Set Binding) (library : String) : Set Binding := {b | b ∈ R ∧ b.2.1 ≠ library}

theorem mem_clear_iff :
    (c, place) ∈ clear R library ↔ (c, place) ∈ R ∧ place.1 ≠ library :=
  Iff.rfl

end Binding

namespace Shelf

variable {s : Shelf} {R : Set Binding} {c c' : Constructor} {library name : String}
  {slot : SlotId} {place previous : String × SlotId} {n : TypeNode} {f : Library → Library}

/-- The record of a slot in a loaded library. -/
def record? (s : Shelf) (library : String) (slot : SlotId) : Option TypeNode :=
  s.libraries.get? library >>= fun l => l.node? slot

/-! ### Changes -/

namespace Change

variable {ε α β : Type}

@[simp] theorem on_pure (a : α) (s : Shelf) : (pure a : Change ε α).on s = (.ok a, s) := rfl

@[simp] theorem on_get (s : Shelf) : (get : Change ε Shelf).on s = (.ok s, s) := rfl

@[simp] theorem on_modify (f : Shelf → Shelf) (s : Shelf) :
    (modify f : Change ε PUnit).on s = (.ok (), f s) := rfl

@[simp] theorem on_lift (x : Except ε α) (s : Shelf) : (liftM x : Change ε α).on s = (x, s) := rfl

/-- The second change is made of the shelf after the first, unless the first fails. -/
theorem on_bind (x : Change ε α) (f : α → Change ε β) (s : Shelf) :
    (x >>= f).on s = match x.on s with
      | (.ok a, s') => (f a).on s'
      | (.error e, s') => (.error e, s') := by
  rw [on, ExceptT.run_bind, StateT.run_bind, ← on]
  rcases x.on s with ⟨_ | _, _⟩ <;> rfl

end Change

/-! ### What the small steps of a binding do -/

theorem get?_modifyLibrary (s : Shelf) (name : String) (f : Library → Library)
    (library : String) :
    (s.modifyLibrary name f).libraries.get? library =
      if name = library then (s.libraries.get? library).map f else s.libraries.get? library := by
  rw [modifyLibrary]
  split
  · rename_i l hl
    rw [OrderedMap.get?_insert]
    split
    · rename_i hname
      rw [← hname, hl, Option.map_some]
    · rfl
  · rename_i hnone
    split
    · rename_i hname
      rw [← hname, hnone, Option.map_none]
    · rfl

@[simp] theorem bindings_modifyLibrary (s : Shelf) (name : String) (f : Library → Library) :
    (s.modifyLibrary name f).bindings = s.bindings := by
  rw [modifyLibrary]
  split <;> rfl

/-- A change of a library that leaves its records alone leaves all records alone. -/
theorem record?_modifyLibrary (hf : ∀ l slot, (f l).node? slot = l.node? slot) (name : String)
    (library : String) (slot : SlotId) :
    (s.modifyLibrary name f).record? library slot = s.record? library slot := by
  rw [record?, record?, get?_modifyLibrary]
  split
  · cases s.libraries.get? library with
    | none => rfl
    | some l => exact hf l slot
  · rfl

theorem owner?_unbind (s : Shelf) (previous place : String × SlotId) :
    (s.modifyLibrary previous.1 (·.unbind previous.2)).owner? place.1 place.2 =
      if previous = place then none else s.owner? place.1 place.2 := by
  obtain ⟨library, slot⟩ := previous
  obtain ⟨library', slot'⟩ := place
  rw [owner?, owner?, get?_modifyLibrary]
  by_cases hl : library = library'
  · subst hl
    cases hg : s.libraries.get? library with
    | none => simp
    | some l =>
      simp [Library.unbind, Library.constructorOf?, OrderedMap.get?_erase]
  · simp [hl]

theorem owner?_bindClass {l : Library} (hl : s.libraries.get? library = some l) (slot : SlotId)
    (c : Constructor) (place : String × SlotId) :
    (s.modifyLibrary library (·.bind slot c)).owner? place.1 place.2 =
      if (library, slot) = place then some c else s.owner? place.1 place.2 := by
  obtain ⟨library', slot'⟩ := place
  rw [owner?, owner?, get?_modifyLibrary]
  by_cases hlibrary : library = library'
  · subst hlibrary
    simp [hl, Library.bind, Library.constructorOf?, OrderedMap.get?_insert]
  · simp [hlibrary]

@[simp] theorem bindings_vacate (s : Shelf) (previous : Option (String × SlotId)) :
    (s.vacate previous).bindings = s.bindings := by
  cases previous with
  | none => rfl
  | some place => exact bindings_modifyLibrary s _ _

theorem record?_vacate (s : Shelf) (previous : Option (String × SlotId)) (library : String)
    (slot : SlotId) : (s.vacate previous).record? library slot = s.record? library slot := by
  cases previous with
  | none => rfl
  | some place => exact record?_modifyLibrary (f := (·.unbind place.2)) (fun _ _ => rfl) _ _ _

theorem owner?_vacate (s : Shelf) (previous : Option (String × SlotId))
    (place : String × SlotId) :
    (s.vacate previous).owner? place.1 place.2 =
      if previous = some place then none else s.owner? place.1 place.2 := by
  cases previous with
  | none => rfl
  | some previous =>
    rw [vacate, owner?_unbind]
    simp only [Option.some.injEq]

theorem libraries_forget (s : Shelf) (displaced : Option Constructor) :
    (s.forget displaced).libraries = s.libraries := by
  cases displaced <;> rfl

theorem get?_forget (s : Shelf) (displaced : Option Constructor) (c : Constructor) :
    (s.forget displaced).bindings.get? c =
      if displaced = some c then none else s.bindings.get? c := by
  cases displaced with
  | none => rfl
  | some other =>
    rw [forget, OrderedMap.get?_erase]
    simp only [Option.some.injEq]

theorem exists_library_of_record? (hn : s.record? library slot = some n) :
    ∃ l, s.libraries.get? library = some l ∧ l.node? slot = some n :=
  Option.bind_eq_some_iff.mp hn

theorem get?_of_library {l : Library} (hl : s.library library = .ok l) :
    s.libraries.get? library = some l := by
  rw [Shelf.library] at hl
  split at hl
  · cases hl
    assumption
  · cases hl

/-! ### What a binding does -/

theorem owner?_bind (hn : s.record? library slot = some n) (c : Constructor)
    (place : String × SlotId) :
    (s.bind c library slot).owner? place.1 place.2 =
      if (library, slot) = place then some c
      else if s.bindings.get? c = some place then none else s.owner? place.1 place.2 := by
  have hvacated : ({ s with bindings := s.bindings.insert c (library, slot) }.vacate
      (s.bindings.get? c)).record? library slot = some n :=
    (record?_vacate _ _ _ _).trans hn
  obtain ⟨l, hl, -⟩ := exists_library_of_record? hvacated
  rw [bind, owner?, libraries_forget]
  refine (owner?_bindClass hl slot c place).trans ?_
  rw [owner?_vacate]
  rfl

theorem record?_bind (s : Shelf) (c : Constructor) (library name : String) (slot slot' : SlotId) :
    (s.bind c library slot).record? name slot' = s.record? name slot' := by
  rw [bind, record?, libraries_forget]
  refine (record?_modifyLibrary (f := (·.bind slot c)) (fun _ _ => rfl) _ _ _).trans ?_
  exact record?_vacate _ _ _ _

theorem get?_bind (s : Shelf) (c c' : Constructor) (library : String) (slot : SlotId) :
    (s.bind c library slot).bindings.get? c' =
      if (if s.bindings.get? c = some (library, slot) then none else s.owner? library slot) =
          some c' then none
      else if c = c' then some (library, slot) else s.bindings.get? c' := by
  rw [bind, get?_forget, bindings_modifyLibrary, bindings_vacate, OrderedMap.get?_insert]
  rw [show (vacate _ _).owner? library slot = _ from owner?_vacate _ _ (library, slot)]
  rfl

/-! ### One relation in two places -/

/-- Both the map of the shelf and those of the libraries are the relation, and all
bound slots are slots of classes. -/
structure Represents (s : Shelf) (R : Set Binding) : Prop where
  slot_eq : ∀ {library slot n}, s.record? library slot = some n → n.slot = slot
  bindings : ∀ {c place}, s.bindings.get? c = some place ↔ (c, place) ∈ R
  owners : ∀ {c place}, s.owner? place.1 place.2 = some c ↔ (c, place) ∈ R
  classes : ∀ {c place}, (c, place) ∈ R →
    ∃ n, s.record? place.1 place.2 = some n ∧ n.kind.isClass = true

theorem Represents.isOneToOne (hs : s.Represents R) : Binding.IsOneToOne R where
  place_unique h h' := Option.some.inj ((hs.bindings.mpr h).symm.trans (hs.bindings.mpr h'))
  constructor_unique h h' := Option.some.inj ((hs.owners.mpr h).symm.trans (hs.owners.mpr h'))

theorem represents_empty : empty.Represents ∅ where
  slot_eq := nofun
  bindings := ⟨nofun, nofun⟩
  owners := ⟨nofun, nofun⟩
  classes := nofun

/-- The constructor that loses its class is the old owner, unless it is bound anew. -/
theorem Represents.displaced_iff (hs : s.Represents R) :
    (if s.bindings.get? c = some place then none else s.owner? place.1 place.2) = some c' ↔
      (c', place) ∈ R ∧ c' ≠ c := by
  rw [← hs.owners]
  split
  · rename_i hprevious
    constructor
    · intro hnone
      cases hnone
    · rintro ⟨howner, hne⟩
      refine absurd ?_ hne
      exact hs.isOneToOne.constructor_unique (hs.owners.mp howner) (hs.bindings.mp hprevious)
  · rename_i hprevious
    refine ⟨fun howner => ⟨howner, ?_⟩, And.left⟩
    rintro rfl
    exact hprevious (hs.bindings.mpr (hs.owners.mp howner))

/-- A registration of a class that is not found changes nothing. -/
theorem on_registerIn (s : Shelf) (c : Constructor) (library qualified : String) :
    (∃ e, s.classOf library qualified = .error e ∧
      (Change.registerIn c library qualified).on s = (.error e, s)) ∨
    ∃ view, s.classOf library qualified = .ok view ∧
      (Change.registerIn c library qualified).on s =
        (.ok (), s.bind c library view.node.slot) := by
  rw [Change.registerIn]
  simp only [Change.on_bind, Change.on_get, Change.on_lift]
  cases s.classOf library qualified with
  | error e => exact .inl ⟨e, rfl, rfl⟩
  | ok view => exact .inr ⟨view, rfl, rfl⟩

/-- Binding a constructor to a class replaces the pairs with either. -/
theorem Represents.bind (hs : s.Represents R) (hn : s.record? library slot = some n)
    (hclass : n.kind.isClass = true) (c : Constructor) :
    (s.bind c library slot).Represents (Binding.bind R c (library, slot)) where
  slot_eq hr := by
    rw [record?_bind] at hr
    exact hs.slot_eq hr
  bindings {c' place} := by
    rw [get?_bind, Binding.mem_bind_iff]
    by_cases hdisplaced : (c', (library, slot)) ∈ R ∧ c' ≠ c
    · -- the old owner has lost its only class
      rw [if_pos (hs.displaced_iff.mpr hdisplaced)]
      constructor
      · intro hnone
        cases hnone
      · rintro (⟨rfl, -⟩ | ⟨hb, -, hplace⟩)
        · exact absurd rfl hdisplaced.2
        · exact absurd (hs.isOneToOne.place_unique hb hdisplaced.1) hplace
    · rw [if_neg (mt hs.displaced_iff.mp hdisplaced)]
      by_cases hc : c = c'
      · subst hc
        simp [eq_comm]
      · rw [if_neg hc, hs.bindings]
        refine ⟨fun hb => .inr ⟨hb, Ne.symm hc, ?_⟩, ?_⟩
        · rintro rfl
          exact hdisplaced ⟨hb, Ne.symm hc⟩
        · rintro (⟨rfl, -⟩ | ⟨hb, -, -⟩)
          · exact absurd rfl hc
          · exact hb
  owners {c' place} := by
    rw [owner?_bind hn, Binding.mem_bind_iff]
    by_cases hplace : (library, slot) = place
    · subst hplace
      simp [eq_comm]
    · rw [if_neg hplace]
      by_cases hprevious : s.bindings.get? c = some place
      · -- the class has lost its only owner
        rw [if_pos hprevious]
        constructor
        · intro hnone
          cases hnone
        · rintro (⟨-, rfl⟩ | ⟨hb, hc, -⟩)
          · exact absurd rfl hplace
          · exact absurd (hs.isOneToOne.constructor_unique hb (hs.bindings.mp hprevious)) hc
      · rw [if_neg hprevious, hs.owners]
        refine ⟨fun hb => .inr ⟨hb, ?_, Ne.symm hplace⟩, ?_⟩
        · rintro rfl
          exact hprevious (hs.bindings.mpr hb)
        · rintro (⟨-, rfl⟩ | ⟨hb, -, -⟩)
          · exact absurd rfl hplace
          · exact hb
  classes {c' place} hb := by
    rw [record?_bind]
    obtain ⟨rfl, rfl⟩ | ⟨hb, -, -⟩ := Binding.mem_bind_iff.mp hb
    · exact ⟨n, hn, hclass⟩
    · exact hs.classes hb

/-! ### What loading does -/

theorem get?_bindingsElsewhere (s : Shelf) (library : String) :
    (s.bindingsElsewhere library).get? c = some place ↔
      s.bindings.get? c = some place ∧ place.1 ≠ library := by
  rw [OrderedMap.get?_eq_some_iff, OrderedMap.get?_eq_some_iff, bindingsElsewhere,
    List.mem_filter, decide_eq_true_eq]

/-- A table that is not taken in changes nothing.  Otherwise the new library takes the
place of the one of its name, and the bindings to the classes of that one are gone. -/
theorem on_load (s : Shelf) (t : MetadataTable) :
    (∃ e, Library.load t = .error e ∧ (Change.load t).on s = (.error e, s)) ∨
    ∃ l, Library.load t = .ok l ∧ (Change.load t).on s = (.ok l, ⟨s.libraries.insert l.name l,
      if s.libraries.contains l.name then s.bindingsElsewhere l.name else s.bindings⟩) := by
  rw [Change.load]
  simp only [Change.on_bind, Change.on_lift]
  cases Library.load t with
  | error e => exact .inl ⟨e, rfl, rfl⟩
  | ok l =>
    refine .inr ⟨l, rfl, ?_⟩
    simp only [Change.on_get]
    split <;> simp only [Change.on_bind, Change.on_modify, Change.on_pure]

theorem owner?_insert (s : Shelf) {l : Library} (hl : l.constructors = .empty)
    (bindings : OrderedMap Constructor (String × SlotId)) (library : String) (slot : SlotId) :
    (Shelf.mk (s.libraries.insert l.name l) bindings).owner? library slot =
      if l.name = library then none else s.owner? library slot := by
  rw [owner?, owner?, OrderedMap.get?_insert]
  split
  · show l.constructors.get? slot = none
    rw [hl]
    rfl
  · rfl

theorem record?_insert (s : Shelf) (l : Library)
    (bindings : OrderedMap Constructor (String × SlotId)) (library : String) (slot : SlotId) :
    (Shelf.mk (s.libraries.insert l.name l) bindings).record? library slot =
      if l.name = library then l.node? slot else s.record? library slot := by
  rw [record?, record?, OrderedMap.get?_insert]
  split <;> rfl

/-- A class with an owner is in a loaded library. -/
theorem Represents.contains (hs : s.Represents R) (hb : (c, place) ∈ R) :
    s.libraries.contains place.1 = true := by
  obtain ⟨n, hn, -⟩ := hs.classes hb
  obtain ⟨l, hl, -⟩ := exists_library_of_record? hn
  rw [OrderedMap.contains, hl]
  rfl

/-- Loading a library takes away the pairs with one of its classes. -/
theorem Represents.load {t : MetadataTable} {l : Library} {s' : Shelf} (hs : s.Represents R)
    (hload : (Change.load t).on s = (.ok l, s')) : s'.Represents (Binding.clear R t.library) := by
  obtain ⟨e, -, he⟩ | ⟨l', hl, hok⟩ := on_load s t
  · rw [hload] at he
    cases he
  rw [hload] at hok
  cases hok
  rw [← Library.name_of_load hl]
  refine ⟨?_, ?_, ?_, ?_⟩
  · intro library slot n hn
    rw [record?_insert] at hn
    split at hn
    · exact Library.slot_of_node?_of_load hl hn
    · exact hs.slot_eq hn
  · intro c place
    rw [Binding.mem_clear_iff, ← hs.bindings]
    show (if _ then _ else _ : OrderedMap Constructor (String × SlotId)).get? c = _ ↔ _
    split
    · exact get?_bindingsElsewhere s l.name
    · rename_i hnew
      refine ⟨fun hb => ⟨hb, fun hname => hnew ?_⟩, And.left⟩
      exact hname ▸ hs.contains (hs.bindings.mp hb)
  · intro c place
    rw [owner?_insert s (Library.constructors_of_load hl), Binding.mem_clear_iff, ← hs.owners]
    split
    · rename_i hname
      constructor
      · intro hnone
        cases hnone
      · intro hb
        exact absurd hname.symm hb.2
    · rename_i hname
      exact ⟨fun hb => ⟨hb, Ne.symm hname⟩, And.left⟩
  · intro c place hb
    rw [Binding.mem_clear_iff] at hb
    rw [record?_insert, if_neg (Ne.symm hb.2)]
    exact hs.classes hb.1

/-! ### What is found -/

/-- A class that is found is the record of its slot. -/
theorem Represents.record?_of_classOf {view : TypeView} {qualified : String}
    (hs : s.Represents R) (hv : s.classOf library qualified = .ok view) :
    s.record? library view.node.slot = some view.node ∧ view.node.kind.isClass = true := by
  obtain ⟨⟨package, name⟩, -, hclassIn⟩ := exists_of_bind_eq_ok hv
  obtain ⟨l, hl, hview⟩ := exists_of_bind_eq_ok hclassIn
  obtain ⟨n, hn, heq⟩ := exists_of_bind_eq_ok hview
  cases heq
  obtain ⟨⟨slot, hslot⟩, hclass⟩ := Library.node?_of_classForName hn
  have hrecord : s.record? library slot = some n := by
    rw [record?, get?_of_library hl]
    exact hslot
  rw [hs.slot_eq hrecord]
  exact ⟨hrecord, hclass⟩

/-- A constructor that is not bound is not found; for one that is bound, the class
is found that it is bound to, and has this constructor. -/
theorem Represents.classForConstructor_cases (hs : s.Represents R) (c : Constructor) :
    ((∀ place, (c, place) ∉ R) ∧
      s.classForConstructor c = .error (.constructorNotRegistered c.typeName)) ∨
    ∃ place view, (c, place) ∈ R ∧ s.classForConstructor c = .ok view ∧
      s.libraries.get? place.1 = some view.library ∧
      view.library.typeAt? place.2 = some view ∧ view.node.slot = place.2 ∧
      view.node.kind.isClass = true ∧ view.constructor? = some c := by
  rw [classForConstructor]
  cases hb : s.bindings.get? c with
  | none =>
    refine .inl ⟨fun place hmem => ?_, rfl⟩
    rw [hs.bindings.mpr hmem] at hb
    cases hb
  | some place =>
    have hmem := hs.bindings.mp hb
    obtain ⟨n, hn, hclass⟩ := hs.classes hmem
    obtain ⟨l, hl, hnode⟩ := exists_library_of_record? hn
    have hview : l.typeAt? place.2 = some ⟨l, n⟩ := by rw [Library.typeAt?, hnode]; rfl
    have hlibrary : s.library place.1 = .ok l := by rw [Shelf.library, hl]
    refine .inr ⟨place, ⟨l, n⟩, hmem, ?_, hl, hview, hs.slot_eq hn, hclass, ?_⟩
    · simp only [hlibrary, Bind.bind, Except.bind, hview]
      rfl
    · have howner := hs.owners.mpr hmem
      rw [owner?, hl] at howner
      rw [TypeView.constructor?, hs.slot_eq hn]
      exact howner

end Shelf

end TypeCatalog
