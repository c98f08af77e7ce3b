/-
Which of several declarations a name stands for.

A name stands for the first class that declares it or, if no class does, for the
first interface; `Declared.winners` keeps these declarations, in the order in
which they stand.

`Declared.enter` takes in one declaration after the other: a declaration that
another one of its name stands in the way of is left out, and one that comes in
drives out what has its name.  Taking in all of them leaves the winners
(`foldl_enter`).  Declarations may be taken in by groups, each of which has
settled its own names before; the outcome is the same (`foldl_enter_foldl_enter`).
-/
import Mathlib.Data.List.Induction
import TypeCatalog.Proofs.Package.Scope

namespace TypeCatalog

namespace Declared

/-! ### Winners -/

/-- The place of the first declaration of a name and a kind. -/
def first? (ds : List Declared) (name : String) (kind : DeclarationKind) : Option Nat :=
  ds.findIdx? fun d => d.name = name ∧ d.kind = kind

/-- The place of the declaration that a name stands for: the first class, or else
the first interface. -/
def winner? (ds : List Declared) (name : String) : Option Nat :=
  (first? ds name .classKind).or (first? ds name .interfaceKind)

/-- The declarations that their names stand for, in the order in which they stand. -/
def winners (ds : List Declared) : List Declared :=
  (ds.zipIdx.filter fun e => winner? ds e.1.name = some e.2).map Prod.fst

/-- A declaration stands in the way of another one with its name: every
declaration in that of an interface, and a class in that of a class. -/
def blocks (e d : Declared) : Bool :=
  e.name = d.name ∧ (e.kind = .classKind ∨ d.kind = .interfaceKind)

/-- Whether some declaration stands in the way. -/
def isBlocked (ds : List Declared) (d : Declared) : Bool := ds.any (·.blocks d)

/-- Takes a declaration in, unless something stands in its way; what has its name goes. -/
def enter (ds : List Declared) (d : Declared) : List Declared :=
  if isBlocked ds d then ds else ds.filter (·.name ≠ d.name) ++ [d]

variable {ds ds' : List Declared} {d e x : Declared} {name : String}

theorem blocks_iff :
    e.blocks d = true ↔ e.name = d.name ∧ (e.kind = .classKind ∨ d.kind = .interfaceKind) := by
  simp [blocks]

theorem isBlocked_iff : isBlocked ds d = true ↔ ∃ e ∈ ds, e.blocks d = true := by
  simp [isBlocked]

theorem enter_of_isBlocked (h : isBlocked ds d = true) : enter ds d = ds := if_pos h

theorem enter_of_not_isBlocked (h : ¬ isBlocked ds d = true) :
    enter ds d = ds.filter (·.name ≠ d.name) ++ [d] :=
  if_neg h

/-- Where nothing has its name, a declaration comes last. -/
theorem enter_of_absent (h : ∀ e ∈ ds, e.name ≠ d.name) : enter ds d = ds ++ [d] := by
  have hfree : ¬ isBlocked ds d = true := by
    intro hb
    obtain ⟨e, he, hed⟩ := isBlocked_iff.mp hb
    exact h e he (blocks_iff.mp hed).1
  rw [enter_of_not_isBlocked hfree, List.filter_eq_self.mpr fun e he => by simpa using h e he]

/-! ### One more declaration -/

theorem first?_eq_none_iff {kind : DeclarationKind} :
    first? ds name kind = none ↔ ∀ d ∈ ds, ¬ (d.name = name ∧ d.kind = kind) := by
  simp [first?, List.findIdx?_eq_none_iff]

theorem exists_of_first? {kind : DeclarationKind} {i : Nat} (h : first? ds name kind = some i) :
    ∃ e, ds[i]? = some e ∧ e.name = name ∧ e.kind = kind := by
  obtain ⟨hi, he, -⟩ := List.findIdx?_eq_some_iff_getElem.mp h
  exact ⟨ds[i], List.getElem?_eq_getElem hi, of_decide_eq_true he⟩

theorem first?_concat (ds : List Declared) (d : Declared) (name : String)
    (kind : DeclarationKind) : first? (ds ++ [d]) name kind =
      (first? ds name kind).or
        (if d.name = name ∧ d.kind = kind then some ds.length else none) := by
  rw [first?, List.findIdx?_append, List.findIdx?_singleton]
  by_cases h : d.name = name ∧ d.kind = kind
  · simp [first?, h]
  · simp [first?, h]

/-- A name stands for a declaration of the name, and for a class if there is one. -/
theorem exists_of_winner? {i : Nat} (h : winner? ds name = some i) :
    ∃ e, ds[i]? = some e ∧ e.name = name ∧
      ((∃ d ∈ ds, d.name = name ∧ d.kind = .classKind) → e.kind = .classKind) := by
  rcases Option.or_eq_some_iff.mp h with h | ⟨hno, h⟩
  · obtain ⟨e, he, hn, hk⟩ := exists_of_first? h
    exact ⟨e, he, hn, fun _ => hk⟩
  · obtain ⟨e, he, hn, -⟩ := exists_of_first? h
    refine ⟨e, he, hn, ?_⟩
    rintro ⟨d, hd, hclass⟩
    exact absurd hclass (first?_eq_none_iff.mp hno d hd)

theorem exists_winner? (hd : d ∈ ds) : ∃ i, winner? ds d.name = some i := by
  rw [← Option.isSome_iff_exists, Option.isSome_iff_ne_none]
  intro hnone
  obtain ⟨hc, hi⟩ := Option.or_eq_none_iff.mp hnone
  cases hk : d.kind with
  | classKind => exact first?_eq_none_iff.mp hc d hd ⟨rfl, hk⟩
  | interfaceKind => exact first?_eq_none_iff.mp hi d hd ⟨rfl, hk⟩

/-- One more declaration wins nothing if something stands in its way. -/
theorem winner?_concat_of_isBlocked (hb : isBlocked ds d = true) (name : String) :
    winner? (ds ++ [d]) name = winner? ds name := by
  rw [winner?, first?_concat, first?_concat]
  by_cases hn : d.name = name
  · subst hn
    obtain ⟨e, he, hed⟩ := isBlocked_iff.mp hb
    obtain ⟨hn, hk⟩ := blocks_iff.mp hed
    cases hc : first? ds d.name .classKind with
    | some i => simp [winner?, hc]
    | none =>
      have hclass := first?_eq_none_iff.mp hc e he
      have hd : d.kind = .interfaceKind := hk.resolve_left fun h => hclass ⟨hn, h⟩
      obtain ⟨i, hi⟩ := exists_winner? he
      rw [hn, winner?, hc, Option.none_or] at hi
      simp [winner?, hc, hi, hd]
  · simp [hn, winner?]

/-- One more declaration wins its name if nothing stands in its way. -/
theorem winner?_concat_of_not_isBlocked (hb : ¬ isBlocked ds d = true) (name : String) :
    winner? (ds ++ [d]) name = if d.name = name then some ds.length else winner? ds name := by
  have hnone : ∀ kind, kind = .classKind ∨ d.kind = .interfaceKind →
      first? ds d.name kind = none := by
    intro kind hkind
    refine first?_eq_none_iff.mpr fun e he ⟨hn, hk⟩ => hb (isBlocked_iff.mpr ⟨e, he, ?_⟩)
    exact blocks_iff.mpr ⟨hn, hkind.imp_left fun h => hk.trans h⟩
  rw [winner?, first?_concat, first?_concat]
  by_cases hn : d.name = name
  · subst hn
    have hc := hnone .classKind (.inl rfl)
    cases hk : d.kind with
    | classKind => simp [hc]
    | interfaceKind => simp [hc, hnone .interfaceKind (.inr hk)]
  · simp [hn, winner?]

theorem mem_winners_iff :
    d ∈ winners ds ↔ ∃ i : Nat, ds[i]? = some d ∧ winner? ds d.name = some i := by
  simp only [winners, List.mem_map, List.mem_filter, decide_eq_true_eq, Prod.exists,
    List.mk_mem_zipIdx_iff_getElem?]
  constructor
  · rintro ⟨e, i, ⟨hi, hw⟩, rfl⟩
    exact ⟨i, hi, hw⟩
  · rintro ⟨i, hi, hw⟩
    exact ⟨d, i, ⟨hi, hw⟩, rfl⟩

theorem mem_of_mem_winners (hd : d ∈ winners ds) : d ∈ ds := by
  obtain ⟨i, hi, -⟩ := mem_winners_iff.mp hd
  exact List.mem_of_getElem? hi

/-- A name that is declared stands for something. -/
theorem exists_mem_winners (hd : d ∈ ds) : ∃ e ∈ winners ds, e.name = d.name := by
  obtain ⟨i, hw⟩ := exists_winner? hd
  obtain ⟨e, he, hn, -⟩ := exists_of_winner? hw
  exact ⟨e, mem_winners_iff.mpr ⟨i, he, hn ▸ hw⟩, hn⟩

/-- If something stands in the way, then so does what its name stands for. -/
theorem isBlocked_winners (ds : List Declared) (d : Declared) :
    isBlocked (winners ds) d = isBlocked ds d := by
  rw [Bool.eq_iff_iff, isBlocked_iff, isBlocked_iff]
  constructor
  · rintro ⟨e, he, hb⟩
    obtain ⟨i, hi, -⟩ := mem_winners_iff.mp he
    exact ⟨e, List.mem_of_getElem? hi, hb⟩
  · rintro ⟨e, he, hb⟩
    obtain ⟨hn, hk⟩ := blocks_iff.mp hb
    obtain ⟨i, hw⟩ := exists_winner? he
    obtain ⟨e', he', hn', hclass⟩ := exists_of_winner? hw
    refine ⟨e', mem_winners_iff.mpr ⟨i, he', hn' ▸ hw⟩, blocks_iff.mpr ⟨hn'.trans hn, ?_⟩⟩
    exact hk.imp_left fun hk => hclass ⟨e, he, rfl, hk⟩

/-- One more declaration is taken in among the winners. -/
theorem winners_concat (ds : List Declared) (d : Declared) :
    winners (ds ++ [d]) = enter (winners ds) d := by
  have hlast : winner? ds d.name ≠ some ds.length := by
    intro h
    obtain ⟨e, he, -⟩ := exists_of_winner? h
    exact absurd (List.getElem?_eq_some_iff.mp he).1 (Nat.lt_irrefl _)
  have hplace : ∀ e ∈ ds.zipIdx, ¬ ds.length = e.2 := by
    intro e he h
    exact absurd (h ▸ List.snd_lt_of_mem_zipIdx he) (Nat.lt_irrefl _)
  rw [winners, List.zipIdx_append, List.filter_append, List.map_append, List.zipIdx_singleton,
    Nat.zero_add, List.filter_singleton]
  by_cases hb : isBlocked ds d = true
  · rw [enter_of_isBlocked ((isBlocked_winners ds d).trans hb)]
    simp only [winner?_concat_of_isBlocked hb, hlast, decide_false]
    simp [winners]
  · -- the new one wins its name, and whoever won it before does so no more
    rw [enter_of_not_isBlocked (isBlocked_winners ds d ▸ hb), winners, List.filter_map,
      List.filter_filter]
    simp only [winner?_concat_of_not_isBlocked hb, if_pos, decide_true]
    congr 1
    refine congrArg (List.map Prod.fst) (List.filter_congr fun e he => ?_)
    by_cases hn : d.name = e.1.name
    · simp [hn, hplace e he]
    · simp [hn, Ne.symm hn]

/-- Taking in declarations one after the other leaves the winners. -/
theorem foldl_enter (ds : List Declared) : ds.foldl enter [] = winners ds := by
  induction ds using List.reverseRecOn with
  | nil => rfl
  | append_singleton ds d ih =>
    rw [List.foldl_append, ih, winners_concat]
    rfl

/-! ### Groups of declarations -/

theorem blocks_trans (h : e.blocks d = true) (h' : d.blocks x = true) : e.blocks x = true := by
  rw [blocks_iff] at *
  obtain ⟨hed, hk⟩ := h
  obtain ⟨hdx, hk'⟩ := h'
  refine ⟨hed.trans hdx, ?_⟩
  rcases hk' with hd | hx
  · refine .inl (hk.resolve_right ?_)
    rw [hd]
    exact DeclarationKind.noConfusion
  · exact .inr hx

/-- What comes in stands in the way of all that was blocked by what it drives out. -/
theorem isBlocked_enter (h : isBlocked ds x = true) (d : Declared) :
    isBlocked (enter ds d) x = true := by
  by_cases hb : isBlocked ds d = true
  · rw [enter_of_isBlocked hb]
    exact h
  · rw [enter_of_not_isBlocked hb]
    obtain ⟨e, he, hex⟩ := isBlocked_iff.mp h
    by_cases hn : e.name = d.name
    · -- the one that is driven out is an interface, and gives way to a class
      have hed : ¬ e.blocks d = true := fun h => hb (isBlocked_iff.mpr ⟨e, he, h⟩)
      rw [blocks_iff, not_and] at hed
      obtain ⟨hne, hnd⟩ := not_or.mp (hed hn)
      have hd : d.kind = .classKind := by cases hk : d.kind <;> simp_all
      refine isBlocked_iff.mpr ⟨d, List.mem_append_right _ (List.mem_singleton.mpr rfl), ?_⟩
      exact blocks_iff.mpr ⟨hn.symm.trans (blocks_iff.mp hex).1, .inl hd⟩
    · refine isBlocked_iff.mpr ⟨e, List.mem_append_left _ ?_, hex⟩
      exact List.mem_filter.mpr ⟨he, by simpa using hn⟩

/-- What was offered stands in the way, or something else does in its place. -/
theorem isBlocked_enter_of_blocks (h : d.blocks x = true) (ds : List Declared) :
    isBlocked (enter ds d) x = true := by
  by_cases hb : isBlocked ds d = true
  · rw [enter_of_isBlocked hb]
    obtain ⟨e, he, hed⟩ := isBlocked_iff.mp hb
    exact isBlocked_iff.mpr ⟨e, he, blocks_trans hed h⟩
  · rw [enter_of_not_isBlocked hb]
    exact isBlocked_iff.mpr ⟨d, List.mem_append_right _ (List.mem_singleton.mpr rfl), h⟩

theorem isBlocked_foldl_enter (ds ds' : List Declared) (h : isBlocked ds x = true ∨
    isBlocked ds' x = true) : isBlocked (ds'.foldl enter ds) x = true := by
  induction ds' generalizing ds with
  | nil => exact h.resolve_right (by simp [isBlocked])
  | cons d rest ih =>
    refine ih (enter ds d) ?_
    rcases h with h | h
    · exact .inl (isBlocked_enter h d)
    · rw [isBlocked, List.any_cons, Bool.or_eq_true] at h
      rcases h with h | h
      · exact .inl (isBlocked_enter_of_blocks h ds)
      · exact .inr h

theorem mem_of_mem_enter (h : e ∈ enter ds d) : e ∈ ds ∨ e = d := by
  unfold enter at h
  split at h
  · exact .inl h
  · rcases List.mem_append.mp h with h | h
    · exact .inl (List.mem_filter.mp h).1
    · exact .inr (List.mem_singleton.mp h)

theorem mem_of_mem_foldl_enter (h : e ∈ ds'.foldl enter ds) : e ∈ ds ∨ e ∈ ds' := by
  induction ds' generalizing ds with
  | nil => exact .inl h
  | cons d rest ih =>
    rcases ih h with h | h
    · rcases mem_of_mem_enter h with h | rfl
      · exact .inl h
      · exact .inr List.mem_cons_self
    · exact .inr (List.mem_cons_of_mem _ h)

/-- Whether something stands in the way depends on the declarations of the name. -/
theorem isBlocked_filter (ds : List Declared) (hn : d.name ≠ name) :
    isBlocked (ds.filter (·.name ≠ name)) d = isBlocked ds d := by
  rw [Bool.eq_iff_iff, isBlocked_iff, isBlocked_iff]
  constructor
  · rintro ⟨e, he, hb⟩
    exact ⟨e, (List.mem_filter.mp he).1, hb⟩
  · rintro ⟨e, he, hb⟩
    have hne : e.name ≠ name := fun h => hn ((blocks_iff.mp hb).1 ▸ h)
    exact ⟨e, List.mem_filter.mpr ⟨he, by simpa using hne⟩, hb⟩

/-- Driving out a name before or after taking something in makes no difference. -/
theorem filter_enter (ds : List Declared) (d : Declared) (name : String) :
    (enter ds d).filter (·.name ≠ name) =
      if d.name = name then ds.filter (·.name ≠ name)
      else enter (ds.filter (·.name ≠ name)) d := by
  by_cases hb : isBlocked ds d = true
  · rw [enter_of_isBlocked hb]
    split
    · rfl
    · rename_i hn
      rw [enter_of_isBlocked ((isBlocked_filter ds hn).trans hb)]
  · rw [enter_of_not_isBlocked hb, List.filter_append]
    split
    · rename_i hn
      simp [hn]
    · rename_i hn
      rw [enter_of_not_isBlocked (isBlocked_filter ds hn ▸ hb)]
      simp [hn, List.filter_filter, Bool.and_comm]

theorem filter_foldl_enter (ds ds' : List Declared) (name : String) :
    (ds'.foldl enter ds).filter (·.name ≠ name) =
      (ds'.filter (·.name ≠ name)).foldl enter (ds.filter (·.name ≠ name)) := by
  induction ds' generalizing ds with
  | nil => rfl
  | cons d rest ih =>
    rw [List.foldl_cons, ih, filter_enter]
    by_cases hn : d.name = name
    · simp [hn]
    · simp [hn]

/-- What would be driven out again does not matter where its name is settled already. -/
theorem foldl_enter_filter_of_isBlocked (hb : isBlocked ds d = true)
    (hn : ¬ isBlocked ds' d = true) :
    (ds'.filter (·.name ≠ d.name)).foldl enter ds = ds'.foldl enter ds := by
  induction ds' generalizing ds with
  | nil => rfl
  | cons e rest ih =>
    have hrest : ¬ isBlocked rest d = true := fun h => hn (by
      rw [isBlocked, List.any_cons, Bool.or_eq_true]
      exact .inr h)
    by_cases he : e.name = d.name
    · -- what settles the name is a class and stands in the way of this interface
      have hed : ¬ e.blocks d = true := fun h => hn (isBlocked_iff.mpr ⟨e, List.mem_cons_self, h⟩)
      rw [blocks_iff, not_and, not_or] at hed
      obtain ⟨a, ha, had⟩ := isBlocked_iff.mp hb
      obtain ⟨han, hak⟩ := blocks_iff.mp had
      have hclass := hak.resolve_right (hed he).2
      have hblocked : isBlocked ds e = true :=
        isBlocked_iff.mpr ⟨a, ha, blocks_iff.mpr ⟨han.trans he.symm, .inl hclass⟩⟩
      rw [List.filter_cons_of_neg (by simp [he]), List.foldl_cons, enter_of_isBlocked hblocked]
      exact ih hb hrest
    · rw [List.filter_cons_of_pos (by simp [he]), List.foldl_cons, List.foldl_cons]
      exact ih (isBlocked_enter hb e) hrest

/-- Taking in the last of a group within the group or after it makes no difference. -/
theorem foldl_enter_enter (ds ds' : List Declared) (d : Declared) :
    (enter ds' d).foldl enter ds = enter (ds'.foldl enter ds) d := by
  by_cases hb' : isBlocked ds' d = true
  · rw [enter_of_isBlocked hb', enter_of_isBlocked (isBlocked_foldl_enter ds ds' (.inr hb'))]
  rw [enter_of_not_isBlocked hb', List.foldl_append, List.foldl_cons, List.foldl_nil]
  by_cases hb : isBlocked ds d = true
  · rw [foldl_enter_filter_of_isBlocked hb hb']
  · have hfree : ∀ es : List Declared, (∀ e ∈ es, e ∈ ds') →
        ¬ isBlocked (es.foldl enter ds) d = true := by
      intro es hes h
      obtain ⟨e, he, hed⟩ := isBlocked_iff.mp h
      rcases mem_of_mem_foldl_enter he with he | he
      · exact hb (isBlocked_iff.mpr ⟨e, he, hed⟩)
      · exact hb' (isBlocked_iff.mpr ⟨e, hes e he, hed⟩)
    rw [enter_of_not_isBlocked (hfree _ fun e he => (List.mem_filter.mp he).1),
      enter_of_not_isBlocked (hfree ds' fun _ he => he), filter_foldl_enter, filter_foldl_enter,
      List.filter_filter]
    simp only [Bool.and_self]

/-- Declarations that have settled their names before are taken in as if they had not. -/
theorem foldl_enter_foldl_enter (ds ds' : List Declared) :
    (ds'.foldl enter []).foldl enter ds = ds'.foldl enter ds := by
  induction ds' using List.reverseRecOn with
  | nil => rfl
  | append_singleton ds' d ih =>
    rw [List.foldl_append, List.foldl_append, List.foldl_cons, List.foldl_nil, List.foldl_cons,
      List.foldl_nil, foldl_enter_enter, ih]

/-- Names may be changed before or after declarations are taken in. -/
theorem map_enter {f : Declared → Declared} (hkind : ∀ d, (f d).kind = d.kind)
    (hname : ∀ d e, (f d).name = (f e).name ↔ d.name = e.name) (ds : List Declared)
    (d : Declared) : (enter ds d).map f = enter (ds.map f) (f d) := by
  have hblocked : isBlocked (ds.map f) (f d) = isBlocked ds d := by
    simp only [isBlocked, List.any_map, Function.comp_def, blocks, hname, hkind]
  unfold enter
  rw [hblocked, List.filter_map]
  split
  · rfl
  · simp only [List.map_append, List.map_singleton, Function.comp_def, ne_eq, hname]

theorem map_foldl_enter {f : Declared → Declared} (hkind : ∀ d, (f d).kind = d.kind)
    (hname : ∀ d e, (f d).name = (f e).name ↔ d.name = e.name) (ds ds' : List Declared) :
    (ds'.foldl enter ds).map f = (ds'.map f).foldl enter (ds.map f) := by
  induction ds' generalizing ds with
  | nil => rfl
  | cons d rest ih =>
    rw [List.foldl_cons, ih, map_enter hkind hname]
    rfl

end Declared

end TypeCatalog
