/-
Decoders of values that were written.

`Json.Decoder.Reads` says that a decoder gives a result for a value, however the
value is met; each way to build a decoder has its lemma.  A description of fields
reads a list of fields one after the other and skips what it does not know
(`Json.Fields.Takes`), so two descriptions with different names may read one list
each for itself (`Json.Fields.Takes.andThen`), and every field finds what the list
has under its name.  Where no name stands twice, that is all a record needs
(`Json.Fields.reads_record`).  A tag that comes first is read, and the fields behind it
are left to be read as a record (`Json.readTagNamed_cons`).
-/
import TypeCatalog.Proofs.Json.Printed

namespace TypeCatalog

namespace Json

open Draft

/-! ### Values have no faults -/

namespace Draft

/-- Neither reading a draft nor skipping it meets a fault. -/
structure IsFaultless (d : Draft) : Prop where
  read : d.readFault? = none
  skip : d.skipFault? = none

mutual

theorem isFaultless_ofJson : ∀ v : Json, (ofJson v).IsFaultless
  | .null => ⟨by rw [ofJson, readFault?], by rw [ofJson, skipFault?]⟩
  | .bool _ => ⟨by rw [ofJson, readFault?], by rw [ofJson, skipFault?]⟩
  | .integer _ => ⟨by rw [ofJson, readFault?], by rw [ofJson, skipFault?]⟩
  | .real _ => ⟨by rw [ofJson, readFault?], by rw [ofJson, skipFault?]⟩
  | .string _ => ⟨by rw [ofJson, readFault?], by rw [ofJson, skipFault?]⟩
  | .array items => by
    obtain ⟨hread, hskip⟩ := faultItems_ofItems items
    rw [ofJson]
    refine ⟨?_, ?_⟩
    · rw [readFault?, hread]
      rfl
    · rw [skipFault?, hskip]
      rfl
  | .object fields => by
    obtain ⟨hread, hskip⟩ := faultFields_ofFields fields
    rw [ofJson]
    refine ⟨?_, ?_⟩
    · rw [readFault?, hread]
      rfl
    · rw [skipFault?, hskip]
      rfl

theorem faultItems_ofItems : ∀ items : List Json,
    readFaultItems (ofItems items) = none ∧ skipFaultItems (ofItems items) = none
  | [] => ⟨by rw [ofItems, readFaultItems], by rw [ofItems, skipFaultItems]⟩
  | item :: rest => by
    have hitem := isFaultless_ofJson item
    obtain ⟨hread, hskip⟩ := faultItems_ofItems rest
    rw [ofItems, readFaultItems, skipFaultItems, hitem.read, hitem.skip, hread, hskip]
    exact ⟨rfl, rfl⟩

theorem faultFields_ofFields : ∀ fields : List (String × Json),
    readFaultFields (ofFields fields) = none ∧ skipFaultFields (ofFields fields) = none
  | [] => ⟨by rw [ofFields, readFaultFields], by rw [ofFields, skipFaultFields]⟩
  | (name, value) :: rest => by
    have hvalue := isFaultless_ofJson value
    obtain ⟨hread, hskip⟩ := faultFields_ofFields rest
    rw [ofFields, readFaultFields, skipFaultFields, hvalue.read, hvalue.skip, hread, hskip]
    exact ⟨rfl, rfl⟩

end

theorem hold_ofJson (v : Json) : (ofJson v).hold = .ok () := by
  rw [hold, (isFaultless_ofJson v).read]
  rfl

end Draft

/-! ### Decoders -/

namespace Decoder

variable {α β : Type} {decoder : Decoder α} {v : Json} {a : α}

/-- A decoder gives a result for a value, however the value is met. -/
def Reads (decoder : Decoder α) (v : Json) (a : α) : Prop :=
  ∀ source, decoder source (ofJson v) = .ok a

theorem reads_text (s : String) : text.Reads (.string s) s := by
  intro source
  rw [ofJson]
  rfl

theorem reads_flag (b : Bool) : flag.Reads (.bool b) b := by
  intro source
  rw [ofJson]
  rfl

theorem reads_natural32 {n : Nat} (h : n < Nat.pow 2 32) : natural32.Reads (.nat n) n := by
  intro source
  rw [Json.nat, ofJson]
  exact if_pos ⟨Int.natCast_nonneg n, h⟩

theorem Reads.map (h : decoder.Reads v a) (f : α → β) : (decoder.map f).Reads v (f a) := by
  intro source
  rw [Decoder.map, h source]
  rfl

theorem Reads.optional (h : decoder.Reads v a) (hv : v ≠ .null) :
    decoder.optional.Reads v (some a) := by
  intro source
  have hd := h source
  unfold Decoder.optional
  split
  · rename_i heq
    cases v with
    | null => exact absurd rfl hv
    | _ =>
      rw [ofJson] at heq
      cases heq
  · rw [hd]
    rfl

theorem reads_ofOption {f : α → Json} {o : Option α}
    (h : ∀ a ∈ o, decoder.Reads (f a) a ∧ f a ≠ .null) :
    decoder.optional.Reads (.ofOption f o) o := by
  cases o with
  | none =>
    intro source
    rw [Json.ofOption, ofJson]
    rfl
  | some a =>
    obtain ⟨ha, hne⟩ := h a rfl
    exact ha.optional hne

theorem mapM_ofItems {f : α → Json} {as : List α} (h : ∀ a ∈ as, decoder.Reads (f a) a)
    (source : Source) : (ofItems (as.map f)).mapM (decoder source) = .ok as := by
  induction as with
  | nil =>
    rw [List.map_nil, ofItems]
    rfl
  | cons a rest ih =>
    rw [List.map_cons, ofItems, List.mapM_cons, h a List.mem_cons_self source,
      ih fun b hb => h b (List.mem_cons_of_mem a hb)]
    rfl

theorem reads_list {f : α → Json} {as : List α} (h : ∀ a ∈ as, decoder.Reads (f a) a) :
    (list decoder).Reads (.ofList f as) as := by
  intro source
  rw [Json.ofList, ofJson, list, mapM_ofItems h]
  rfl

theorem entries_ofFields {f : α → Json} {es : List (String × α)}
    (h : ∀ e ∈ es, decoder.Reads (f e.2) e.2) (source : Source) :
    entries decoder source (ofFields (es.map fun e => (e.1, f e.2))) = .ok es := by
  induction es with
  | nil =>
    rw [List.map_nil, ofFields, entries]
  | cons e rest ih =>
    rw [List.map_cons, ofFields, entries, h e List.mem_cons_self source,
      ih fun b hb => h b (List.mem_cons_of_mem e hb)]
    rfl

theorem reads_dictionary {f : α → Json} {m : OrderedMap String α}
    (h : ∀ a ∈ m.values, decoder.Reads (f a) a) :
    (dictionary decoder).Reads (.object (m.entries.map fun e => (e.1, f e.2))) m := by
  intro source
  have hentries : entries decoder source (ofFields (m.entries.map fun e => (e.1, f e.2)))
      = .ok m.entries :=
    entries_ofFields (fun e he => h e.2 (List.mem_map_of_mem he)) source
  rw [ofJson, dictionary, hentries]
  exact congrArg Except.ok (OrderedMap.ofList_entries m)

theorem reads_oneOf {choices : List (String × α)} {name : String}
    (h : choose choices name = .ok a) : (oneOf choices).Reads (.string name) a := by
  intro source
  rw [ofJson, oneOf, h]

end Decoder

/-! ### Fields -/

namespace Fields

variable {α β : Type} {fs : List (String × Json)} {source : Source}

/-- Reads the known fields of a list one after the other, skipping all others. -/
inductive Takes (d : Fields α) (source : Source) :
    d.State → List (String × Json) → d.State → Prop where
  | nil {s} : Takes d source s [] s
  | known {s s' s'' name v fs} (hn : name ∈ d.names)
    (hv : d.take source name (ofJson v) s = .ok s') (h : Takes d source s' fs s'') :
    Takes d source s ((name, v) :: fs) s''
  | unknown {s s' name v fs} (hn : name ∉ d.names) (h : Takes d source s fs s') :
    Takes d source s ((name, v) :: fs) s'

theorem Takes.map {d : Fields α} {s s'} (h : d.Takes source s fs s') (f : α → β) :
    (Fields.map f d).Takes source s fs s' := by
  induction h with
  | nil => exact .nil
  | known hn hv _ ih => exact .known hn hv ih
  | unknown hn _ ih => exact .unknown hn ih

/-- Descriptions with different names read a list each for itself. -/
theorem Takes.andThen {first : Fields (α → β)} {second : Fields α}
    (hd : ∀ name ∈ first.names, name ∉ second.names) {s s' r r'}
    (h : first.Takes source s fs s') (h' : second.Takes source r fs r') :
    (first.andThen second).Takes source (s, r) fs (s', r') := by
  induction h generalizing r with
  | nil =>
    cases h'
    exact .nil
  | known hn hv h ih =>
    cases h' with
    | known hn' _ _ => exact absurd hn' (hd _ hn)
    | unknown _ h' =>
      refine .known (List.mem_append_left _ hn) ?_ (ih h')
      refine (if_pos hn).trans ?_
      rw [hv]
      rfl
  | unknown hn h ih =>
    cases h' with
    | known hn' hv' h' =>
      refine .known (List.mem_append_right _ hn') ?_ (ih h')
      refine (if_neg hn).trans ?_
      rw [hv']
      rfl
    | unknown hn' h' =>
      refine .unknown (fun hmem => ?_) (ih h')
      rcases List.mem_append.mp hmem with hmem | hmem
      · exact hn hmem
      · exact hn' hmem

theorem takes_of_notMem {d : Fields α} (s) (h : ∀ f ∈ fs, f.1 ∉ d.names) :
    d.Takes source s fs s := by
  induction fs with
  | nil => exact .nil
  | cons f rest ih =>
    exact .unknown (h f List.mem_cons_self) (ih fun g hg => h g (List.mem_cons_of_mem f hg))

/-- Where no name stands twice, none is met again. -/
theorem Takes.takeNamed {d : Fields α} {s s'} (h : d.Takes source s fs s')
    (hn : (fs.map Prod.fst).Nodup) {seen : List String} (hseen : ∀ f ∈ fs, f.1 ∉ seen) :
    d.takeNamed false source seen s (ofFields fs) = .ok s' := by
  induction h generalizing seen with
  | nil => rw [ofFields, Fields.takeNamed]
  | @known s s' s'' name v fs hname hv h ih =>
    rw [List.map_cons, List.nodup_cons] at hn
    have hrest : ∀ f ∈ fs, f.1 ∉ name :: seen := by
      intro f hf hmem
      rcases List.mem_cons.mp hmem with he | hmem
      · exact hn.1 (List.mem_map.mpr ⟨f, hf, he⟩)
      · exact hseen f (List.mem_cons_of_mem _ hf) hmem
    rw [ofFields, Fields.takeNamed, if_pos hname, if_neg (hseen _ List.mem_cons_self), hv]
    exact ih hn.2 hrest
  | @unknown s s' name v fs hname h ih =>
    rw [List.map_cons, List.nodup_cons] at hn
    rw [ofFields, Fields.takeNamed, if_neg hname, if_neg (by decide),
      (isFaultless_ofJson v).skip]
    exact ih hn.2 fun f hf => hseen f (List.mem_cons_of_mem _ hf)

/-- A description reads a record from a list of fields. -/
def Reads (d : Fields α) (fs : List (String × Json)) (a : α) : Prop :=
  ∀ source, ∃ s, d.Takes source d.start fs s ∧ d.finish s = .ok a

theorem Reads.map {d : Fields α} {a : α} (h : d.Reads fs a) (f : α → β) :
    (f <$> d).Reads fs (f a) := by
  intro source
  obtain ⟨s, hs, ha⟩ := h source
  refine ⟨s, hs.map f, ?_⟩
  show (d.finish s).map f = _
  rw [ha]
  rfl

theorem Reads.seq {first : Fields (α → β)} {second : Fields α} {f : α → β} {a : α}
    (h : first.Reads fs f) (hd : ∀ name ∈ first.names, name ∉ second.names)
    (h' : second.Reads fs a) : (first <*> second).Reads fs (f a) := by
  intro source
  obtain ⟨s, hs, hf⟩ := h source
  obtain ⟨r, hr, ha⟩ := h' source
  refine ⟨(s, r), hs.andThen hd hr, ?_⟩
  show (do let f ← first.finish s; let a ← second.finish r; return f a) = _
  rw [hf, ha]
  rfl

theorem Reads.readNamed {d : Fields α} {a : α} (h : d.Reads fs a) (hn : (fs.map Prod.fst).Nodup)
    (source : Source) : d.readNamed false source (ofFields fs) none = .ok a := by
  obtain ⟨s, hs, ha⟩ := h source
  rw [Fields.readNamed, hs.takeNamed hn fun _ _ => List.not_mem_nil]
  exact ha

/-- A record is read from an object in which no name stands twice. -/
theorem reads_record {d : Fields α} {a : α} (hn : (fs.map Prod.fst).Nodup)
    (h : (fs.map Prod.fst).Nodup → d.Reads fs a) : d.decode.Reads (.object fs) a := by
  intro source
  rw [ofJson]
  exact (h hn).readNamed hn source

/-! ### Single fields -/

variable {name : String} {decoder : Decoder α} {a : α} {absent : Option α} {v : Json}

theorem takes_field (hn : (fs.map Prod.fst).Nodup) (hv : fs.lookup name = some v)
    (h : decoder.Reads v a) (source : Source) (s : Option α) :
    (field name decoder absent).Takes source s fs (some a) := by
  induction fs with
  | nil => cases hv
  | cons f rest ih =>
    rw [List.map_cons, List.nodup_cons] at hn
    by_cases hf : f.1 = name
    · subst hf
      rw [List.lookup_cons_self] at hv
      cases hv
      have htake : (field f.1 decoder absent).take source f.1 (ofJson f.2) s = .ok (some a) := by
        show (decoder source (ofJson f.2)).map some = _
        rw [h source]
        rfl
      refine .known (List.mem_singleton.mpr rfl) htake ?_
      -- the name does not come again
      have hagain : ∀ g ∈ rest, g.1 ∉ (field f.1 decoder absent).names := fun g hg hmem =>
        hn.1 (List.mem_map.mpr ⟨g, hg, List.mem_singleton.mp hmem⟩)
      exact takes_of_notMem (some a) hagain
    · have hrest : rest.lookup name = some v := by
        rw [List.lookup_cons, beq_false_of_ne (Ne.symm hf)] at hv
        exact hv
      exact .unknown (fun hmem => hf (List.mem_singleton.mp hmem)) (ih hn.2 hrest)

theorem reads_field (hn : (fs.map Prod.fst).Nodup) (hv : fs.lookup name = some v)
    (h : decoder.Reads v a) : (field name decoder absent).Reads fs a :=
  fun source => ⟨some a, takes_field hn hv h source none, rfl⟩

theorem reads_absent (hv : fs.lookup name = none) : (defaulted name decoder a).Reads fs a := by
  intro source
  refine ⟨none, takes_of_notMem (d := defaulted name decoder a) none fun f hf hmem => ?_, rfl⟩
  have hne := List.lookup_eq_none_iff.mp hv f hf
  rw [List.mem_singleton.mp hmem] at hne
  simp at hne

/-- A list that was left out if it was empty. -/
theorem reads_many {f : α → Json} {as : List α} (hn : (fs.map Prod.fst).Nodup)
    (hv : fs.lookup name = (Field.whenAny name f as).lookup name)
    (h : ∀ a ∈ as, decoder.Reads (f a) a) : (many name decoder).Reads fs as := by
  cases as with
  | nil => exact reads_absent hv
  | cons a rest => exact reads_field hn (hv.trans List.lookup_cons_self) (Decoder.reads_list h)

/-- A value that was left out if it was absent. -/
theorem reads_maybe {f : α → Json} {o : Option α} (hn : (fs.map Prod.fst).Nodup)
    (hv : fs.lookup name = (Field.whenSome name f o).lookup name)
    (h : ∀ a ∈ o, decoder.Reads (f a) a ∧ f a ≠ .null) : (maybe name decoder).Reads fs o := by
  cases o with
  | none => exact reads_absent hv
  | some a =>
    obtain ⟨ha, hne⟩ := h a rfl
    exact reads_field hn (hv.trans List.lookup_cons_self) (ha.optional hne)

/-- A value that is written as `null` if it is absent. -/
theorem reads_nullable {f : α → Json} {o : Option α} (hn : (fs.map Prod.fst).Nodup)
    (hv : fs.lookup name = some (.ofOption f o))
    (h : ∀ a ∈ o, decoder.Reads (f a) a ∧ f a ≠ .null) : (maybe name decoder).Reads fs o :=
  reads_field hn hv (Decoder.reads_ofOption h)

/-- A flag that was left out if it was not set. -/
theorem reads_flag {flag : Bool} (hn : (fs.map Prod.fst).Nodup)
    (hv : fs.lookup name = (Field.whenTrue name flag).lookup name) :
    (defaulted name .flag false).Reads fs flag := by
  cases flag with
  | false => exact reads_absent hv
  | true => exact reads_field hn (hv.trans List.lookup_cons_self) (Decoder.reads_flag true)

end Fields

/-! ### Tags -/

section

variable {tag name : String} {names : List String} {source : Source} {fs : List (String × Json)}

theorem readTagField_of_forall_ne (found : Option String) (h : ∀ f ∈ fs, f.1 ≠ tag) :
    readTagField tag names source found (Draft.ofFields fs) = .ok (found, Draft.ofFields fs) := by
  induction fs with
  | nil =>
    rw [Draft.ofFields, readTagField]
  | cons f rest ih =>
    rw [Draft.ofFields, readTagField, if_neg (h f List.mem_cons_self), Draft.hold_ofJson,
      ih fun g hg => h g (List.mem_cons_of_mem f hg)]
    rfl

/-- A tag that comes first is read, and all fields behind it are held. -/
theorem readTagNamed_cons (hname : name ∈ names) (h : ∀ f ∈ fs, f.1 ≠ tag) :
    readTagNamed tag names source (Draft.ofFields ((tag, .string name) :: fs)) none
      = .ok (name, .named (Draft.ofFields fs)) := by
  have htag : tagName names source (.string name) = .ok name := if_pos hname
  have hfields : readTagField tag names source none (Draft.ofFields ((tag, .string name) :: fs))
      = .ok (some name, Draft.ofFields fs) := by
    rw [Draft.ofFields, readTagField, if_pos rfl, if_neg (by decide), Draft.ofJson, htag]
    exact readTagField_of_forall_ne (some name) h
  rw [readTagNamed, hfields]
  rfl

end

end Json

/-! ### Fields that may be left out -/

namespace Field

open Json

variable {α : Type} {n : Nat} {name key : String} {v : Json} {f : α → Json} {o : Option α}
  {as : List α} {flag : Bool} {fs fs' : List (String × Json)} {names names' : List String}

@[simp] theorem lookup_always_self : (always name v).lookup name = some v :=
  List.lookup_cons_self

@[simp] theorem lookup_always_of_ne (h : key ≠ name) : (always name v).lookup key = none := by
  simp [always, h]

@[simp] theorem lookup_whenSome_of_ne (h : key ≠ name) : (whenSome name f o).lookup key = none := by
  cases o <;> simp [whenSome, h]

@[simp] theorem lookup_whenAny_of_ne (h : key ≠ name) : (whenAny name f as).lookup key = none := by
  cases as <;> simp [whenAny, h]

@[simp] theorem lookup_whenTrue_of_ne (h : key ≠ name) :
    (whenTrue name flag).lookup key = none := by
  cases flag <;> simp [whenTrue, h]

/-- Fields have some of the names, in their order. -/
def Within (names : List String) (fs : List (String × Json)) : Prop :=
  (fs.map Prod.fst).Sublist names

theorem Within.append (h : Within names fs) (h' : Within names' fs') :
    Within (names ++ names') (fs ++ fs') := by
  rw [Within, List.map_append]
  exact List.Sublist.append h h'

theorem Within.nodup (h : Within names fs) (hn : names.Nodup) : (fs.map Prod.fst).Nodup :=
  hn.sublist h

theorem Within.mem (h : Within names fs) {g : String × Json} (hg : g ∈ fs) : g.1 ∈ names :=
  List.Sublist.mem (List.mem_map_of_mem hg) h

theorem within_always : Within [name] (always name v) := List.Sublist.refl _

theorem within_whenSome : Within [name] (whenSome name f o) := by
  cases o with
  | none => exact List.nil_sublist _
  | some a => exact List.Sublist.refl _

theorem within_whenAny : Within [name] (whenAny name f as) := by
  cases as with
  | nil => exact List.nil_sublist _
  | cons a rest => exact List.Sublist.refl _

theorem within_whenTrue : Within [name] (whenTrue name flag) := by
  cases flag with
  | false => exact List.nil_sublist _
  | true => exact List.Sublist.refl _

section

variable {P : Json → Prop}

theorem forall_always (h : P v) : ∀ g ∈ always name v, P g.2 :=
  List.forall_mem_singleton.mpr h

theorem forall_whenSome (h : ∀ a ∈ o, P (f a)) : ∀ g ∈ whenSome name f o, P g.2 := by
  cases o with
  | none => exact fun _ hg => absurd hg List.not_mem_nil
  | some a => exact List.forall_mem_singleton.mpr (h a rfl)

theorem forall_whenAny (h : P (.ofList f as)) : ∀ g ∈ whenAny name f as, P g.2 := by
  cases as with
  | nil => exact fun _ hg => absurd hg List.not_mem_nil
  | cons a rest => exact List.forall_mem_singleton.mpr h

theorem forall_whenTrue (h : P (.bool true)) : ∀ g ∈ whenTrue name flag, P g.2 := by
  cases flag with
  | false => exact fun _ hg => absurd hg List.not_mem_nil
  | true => exact List.forall_mem_singleton.mpr h

end

theorem readable_always (h : IsReadable n v) : ∀ g ∈ always name v, IsReadable n g.2 :=
  forall_always h

theorem readable_whenSome (h : ∀ a ∈ o, IsReadable n (f a)) :
    ∀ g ∈ whenSome name f o, IsReadable n g.2 :=
  forall_whenSome h

theorem readable_whenAny (h : ∀ a ∈ as, IsReadable n (f a)) :
    ∀ g ∈ whenAny name f as, IsReadable (n + 1) g.2 :=
  forall_whenAny (isReadable_ofList h)

theorem readable_whenTrue : ∀ g ∈ whenTrue name flag, IsReadable n g.2 :=
  forall_whenTrue (.bool true)

end Field

end TypeCatalog
