/-
The search for representatives keeps its promises.

`build?` says how the type of a handle is built, and `Inside` that a type is met
on the way down through the parts of another.  A key is read off the parts of a
type: a part is read as its representative, or, while it is still open, as the
part itself (`Reads`); then the type is inside its own part.

`State.Sound` is what holds between two resolutions, of settled handles, of keys
and of open handles, and `State.GrowsTo` says that nothing known is lost.  One
resolution keeps both (`resolved_resolve`), by induction on the bound, which is
never used up, as open handles are distinct places of the arena.  So in the end
every handle is settled in a sound state (`sound_resolveAll`,
`exists_settled_resolveAll`).
-/
import Mathlib.Data.List.Forall2
import Mathlib.Data.List.Nodup
import Mathlib.Data.List.Perm.Subperm
import Mathlib.Logic.Relation
import TypeCatalog.Program.Canonical
import TypeCatalog.Proofs.OrderedMap

namespace TypeCatalog

namespace Canonical

open State

variable {arena : List TypeData} {s s' s'' : State} {h q k r : TypeHandle} {c : Composition}
  {parts ks : List TypeHandle} {bound : Nat}

/-! ### Types and their parts -/

/-- How the type of a handle is built, and from which parts. -/
def build? (arena : List TypeData) (h : TypeHandle) : Option (Composition × List TypeHandle) :=
  arena[h.index]? >>= TypeData.composition?

/-- What a handle whose type has no parts stands for: a primitive type for the
handle kept for it, every other type for itself. -/
def standing (arena : List TypeData) (h : TypeHandle) : TypeHandle :=
  match arena[h.index]? with
  | some (.intrinsic k) => k.handle
  | _ => h

/-- The first type is a part of the second. -/
def PartOf (arena : List TypeData) (q h : TypeHandle) : Prop :=
  ∃ c parts, build? arena h = some (c, parts) ∧ q ∈ parts

/-- The first type is a part of the second, or of a part of it, and so on. -/
def Inside (arena : List TypeData) : TypeHandle → TypeHandle → Prop :=
  Relation.TransGen (PartOf arena)

theorem partOf_of_mem (hb : build? arena h = some (c, parts)) (hq : q ∈ parts) :
    PartOf arena q h :=
  ⟨c, parts, hb, hq⟩

theorem inside_of_mem (hb : build? arena h = some (c, parts)) (hq : q ∈ parts) :
    Inside arena q h :=
  .single (partOf_of_mem hb hq)

theorem lt_length_of_build? (hb : build? arena h = some (c, parts)) :
    h.index < arena.length := by
  obtain ⟨data, hd, -⟩ := Option.bind_eq_some_iff.mp hb
  exact (List.getElem?_eq_some_iff.mp hd).choose

theorem PartOf.lt_length (hq : PartOf arena q h) : h.index < arena.length := by
  obtain ⟨c, parts, hb, -⟩ := hq
  exact lt_length_of_build? hb

/-! ### Sound states -/

namespace State

/-- All that the first state knows is known to the second. -/
structure GrowsTo (s s' : State) : Prop where
  settled : ∀ {h r}, s.settled.get? h = some r → s'.settled.get? h = some r
  interned : ∀ {key r}, s.interned.get? key = some r → s'.interned.get? key = some r

theorem GrowsTo.refl (s : State) : s.GrowsTo s := ⟨id, id⟩

theorem GrowsTo.trans (h₁ : s.GrowsTo s') (h₂ : s'.GrowsTo s'') : s.GrowsTo s'' :=
  ⟨fun hr => h₂.settled (h₁.settled hr), fun hr => h₂.interned (h₁.interned hr)⟩

/-- How the key of `h` reads a part: as its representative, or, if the part was
open, as the part itself. -/
def Reads (arena : List TypeData) (s : State) (h part k : TypeHandle) : Prop :=
  s.settled.get? part = some k ∨ (k = part ∧ Inside arena h part)

theorem Reads.mono (hg : s.GrowsTo s') (hr : s.Reads arena h q k) : s'.Reads arena h q k :=
  hr.imp_left hg.settled

theorem forall₂_reads_mono (hg : s.GrowsTo s')
    (hr : List.Forall₂ (s.Reads arena h) parts ks) :
    List.Forall₂ (s'.Reads arena h) parts ks :=
  hr.imp fun _ _ => Reads.mono hg

/-- What the representative of a settled handle is. -/
inductive Stands (arena : List TypeData) (s : State) (h : TypeHandle) : TypeHandle → Prop where
  | plain : build? arena h = none → Stands arena s h (standing arena h)
  | built {c : Composition} {parts ks : List TypeHandle} {r : TypeHandle} :
      build? arena h = some (c, parts) → s.interned.get? (c, ks) = some r →
      List.Forall₂ (s.Reads arena h) parts ks → Stands arena s h r

theorem Stands.mono (hg : s.GrowsTo s') (hr : s.Stands arena h r) : s'.Stands arena h r := by
  cases hr with
  | plain hb => exact .plain hb
  | built hb hi hr => exact .built hb (hg.interned hi) (forall₂_reads_mono hg hr)

/-- What holds between two resolutions. -/
structure Sound (arena : List TypeData) (s : State) : Prop where
  opened_nodup : s.opened.Nodup
  opened_lt : ∀ h ∈ s.opened, h.index < arena.length
  unsettled : ∀ h ∈ s.opened, s.settled.get? h = none
  stands : ∀ {h r}, s.settled.get? h = some r → s.Stands arena h r
  /-- The first handle of a key stands for itself, and the key is read off its parts. -/
  first : ∀ {c ks r}, s.interned.get? (c, ks) = some r → s.settled.get? r = some r ∧
    ∃ parts, build? arena r = some (c, parts) ∧ List.Forall₂ (s.Reads arena r) parts ks

theorem sound_initial : initial.Sound arena where
  opened_nodup := List.nodup_nil
  opened_lt := nofun
  unsettled := nofun
  stands := nofun
  first := nofun

/-- Fewer handles are open than there are types. -/
theorem Sound.length_opened_le (hs : s.Sound arena) : s.opened.length ≤ arena.length := by
  have hnodup : (s.opened.map TypeHandle.index).Nodup :=
    List.Nodup.map (fun _ _ => congrArg TypeHandle.mk) hs.opened_nodup
  have hsub : s.opened.map TypeHandle.index ⊆ List.range arena.length := by
    intro i hi
    obtain ⟨h, hh, rfl⟩ := List.mem_map.mp hi
    exact List.mem_range.mpr (hs.opened_lt h hh)
  simpa using (List.Nodup.subperm hnodup hsub).length_le

theorem growsTo_open (s : State) (opened : List TypeHandle) :
    s.GrowsTo { s with opened := opened } :=
  ⟨id, id⟩

/-- A handle of the arena is opened. -/
theorem Sound.open (hs : s.Sound arena) (hn : s.settled.get? h = none) (ho : h ∉ s.opened)
    (hlt : h.index < arena.length) : Sound arena { s with opened := h :: s.opened } where
  opened_nodup := List.nodup_cons.mpr ⟨ho, hs.opened_nodup⟩
  opened_lt := List.forall_mem_cons.mpr ⟨hlt, hs.opened_lt⟩
  unsettled := List.forall_mem_cons.mpr ⟨hn, hs.unsettled⟩
  stands hr := (hs.stands hr).mono (growsTo_open s _)
  first hr := by
    obtain ⟨hself, parts, hb, hreads⟩ := hs.first hr
    exact ⟨hself, parts, hb, forall₂_reads_mono (growsTo_open s _) hreads⟩

/-- A new handle is settled, and with it the key that it is the first of. -/
theorem Sound.settle (hs : s.Sound arena) (hn : s.settled.get? h = none)
    (hsettled : s'.settled = s.settled.insert h r) (hopened : s'.opened.Sublist s.opened)
    (hclosed : h ∉ s'.opened) (hgrows : s.GrowsTo s') (hstands : s'.Stands arena h r)
    (hnew : ∀ {c ks x}, s'.interned.get? (c, ks) = some x → s.interned.get? (c, ks) = some x ∨
      (x = h ∧ r = h ∧
        ∃ parts, build? arena h = some (c, parts) ∧ List.Forall₂ (s'.Reads arena h) parts ks)) :
    s'.Sound arena where
  opened_nodup := hs.opened_nodup.sublist hopened
  opened_lt x hx := hs.opened_lt x (hopened.subset hx)
  unsettled x hx := by
    have hne : h ≠ x := fun e => hclosed (e ▸ hx)
    rw [hsettled, OrderedMap.get?_insert, if_neg hne]
    exact hs.unsettled x (hopened.subset hx)
  stands {x y} hx := by
    rw [hsettled, OrderedMap.get?_insert] at hx
    split at hx
    · rename_i hxh
      cases hx
      exact hxh ▸ hstands
    · exact (hs.stands hx).mono hgrows
  first {c ks x} hx := by
    obtain hold | ⟨rfl, rfl, parts, hb, hreads⟩ := hnew hx
    · obtain ⟨hself, parts, hb, hreads⟩ := hs.first hold
      exact ⟨hgrows.settled hself, parts, hb, forall₂_reads_mono hgrows hreads⟩
    · refine ⟨?_, parts, hb, hreads⟩
      rw [hsettled, OrderedMap.get?_insert, if_pos rfl]

end State

/-! ### One resolution -/

/-- A handle that has no parts is settled at once. -/
theorem resolve_plain (hn : s.settled.get? h = none) (ho : h ∉ s.opened)
    (hb : build? arena h = none) :
    resolve arena (bound + 1) s h = (standing arena h,
      { s with settled := s.settled.insert h (standing arena h) }) := by
  rw [resolve, hn]
  simp only [if_neg ho]
  rw [build?] at hb
  rw [standing]
  cases hd : arena[h.index]? with
  | none => simp
  | some data =>
    rw [hd, Option.bind_eq_bind, Option.bind_some] at hb
    cases data <;> simp_all [TypeData.composition?]

/-- A structural type is settled once its parts are resolved. -/
theorem resolve_built (hn : s.settled.get? h = none) (ho : h ∉ s.opened)
    (hb : build? arena h = some (c, parts)) :
    resolve arena (bound + 1) s h =
      let read := resolveParts (resolve arena bound) { s with opened := h :: s.opened } parts
      let known := intern read.2 (c, read.1) h
      (known.1, { known.2 with
        opened := known.2.opened.erase h
        settled := known.2.settled.insert h known.1 }) := by
  obtain ⟨data, hd, hc⟩ := Option.bind_eq_some_iff.mp hb
  rw [resolve, hn]
  simp only [if_neg ho]
  rw [hd]
  cases data <;> simp_all [TypeData.composition?]

/-- What a resolution of `h` gives. -/
structure Resolved (arena : List TypeData) (s : State) (h : TypeHandle)
    (result : TypeHandle × State) : Prop where
  sound : result.2.Sound arena
  grows : s.GrowsTo result.2
  opened : result.2.opened = s.opened
  answer : result.2.settled.get? h = some result.1 ∨ (result.1 = h ∧ h ∈ s.opened)

/-- What the resolution of some parts gives. -/
structure PartsResolved (arena : List TypeData) (s : State) (parts : List TypeHandle)
    (result : List TypeHandle × State) : Prop where
  sound : result.2.Sound arena
  grows : s.GrowsTo result.2
  opened : result.2.opened = s.opened
  answers : List.Forall₂
    (fun q k => result.2.settled.get? q = some k ∨ (k = q ∧ q ∈ s.opened)) parts result.1

theorem partsResolved {f : State → TypeHandle → TypeHandle × State} {opened : List TypeHandle}
    (hf : ∀ {s q}, s.Sound arena → s.opened = opened → (∀ o ∈ opened, Inside arena q o) →
      Resolved arena s q (f s q))
    (hs : s.Sound arena) (ho : s.opened = opened)
    (hin : ∀ q ∈ parts, ∀ o ∈ opened, Inside arena q o) :
    PartsResolved arena s parts (resolveParts f s parts) := by
  induction parts generalizing s with
  | nil => exact ⟨hs, .refl s, rfl, .nil⟩
  | cons part rest ih =>
    have hfirst := hf hs ho (hin part List.mem_cons_self)
    have hrest := ih hfirst.sound (hfirst.opened.trans ho)
      fun q hq => hin q (List.mem_cons_of_mem _ hq)
    refine ⟨hrest.sound, hfirst.grows.trans hrest.grows, hrest.opened.trans hfirst.opened, ?_⟩
    refine .cons (hfirst.answer.imp_left hrest.grows.settled) ?_
    have hanswers := hrest.answers
    rwa [hfirst.opened] at hanswers

theorem State.growsTo_insert (hn : s.settled.get? h = none) :
    s.GrowsTo { s with settled := s.settled.insert h r } where
  settled {x y} hx := by
    have hne : h ≠ x := by
      rintro rfl
      rw [hn] at hx
      cases hx
    rw [OrderedMap.get?_insert, if_neg hne]
    exact hx
  interned := id

/-- A handle without parts is settled. -/
theorem resolved_plain (hs : s.Sound arena) (hn : s.settled.get? h = none) (ho : h ∉ s.opened)
    (hb : build? arena h = none) :
    Resolved arena s h (standing arena h,
      { s with settled := s.settled.insert h (standing arena h) }) where
  sound := hs.settle hn rfl (List.Sublist.refl _) ho (growsTo_insert hn) (.plain hb) .inl
  grows := growsTo_insert hn
  opened := rfl
  answer := .inl (by rw [OrderedMap.get?_insert, if_pos rfl])

theorem intern_cases (s : State) (key : Composition × List TypeHandle) (h : TypeHandle) :
    (∃ first, s.interned.get? key = some first ∧ intern s key h = (first, s)) ∨
    (s.interned.get? key = none ∧
      intern s key h = (h, { s with interned := s.interned.insert key h })) := by
  cases hk : s.interned.get? key with
  | some first => exact .inl ⟨first, rfl, by rw [intern, hk]⟩
  | none => exact .inr ⟨rfl, by rw [intern, hk]⟩

/-- A structural type is settled by the key that was read off its parts. -/
theorem resolved_built (ho : h ∉ s.opened) (hb : build? arena h = some (c, parts))
    (hin : ∀ o ∈ s.opened, Inside arena h o) {read : List TypeHandle × State}
    (hread : PartsResolved arena { s with opened := h :: s.opened } parts read) :
    let known := intern read.2 (c, read.1) h
    Resolved arena s h (known.1, { known.2 with
      opened := known.2.opened.erase h
      settled := known.2.settled.insert h known.1 }) := by
  obtain ⟨ks, t⟩ := read
  have ht : t.Sound arena := hread.sound
  have hopened : t.opened = h :: s.opened := hread.opened
  have herase : t.opened.erase h = s.opened := by rw [hopened, List.erase_cons_head]
  have hn : t.settled.get? h = none := ht.unsettled h (hopened ▸ List.mem_cons_self)
  -- an open part has `h` inside it: it is `h` itself, or was opened before
  have hreads : List.Forall₂ (t.Reads arena h) parts ks := by
    have hanswers := (List.forall₂_and_left _ _).mpr ⟨fun q hq => hq, hread.answers⟩
    refine hanswers.imp fun q k hqk => hqk.2.imp_right fun hk => ⟨hk.1, ?_⟩
    rcases List.mem_cons.mp hk.2 with rfl | hq
    · exact inside_of_mem hb hqk.1
    · exact hin q hq
  intro known
  obtain ⟨first, hfirst, hknown⟩ | ⟨hnone, hknown⟩ := intern_cases t (c, ks) h
  · have hgrows : t.GrowsTo { t with
        opened := t.opened.erase h, settled := t.settled.insert h first } :=
      (growsTo_insert hn).trans (growsTo_open _ _)
    rw [show known = _ from hknown]
    exact {
      sound := ht.settle hn rfl List.erase_sublist (herase ▸ ho) hgrows
        (.built hb hfirst (forall₂_reads_mono hgrows hreads)) .inl
      grows := (growsTo_open s _).trans (hread.grows.trans hgrows)
      opened := herase
      answer := .inl (by rw [OrderedMap.get?_insert, if_pos rfl]) }
  · -- the key is new, and `h` is the first handle of it
    have hgrows : t.GrowsTo { t with
        interned := t.interned.insert (c, ks) h
        opened := t.opened.erase h
        settled := t.settled.insert h h } :=
      ⟨(growsTo_insert hn).settled, fun {key x} hx => by
        have hne : (c, ks) ≠ key := by
          rintro rfl
          rw [hnone] at hx
          cases hx
        rw [OrderedMap.get?_insert, if_neg hne]
        exact hx⟩
    have hreads' := forall₂_reads_mono hgrows hreads
    rw [show known = _ from hknown]
    refine {
      sound := ht.settle hn rfl List.erase_sublist (herase ▸ ho) hgrows
        (.built hb (by rw [OrderedMap.get?_insert, if_pos rfl]) hreads') ?_
      grows := (growsTo_open s _).trans (hread.grows.trans hgrows)
      opened := herase
      answer := .inl (by rw [OrderedMap.get?_insert, if_pos rfl]) }
    intro c' ks' x hx
    rw [OrderedMap.get?_insert] at hx
    split at hx
    · rename_i hkey
      cases hkey
      cases hx
      exact .inr ⟨rfl, rfl, parts, hb, hreads'⟩
    · exact .inl hx

/-- A resolution keeps a state sound, if the bound is not used up and the handle is
inside all that is open. -/
theorem resolved_resolve (hs : s.Sound arena)
    (hbound : arena.length < bound + s.opened.length) (hin : ∀ o ∈ s.opened, Inside arena h o) :
    Resolved arena s h (resolve arena bound s h) := by
  induction bound generalizing s h with
  | zero =>
    -- more handles would be open than there are types
    have hle := hs.length_opened_le
    omega
  | succ bound ih =>
    cases hn : s.settled.get? h with
    | some r =>
      rw [resolve, hn]
      exact ⟨hs, .refl s, rfl, .inl hn⟩
    | none =>
      by_cases ho : h ∈ s.opened
      · rw [resolve, hn]
        simp only [if_pos ho]
        exact ⟨hs, .refl s, rfl, .inr ⟨rfl, ho⟩⟩
      · cases hb : build? arena h with
        | none =>
          rw [resolve_plain hn ho hb]
          exact resolved_plain hs hn ho hb
        | some build =>
          obtain ⟨c, parts⟩ := build
          rw [resolve_built hn ho hb]
          -- one more handle is open, and all that is open has every part inside it
          have hopen := hs.open hn ho (lt_length_of_build? hb)
          have hparts : ∀ q ∈ parts, ∀ o ∈ h :: s.opened, Inside arena q o := by
            intro q hq o hmem
            rcases List.mem_cons.mp hmem with rfl | hmem
            · exact inside_of_mem hb hq
            · exact (inside_of_mem hb hq).trans (hin o hmem)
          refine resolved_built ho hb hin (partsResolved ?_ hopen rfl hparts)
          intro t q ht hopened hq
          refine ih ht ?_ (hopened ▸ hq)
          rw [hopened, List.length_cons]
          omega

/-! ### All resolutions -/

theorem foldl_resolve (is : List Nat) (hs : s.Sound arena) (ho : s.opened = []) :
    let t := is.foldl (fun s i => (resolve arena (arena.length + 1) s ⟨i⟩).2) s
    t.Sound arena ∧ s.GrowsTo t ∧ ∀ i ∈ is, ∃ r, t.settled.get? ⟨i⟩ = some r := by
  induction is generalizing s with
  | nil => exact ⟨hs, .refl s, nofun⟩
  | cons i rest ih =>
    have hfirst : Resolved arena s ⟨i⟩ (resolve arena (arena.length + 1) s ⟨i⟩) :=
      resolved_resolve hs (by omega) (by simp [ho])
    obtain ⟨hsound, hgrows, hrest⟩ := ih hfirst.sound (hfirst.opened.trans ho)
    -- nothing is open now, so that the answer is settled
    have hanswer := hfirst.answer.resolve_right fun hopen => List.not_mem_nil (ho ▸ hopen.2)
    exact ⟨hsound, hfirst.grows.trans hgrows,
      List.forall_mem_cons.mpr ⟨⟨_, hgrows.settled hanswer⟩, hrest⟩⟩

theorem sound_resolveAll (arena : List TypeData) : (resolveAll arena).Sound arena :=
  (foldl_resolve _ sound_initial rfl).1

theorem exists_settled_resolveAll (hlt : h.index < arena.length) :
    ∃ r, (resolveAll arena).settled.get? h = some r :=
  (foldl_resolve _ sound_initial rfl).2.2 h.index (List.mem_range.mpr hlt)

end Canonical

end TypeCatalog
