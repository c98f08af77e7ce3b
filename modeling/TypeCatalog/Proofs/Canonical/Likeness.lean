/-
Types that share a representative are alike, and like types mostly share one.

Two types are alike (`Program.Alike`) when they are built in the same way from
parts that have, one by one, the same representatives.  A structural type is
always like its representative, also when types contain themselves, so that no
two types are merged that are not alike (`Program.alike_canonical`).

The converse has an exception.  While a type is open, its parts are resolved with
it standing for itself, and so its own handle gets into their keys; it may still
come to stand for another handle then.  Three tuples of the first two of them are
alike, and the third is not merged with the others
(`Program.not_canonical_eq_of_alike`).  A type is anchored if this does not
happen to it: each of its parts that has it inside stands for itself.  Anchored
types that are alike share a representative (`Program.canonical_eq_of_alike`).
-/
import TypeCatalog.Program
import TypeCatalog.Proofs.Canonical.Search

namespace TypeCatalog

open Canonical

/-- Whether a type is equal only to itself: it is neither primitive nor built from parts. -/
def TypeData.isNominal : TypeData → Bool
  | .literal _ => true
  | .object _ _ => true
  | .function _ _ => true
  | .classExpression _ _ => true
  | .typeParameter _ _ => true
  | .unmodelled _ => true
  | _ => false

theorem TypeData.composition?_of_isNominal {data : TypeData} (hn : data.isNominal = true) :
    data.composition? = none := by
  cases data with
  | reference | union | intersection | tuple => cases hn
  | _ => rfl

namespace Program

variable {p : Program} {a b h q k r : TypeHandle} {c : Composition} {parts ks : List TypeHandle}
  {data data' : TypeData}

/-- Two handles have the same representative. -/
def SameRepresentative (p : Program) (a b : TypeHandle) : Prop := p.canonical a = p.canonical b

/-- Two types are built in the same way, from parts that have the same representatives. -/
inductive Alike (p : Program) : TypeData → TypeData → Prop where
  | reference {target target' : TypeHandle} {typeArguments typeArguments' : List TypeHandle} :
      p.SameRepresentative target target' →
      List.Forall₂ p.SameRepresentative typeArguments typeArguments' →
      Alike p (.reference target typeArguments) (.reference target' typeArguments')
  | union {types types' : List TypeHandle} : List.Forall₂ p.SameRepresentative types types' →
      Alike p (.union types) (.union types')
  | intersection {types types' : List TypeHandle} :
      List.Forall₂ p.SameRepresentative types types' →
      Alike p (.intersection types) (.intersection types')
  | tuple {elements elements' : List TypeHandle} :
      List.Forall₂ p.SameRepresentative elements elements' →
      Alike p (.tuple elements) (.tuple elements')

theorem alike_iff : p.Alike data data' ↔ ∃ c parts parts',
    data.composition? = some (c, parts) ∧ data'.composition? = some (c, parts') ∧
      List.Forall₂ p.SameRepresentative parts parts' := by
  constructor
  · rintro (⟨htarget, harguments⟩ | hparts | hparts | hparts)
    · exact ⟨_, _, _, rfl, rfl, .cons htarget harguments⟩
    · exact ⟨_, _, _, rfl, rfl, hparts⟩
    · exact ⟨_, _, _, rfl, rfl, hparts⟩
    · exact ⟨_, _, _, rfl, rfl, hparts⟩
  · rintro ⟨c, parts, parts', hd, hd', hparts⟩
    cases data <;> cases hd <;> cases data' <;> cases hd'
    · obtain ⟨htarget, harguments⟩ := List.forall₂_cons.mp hparts
      exact .reference htarget harguments
    · exact .union hparts
    · exact .intersection hparts
    · exact .tuple hparts

/-! ### What a representative is -/

theorem build?_arena (hd : p.type? h = some data) : build? p.arena h = data.composition? := by
  rw [build?, show p.arena[h.index]? = some data from hd]
  rfl

theorem standing_of_length_le (hle : p.arena.length ≤ h.index) : standing p.arena h = h := by
  rw [standing, List.getElem?_eq_none hle]

theorem length_representatives (p : Program) : p.representatives.length = p.arena.length := by
  rw [p.representatives_eq, Canonical.representatives, List.length_map, List.length_range]
  rfl

/-- A handle beyond the arena stands for itself. -/
theorem canonical_of_length_le (hle : p.arena.length ≤ h.index) : p.canonical h = h := by
  rw [canonical, List.getElem?_eq_none (p.length_representatives ▸ hle), Option.getD_none]

theorem canonical_of_settled (hr : (resolveAll p.arena).settled.get? h = some r) :
    p.canonical h = r := by
  rcases Nat.lt_or_ge h.index p.arena.length with hlt | hle
  · rw [canonical, p.representatives_eq]
    show ((Canonical.representatives p.arena)[h.index]?).getD h = r
    rw [Canonical.representatives, List.getElem?_map, List.getElem?_range hlt, Option.map_some,
      Option.getD_some, hr, Option.getD_some]
  · -- beyond the arena nothing is built, and what is settled stands for itself
    rw [canonical_of_length_le hle]
    cases (sound_resolveAll p.arena).stands hr with
    | plain => exact (standing_of_length_le hle).symm
    | built hb => exact absurd (lt_length_of_build? hb) (Nat.not_lt.mpr hle)

/-- What stands in the key of `h` for a part: its representative, or, if `h` is
inside the part, perhaps the part itself. -/
def ReadsAs (p : Program) (h q k : TypeHandle) : Prop :=
  k = p.canonical q ∨ (k = q ∧ Inside p.arena h q)

/-- A type without parts stands for what it always stands for; a structural type
for the first handle of a key that is read off its parts. -/
theorem canonical_cases (p : Program) (h : TypeHandle) :
    (build? p.arena h = none ∧ p.canonical h = standing p.arena h) ∨
    ∃ c parts ks, build? p.arena h = some (c, parts) ∧ List.Forall₂ (p.ReadsAs h) parts ks ∧
      (resolveAll p.arena).interned.get? (c, ks) = some (p.canonical h) := by
  rcases Nat.lt_or_ge h.index p.arena.length with hlt | hle
  · obtain ⟨r, hr⟩ := exists_settled_resolveAll hlt
    rw [canonical_of_settled hr]
    cases (sound_resolveAll p.arena).stands hr with
    | plain hb => exact .inl ⟨hb, rfl⟩
    | @built c parts ks _ hb hi hreads =>
      refine .inr ⟨c, parts, ks, hb, hreads.imp fun q k hqk => ?_, hi⟩
      exact hqk.imp_left fun hq => (canonical_of_settled hq).symm
  · refine .inl ⟨?_, (canonical_of_length_le hle).trans (standing_of_length_le hle).symm⟩
    rw [build?, List.getElem?_eq_none hle]
    rfl

/-- The first handle of a key stands for itself, and the key is read off its parts. -/
theorem canonical_of_interned
    (hi : (resolveAll p.arena).interned.get? (c, ks) = some r) :
    p.canonical r = r ∧
      ∃ parts, build? p.arena r = some (c, parts) ∧ List.Forall₂ (p.ReadsAs r) parts ks := by
  obtain ⟨hself, parts, hb, hreads⟩ := (sound_resolveAll p.arena).first hi
  refine ⟨canonical_of_settled hself, parts, hb, hreads.imp fun q k hqk => ?_⟩
  exact hqk.imp_left fun hq => (canonical_of_settled hq).symm

theorem type?_handle (p : Program) (k : Intrinsic) : p.type? k.handle = some (.intrinsic k) := by
  cases k <;> rfl

theorem build?_handle (p : Program) (k : Intrinsic) : build? p.arena k.handle = none := by
  rw [build?_arena (type?_handle p k)]
  rfl

theorem standing_of_intrinsic {k : Intrinsic} (hk : p.type? h = some (.intrinsic k)) :
    standing p.arena h = k.handle := by
  rw [standing, show p.arena[h.index]? = _ from hk]

theorem standing_of_isNominal (hd : p.type? h = some data) (hn : data.isNominal = true) :
    standing p.arena h = h := by
  rw [standing, show p.arena[h.index]? = _ from hd]
  cases data with
  | intrinsic => cases hn
  | _ => rfl

theorem standing_cases (p : Program) (h : TypeHandle) :
    (∃ k, p.type? h = some (.intrinsic k) ∧ standing p.arena h = k.handle) ∨
    (∀ k, p.type? h ≠ some (.intrinsic k)) ∧ standing p.arena h = h := by
  by_cases hk : ∃ k, p.type? h = some (.intrinsic k)
  · obtain ⟨k, hk⟩ := hk
    exact .inl ⟨k, hk, standing_of_intrinsic hk⟩
  · refine .inr ⟨fun k hk' => hk ⟨k, hk'⟩, ?_⟩
    rw [standing]
    split
    · rename_i k hk'
      exact absurd ⟨k, hk'⟩ hk
    · rfl

theorem build?_of_isNominal (hd : p.type? h = some data) (hn : data.isNominal = true) :
    build? p.arena h = none := by
  rw [build?_arena hd, TypeData.composition?_of_isNominal hn]

theorem canonical_of_build?_eq_none (hb : build? p.arena h = none) :
    p.canonical h = standing p.arena h := by
  obtain ⟨-, hr⟩ | ⟨c, parts, ks, hb', -⟩ := canonical_cases p h
  · exact hr
  · rw [hb] at hb'
    cases hb'

theorem canonical_handle (p : Program) (k : Intrinsic) : p.canonical k.handle = k.handle := by
  rw [canonical_of_build?_eq_none (build?_handle p k), standing_of_intrinsic (type?_handle p k)]

/-- A representative stands for itself. -/
theorem canonical_canonical (p : Program) (h : TypeHandle) :
    p.canonical (p.canonical h) = p.canonical h := by
  obtain ⟨-, hr⟩ | ⟨c, parts, ks, -, -, hi⟩ := canonical_cases p h
  · obtain ⟨k, -, hk⟩ | ⟨-, hself⟩ := standing_cases p h
    · rw [hr, hk, canonical_handle]
    · have hfixed : p.canonical h = h := hr.trans hself
      rw [hfixed, hfixed]
  · exact (canonical_of_interned hi).1

/-- However a part is read, it has the same representative. -/
theorem ReadsAs.canonical_eq (hr : p.ReadsAs h q k) : p.canonical k = p.canonical q := by
  obtain rfl | ⟨rfl, -⟩ := hr
  · exact canonical_canonical p q
  · rfl

theorem forall₂_canonical_eq {parts' : List TypeHandle}
    (hr : List.Forall₂ (p.ReadsAs a) parts ks) (hr' : List.Forall₂ (p.ReadsAs b) parts' ks) :
    List.Forall₂ p.SameRepresentative parts parts' := by
  induction hr generalizing parts' with
  | nil =>
    cases hr'
    exact .nil
  | cons hq _ ih =>
    cases hr' with
    | cons hq' hr' => exact .cons (hq.canonical_eq.symm.trans hq'.canonical_eq) (ih hr')

/-- A structural type is built like its representative. -/
theorem build?_canonical (hb : build? p.arena h = some (c, parts)) :
    ∃ parts', build? p.arena (p.canonical h) = some (c, parts') ∧
      List.Forall₂ p.SameRepresentative parts parts' := by
  obtain ⟨hnone, -⟩ | ⟨c', parts', ks, hb', hreads, hi⟩ := canonical_cases p h
  · rw [hb] at hnone
    cases hnone
  · rw [hb] at hb'
    cases hb'
    obtain ⟨-, parts', hb', hreads'⟩ := canonical_of_interned hi
    exact ⟨parts', hb', forall₂_canonical_eq hreads hreads'⟩

/-- A representative stands for itself and is like what it stands for: a primitive
type stands for the handle kept for it, a nominal type for itself, and a
structural type for one that is built in the same way from like parts. -/
theorem alike_canonical (p : Program) (h : TypeHandle) :
    p.canonical (p.canonical h) = p.canonical h ∧
    (∀ k, p.type? h = some (.intrinsic k) → p.canonical h = k.handle) ∧
    (∀ data, p.type? h = some data → data.isNominal = true → p.canonical h = h) ∧
    ∀ data, p.type? h = some data → data.composition?.isSome = true →
      ∃ data', p.type? (p.canonical h) = some data' ∧ p.Alike data data' := by
  refine ⟨canonical_canonical p h, ?_, ?_, ?_⟩
  · intro k hk
    have hb : build? p.arena h = none := by
      rw [build?_arena hk]
      rfl
    rw [canonical_of_build?_eq_none hb, standing_of_intrinsic hk]
  · intro data hd hn
    have hb : build? p.arena h = none := build?_of_isNominal hd hn
    rw [canonical_of_build?_eq_none hb, standing_of_isNominal hd hn]
  · intro data hd hc
    obtain ⟨⟨c, parts⟩, hc⟩ := Option.isSome_iff_exists.mp hc
    obtain ⟨parts', hb', hparts⟩ := build?_canonical ((build?_arena hd).trans hc)
    obtain ⟨data', hd', hc'⟩ := Option.bind_eq_some_iff.mp hb'
    exact ⟨data', hd', alike_iff.mpr ⟨c, parts, parts', hc, hc', hparts⟩⟩

/-- Four types that contain themselves: the first two come to stand for the last,
which is finished before them. -/
def knot : Program where
  types := [.tuple [⟨11⟩, ⟨12⟩], .tuple [⟨13⟩, ⟨12⟩], .union [⟨10⟩], .tuple [⟨13⟩, ⟨12⟩]]
  declarations := []
  files := []
  representatives := _
  no_problem := by decide
  representatives_eq := rfl

/-- The outermost tuple is like the innermost, by parts with equal representatives. -/
theorem alike_canonical_knot :
    knot.canonical ⟨10⟩ = ⟨13⟩ ∧ knot.canonical ⟨13⟩ = ⟨13⟩ ∧
      knot.Alike (.tuple [⟨11⟩, ⟨12⟩]) (.tuple [⟨13⟩, ⟨12⟩]) := by
  have hr : knot.canonical ⟨10⟩ = ⟨13⟩ := by decide +kernel
  obtain ⟨hself, -, -, halike⟩ := alike_canonical knot ⟨10⟩
  obtain ⟨data', hd', hl⟩ := halike (.tuple [⟨11⟩, ⟨12⟩]) rfl rfl
  rw [hr] at hself hd'
  cases hd'
  exact ⟨hr, hself, hl⟩

/-! ### Like types share a representative -/

/-- Each part of a type that has the type inside stands for itself. -/
def Anchored (p : Program) (h : TypeHandle) : Prop :=
  ∀ q, PartOf p.arena q h → Inside p.arena h q → p.canonical q = q

theorem forall₂_sameRepresentative_iff {parts' : List TypeHandle} :
    List.Forall₂ p.SameRepresentative parts parts' ↔
      parts.map p.canonical = parts'.map p.canonical := by
  rw [← List.forall₂_eq_eq_eq, List.forall₂_map_left_iff, List.forall₂_map_right_iff]
  rfl

/-- The key of an anchored type consists of the representatives of its parts. -/
theorem Anchored.interned (ha : p.Anchored h) (hb : build? p.arena h = some (c, parts)) :
    (resolveAll p.arena).interned.get? (c, parts.map p.canonical) = some (p.canonical h) := by
  obtain ⟨hnone, -⟩ | ⟨c', parts', ks, hb', hreads, hi⟩ := canonical_cases p h
  · rw [hb] at hnone
    cases hnone
  · rw [hb] at hb'
    cases hb'
    -- a part that is read as itself has `h` inside it, and so stands for itself
    have hread : ∀ q ∈ parts, ∀ k, p.ReadsAs h q k → p.canonical q = k := by
      rintro q hq k (rfl | ⟨rfl, hinside⟩)
      · rfl
      · exact ha k (partOf_of_mem hb hq) hinside
    have hkey : List.Forall₂ (fun q k => p.canonical q = k) parts ks :=
      ((List.forall₂_and_left _ _).mpr ⟨hread, hreads⟩).imp fun q k hqk => hqk.1 k hqk.2
    rw [← List.forall₂_map_left_iff (R := Eq), List.forall₂_eq_eq_eq] at hkey
    rwa [hkey]

/-- Anchored types that are built alike share a representative. -/
theorem Anchored.canonical_eq {parts' : List TypeHandle} (ha : p.Anchored a) (hb : p.Anchored b)
    (hba : build? p.arena a = some (c, parts)) (hbb : build? p.arena b = some (c, parts'))
    (hparts : parts.map p.canonical = parts'.map p.canonical) :
    p.canonical a = p.canonical b := by
  have hi := ha.interned hba
  rw [hparts, hb.interned hbb] at hi
  exact (Option.some.inj hi).symm

/-- Anchored types that are alike share a representative. -/
theorem canonical_eq_of_alike (p : Program) (a b : TypeHandle) (data data' : TypeData)
    (hd : p.type? a = some data) (hd' : p.type? b = some data') (hl : p.Alike data data')
    (ha : p.Anchored a) (hb : p.Anchored b) : p.canonical a = p.canonical b := by
  obtain ⟨c, parts, parts', hc, hc', hparts⟩ := alike_iff.mp hl
  exact ha.canonical_eq hb ((build?_arena hd).trans hc) ((build?_arena hd').trans hc')
    (forall₂_sameRepresentative_iff.mp hparts)

/-- A union in which a tuple of it stands, and the same tuple once more. -/
def looped : Program where
  types := [.union [⟨1⟩, ⟨11⟩], .tuple [⟨10⟩], .tuple [⟨10⟩]]
  declarations := []
  files := []
  representatives := _
  no_problem := by decide
  representatives_eq := rfl

/-- Both tuples share a representative, though one of them is inside its own part. -/
theorem canonical_eq_of_alike_looped :
    Inside looped.arena ⟨11⟩ ⟨10⟩ ∧ looped.canonical ⟨11⟩ = looped.canonical ⟨12⟩ := by
  have hanchored : ∀ h, h = ⟨11⟩ ∨ h = ⟨12⟩ → looped.Anchored h := by
    rintro h (rfl | rfl) q ⟨c, parts, hb, hq⟩ -
    all_goals
      cases hb
      cases List.mem_singleton.mp hq
      decide +kernel
  refine ⟨.single ⟨.union, [⟨1⟩, ⟨11⟩], rfl, by simp⟩, ?_⟩
  exact canonical_eq_of_alike looped ⟨11⟩ ⟨12⟩ _ _ rfl rfl (.tuple (.cons rfl .nil))
    (hanchored _ (.inl rfl)) (hanchored _ (.inr rfl))

/-- Three tuples of the first two of them. -/
def mirrors : Program where
  types := [.tuple [⟨10⟩, ⟨11⟩], .tuple [⟨10⟩, ⟨11⟩], .tuple [⟨10⟩, ⟨11⟩]]
  declarations := []
  files := []
  representatives := _
  no_problem := by decide
  representatives_eq := rfl

/-- Like types do not always share a representative: the first of three equal tuples
comes to stand for the second, but the second is known by the parts it was read
with before that, and so the third is not found to be like it. -/
theorem not_canonical_eq_of_alike :
    ¬ ∀ (p : Program) (a b : TypeHandle) (data data' : TypeData), p.type? a = some data →
      p.type? b = some data' → p.Alike data data' → p.canonical a = p.canonical b := by
  intro h
  have heq := h mirrors ⟨10⟩ ⟨12⟩ _ _ rfl rfl (.tuple (.cons rfl (.cons rfl .nil)))
  revert heq
  decide +kernel

end Program

end TypeCatalog
