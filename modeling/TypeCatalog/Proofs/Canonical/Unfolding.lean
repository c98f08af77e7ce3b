/-
Where no type contains itself, representatives decide structural equality.

The unfolding of a type opens references, unions, intersections and tuples all
the way down (`Program.unfolding`).  It is there for every handle of a program in
which no structural type is inside itself (`Program.Acyclic`): the arena is
finite, so that the parts of parts come to an end.  Then two handles have the
same representative if and only if they have the same unfolding
(`Program.canonical_eq_iff_unfolding_eq`), by induction on the parts: like types
share a representative, as all types are anchored, and types that share one are
alike.
-/
import Mathlib.Data.Fintype.EquivFin
import TypeCatalog.Proofs.Canonical.Likeness

namespace TypeCatalog

open Canonical

/-- A type with something in place of each of its parts. -/
inductive Opened (α : Type) where
  | intrinsic (kind : Intrinsic)
  | nominal (h : TypeHandle)
  | built (composition : Composition) (parts : List α)

namespace Opened

variable {α β : Type}

/-- Replaces every part. -/
def map (f : α → β) : Opened α → Opened β
  | intrinsic k => intrinsic k
  | nominal h => nominal h
  | built c parts => built c (parts.map f)

/-- What stands in the places of the parts. -/
def parts : Opened α → List α
  | built _ parts => parts
  | _ => []

/-- Functions that tell the parts of one type apart alike tell the types apart alike. -/
theorem map_eq_map_iff {γ : Type} {f : α → β} {g : α → γ} {o o' : Opened α}
    (hfg : ∀ q ∈ o.parts, ∀ q', f q = f q' ↔ g q = g q') :
    o.map f = o'.map f ↔ o.map g = o'.map g := by
  cases o with
  | intrinsic k => cases o' <;> simp [map]
  | nominal h => cases o' <;> simp [map]
  | built c parts =>
    cases o' with
    | intrinsic k => simp [map]
    | nominal h => simp [map]
    | built c' parts' =>
      simp only [map, built.injEq]
      refine and_congr_right fun _ => ?_
      change ∀ q ∈ parts, ∀ q', f q = f q' ↔ g q = g q' at hfg
      induction parts generalizing parts' with
      | nil => simp
      | cons q rest ih =>
        cases parts' with
        | nil => simp
        | cons q' rest' =>
          simp only [List.map_cons, List.cons.injEq]
          exact and_congr (hfg q List.mem_cons_self q')
            (ih rest' fun x hx => hfg x (List.mem_cons_of_mem _ hx))

end Opened

/-- A type that is opened all the way down. -/
inductive Unfolding where
  | of (type : Opened Unfolding)

namespace Program

variable {p : Program} {a b h q : TypeHandle} {c : Composition} {parts : List TypeHandle}

/-- No structural type contains itself through structural types. -/
def Acyclic (p : Program) : Prop := ∀ h, ¬ Inside p.arena h h

/-- A handle beyond the arena has no parts. -/
theorem acc_partOf_of_length_le (hle : p.arena.length ≤ h.index) : Acc (PartOf p.arena) h :=
  ⟨_, fun _ hq => absurd hq.lt_length (Nat.not_lt.mpr hle)⟩

/-- The parts of parts come to an end. -/
theorem Acyclic.wellFounded (hp : p.Acyclic) : WellFounded (PartOf p.arena) := by
  -- on the finitely many places of the arena, `Inside` is a strict order
  have hinside : WellFounded fun i j : Fin p.arena.length => Inside p.arena ⟨i⟩ ⟨j⟩ :=
    have : IsTrans (Fin p.arena.length) fun i j => Inside p.arena ⟨i⟩ ⟨j⟩ :=
      ⟨fun _ _ _ => Relation.TransGen.trans⟩
    have : Std.Irrefl fun i j : Fin p.arena.length => Inside p.arena ⟨i⟩ ⟨j⟩ := ⟨fun i => hp ⟨i⟩⟩
    Finite.wellFounded_of_trans_of_irrefl _
  have hacc : ∀ i : Fin p.arena.length, Acc (PartOf p.arena) ⟨i⟩ := by
    intro i
    induction i using hinside.induction with
    | _ i ih =>
      refine ⟨_, fun q hq => ?_⟩
      rcases Nat.lt_or_ge q.index p.arena.length with hlt | hle
      · exact ih ⟨q.index, hlt⟩ (.single hq)
      · exact acc_partOf_of_length_le hle
  refine ⟨fun h => ?_⟩
  rcases Nat.lt_or_ge h.index p.arena.length with hlt | hle
  · exact hacc ⟨h.index, hlt⟩
  · exact acc_partOf_of_length_le hle

/-- A handle's type, with the handles of its parts. -/
def opened (p : Program) (h : TypeHandle) : Opened TypeHandle :=
  match build? p.arena h with
  | some (c, parts) => .built c parts
  | none =>
    match p.type? h with
    | some (.intrinsic k) => .intrinsic k
    | _ => .nominal h

theorem opened_of_build? (hb : build? p.arena h = some (c, parts)) :
    p.opened h = .built c parts := by
  rw [opened, hb]

theorem build?_of_opened (ho : p.opened h = .built c parts) :
    build? p.arena h = some (c, parts) := by
  rw [opened] at ho
  split at ho
  · rename_i hb
    cases ho
    exact hb
  · split at ho <;> cases ho

theorem partOf_iff_mem_parts : PartOf p.arena q h ↔ q ∈ (p.opened h).parts := by
  constructor
  · rintro ⟨c, parts, hb, hq⟩
    rw [opened_of_build? hb]
    exact hq
  · intro hq
    cases ho : p.opened h with
    | built c parts =>
      rw [ho] at hq
      exact partOf_of_mem (build?_of_opened ho) hq
    | _ =>
      rw [ho] at hq
      cases hq

/-- The unfolding of a type: what is built from parts is opened, in their order. -/
def unfolding (p : Program) (hp : p.Acyclic) (h : TypeHandle) : Unfolding :=
  match _ : p.opened h with
  | .intrinsic k => .of (.intrinsic k)
  | .nominal h => .of (.nominal h)
  | .built c parts => .of (.built c (parts.attach.map fun q => p.unfolding hp q.1))
termination_by hp.wellFounded.wrap h
decreasing_by exact partOf_of_mem (build?_of_opened ‹_›) q.2

theorem unfolding_eq (hp : p.Acyclic) (h : TypeHandle) :
    p.unfolding hp h = .of ((p.opened h).map (p.unfolding hp)) := by
  rw [unfolding]
  split <;> rename_i ho <;> rw [ho, Opened.map]
  rw [List.attach_map_val]

/-! ### Representatives and unfoldings -/

/-- A handle's type is primitive, or goes by the handle, or is built from parts. -/
theorem opened_cases (p : Program) (h : TypeHandle) :
    (∃ k, p.opened h = .intrinsic k ∧ p.canonical h = k.handle) ∨
    (p.opened h = .nominal h ∧ p.canonical h = h) ∨
    ∃ c parts, p.opened h = .built c parts ∧ build? p.arena h = some (c, parts) := by
  cases hb : build? p.arena h with
  | some build =>
    obtain ⟨c, parts⟩ := build
    exact .inr (.inr ⟨c, parts, opened_of_build? hb, rfl⟩)
  | none =>
    have hr := canonical_of_build?_eq_none hb
    obtain ⟨k, hk, hstanding⟩ | ⟨hk, hstanding⟩ := standing_cases p h
    · exact .inl ⟨k, by rw [opened, hb, hk], hr.trans hstanding⟩
    · refine .inr (.inl ⟨?_, hr.trans hstanding⟩)
      rw [opened, hb]
      show (match p.type? h with
        | some (.intrinsic k) => Opened.intrinsic k
        | _ => Opened.nominal h) = _
      split
      · exact absurd ‹_› (hk _)
      · rfl

/-- A type is opened to the same parts as its representative, up to representatives. -/
theorem map_canonical_opened_canonical (p : Program) (h : TypeHandle) :
    (p.opened (p.canonical h)).map p.canonical = (p.opened h).map p.canonical := by
  obtain ⟨k, ho, hr⟩ | ⟨-, hr⟩ | ⟨c, parts, ho, hb⟩ := p.opened_cases h
  · rw [ho, hr, opened, build?_handle, type?_handle]
  · rw [hr]
  · obtain ⟨parts', hb', hparts⟩ := build?_canonical hb
    rw [ho, opened_of_build? hb', Opened.map, Opened.map,
      forall₂_sameRepresentative_iff.mp hparts]

/-- What a type stands for, by the representatives of its parts. -/
def representative? (p : Program) : Opened TypeHandle → Option TypeHandle
  | .intrinsic k => some k.handle
  | .nominal h => some h
  | .built c keys => (resolveAll p.arena).interned.get? (c, keys)

theorem Anchored.representative? (ha : p.Anchored h) :
    p.representative? ((p.opened h).map p.canonical) = some (p.canonical h) := by
  obtain ⟨k, ho, hr⟩ | ⟨ho, hr⟩ | ⟨c, parts, ho, hb⟩ := p.opened_cases h
  · rw [ho, hr]
    rfl
  · rw [ho, hr]
    rfl
  · rw [ho]
    exact ha.interned hb

theorem Acyclic.anchored (hp : p.Acyclic) (h : TypeHandle) : p.Anchored h :=
  fun _ hq hinside => absurd (hinside.tail hq) (hp h)

/-- Where no type contains itself, the representatives of the parts decide. -/
theorem Acyclic.canonical_eq_iff (hp : p.Acyclic) (a b : TypeHandle) :
    p.canonical a = p.canonical b ↔
      (p.opened a).map p.canonical = (p.opened b).map p.canonical := by
  constructor
  · intro heq
    rw [← map_canonical_opened_canonical p a, heq, map_canonical_opened_canonical]
  · intro heq
    have ha := (hp.anchored a).representative?
    rw [heq, (hp.anchored b).representative?] at ha
    exact (Option.some.inj ha).symm

/-- Where no type contains itself, two handles have the same representative if and
only if their types unfold to the same. -/
theorem canonical_eq_iff_unfolding_eq (p : Program) (hp : p.Acyclic) (a b : TypeHandle) :
    p.canonical a = p.canonical b ↔ p.unfolding hp a = p.unfolding hp b := by
  -- by induction on the parts of `a`
  induction a using hp.wellFounded.induction generalizing b with
  | _ a ih =>
    rw [unfolding_eq hp a, unfolding_eq hp b, Unfolding.of.injEq, hp.canonical_eq_iff]
    exact Opened.map_eq_map_iff fun q hq q' => ih q (partOf_iff_mem_parts.mpr hq) q'

/-- No type contains itself if its parts always have a smaller rank. -/
theorem acyclic_of_rank (rank : TypeHandle → Nat)
    (hrank : ∀ i < p.arena.length, ∀ q ∈ (p.opened ⟨i⟩).parts, rank q < rank ⟨i⟩) :
    p.Acyclic := by
  have hpart : ∀ q h, PartOf p.arena q h → rank q < rank h := by
    intro q h hq
    exact hrank h.index hq.lt_length q (partOf_iff_mem_parts.mp hq)
  have hinside : ∀ q h, Inside p.arena q h → rank q < rank h := by
    intro q h hq
    induction hq with
    | single hq => exact hpart _ _ hq
    | tail _ hq ih => exact ih.trans (hpart _ _ hq)
  exact fun h hh => Nat.lt_irrefl _ (hinside h h hh)

/-- Two tuples of unions that come later, and a tuple that is different. -/
def nested : Program where
  types := [.tuple [⟨12⟩], .tuple [⟨13⟩], .union [⟨1⟩, ⟨2⟩], .union [⟨1⟩, ⟨2⟩], .tuple [⟨1⟩]]
  declarations := []
  files := []
  representatives := _
  no_problem := by decide
  representatives_eq := rfl

/-- The first two tuples unfold to the same, and the third to something else. -/
theorem canonical_eq_iff_unfolding_eq_nested :
    ∃ hp : nested.Acyclic, nested.unfolding hp ⟨10⟩ = nested.unfolding hp ⟨11⟩ ∧
      nested.unfolding hp ⟨10⟩ ≠ nested.unfolding hp ⟨14⟩ := by
  have hp : nested.Acyclic :=
    acyclic_of_rank (fun h => if h.index = 10 ∨ h.index = 11 then 2 else
      if h.index = 12 ∨ h.index = 13 ∨ h.index = 14 then 1 else 0) (by decide +kernel)
  refine ⟨hp, (canonical_eq_iff_unfolding_eq nested hp ⟨10⟩ ⟨11⟩).mp (by decide +kernel), ?_⟩
  rw [Ne, ← canonical_eq_iff_unfolding_eq nested hp ⟨10⟩ ⟨14⟩]
  decide +kernel

end Program

end TypeCatalog
