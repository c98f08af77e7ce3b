/-
Where the parts of tuples and references stand in their records.

The elements of a tuple and the arguments of a reference mean something by their
place.  A record leaves out the parts that cannot be shown, so what comes after
them moves forward by as many places as there are such parts before it
(`Portrait.Listed.getElem?_eq`), and the record has each part in its own place
exactly if all of them can be shown (`Program.places_of_mem_populations`).

This is not the case for all programs: a tuple of a literal and a number has a
record that begins with the number (`Program.not_length_eq_of_isSequence`).
-/
import TypeCatalog.Proofs.Catalog.Complete
import TypeCatalog.Proofs.Catalog.Portrait

namespace TypeCatalog

instance : DecidablePred TypeKind.IsUnsupported
  | .literal _ => .isTrue trivial
  | .objectLiteral => .isTrue trivial
  | .unknown _ => .isTrue trivial
  | .classExpression none _ => .isTrue trivial
  | .classExpression (some _) _ => .isFalse id
  | .intrinsic _ => .isFalse id
  | .classType _ => .isFalse id
  | .interfaceType _ => .isFalse id
  | .reference _ _ => .isFalse id
  | .union _ => .isFalse id
  | .intersection _ => .isFalse id
  | .tuple _ => .isFalse id
  | .function _ => .isFalse id
  | .typeLiteral _ => .isFalse id
  | .typeParameter _ _ => .isFalse id

/-- How many of some types have no place in a record. -/
def TypeHost.gaps (host : TypeHost) (types : List TypeHandle) : Nat :=
  types.countP fun type => (host.kindOf type).IsUnsupported

/-- The types that mean something by their place in a type: the elements of a tuple,
and the arguments of a reference that is not an array. -/
inductive TypeHost.IsSequence (host : TypeHost) (h : TypeHandle) : List TypeHandle → Prop where
  | tuple {elements} : host.kind h = .tuple elements → IsSequence host h elements
  | reference {target typeArguments} : host.kind h = .reference target typeArguments →
      ¬ Portrait.IsArray host target typeArguments → IsSequence host h typeArguments

/-- The edges of a record that mean something by their place. -/
def NodeKind.sequence? : NodeKind → Option (List TypeRef)
  | .tuple edges => some edges
  | .reference _ edges => some edges
  | _ => none

namespace Portrait

variable {host : TypeHost} {r : Registry} {types : List TypeHandle} {edges : List TypeRef}
  {type h : TypeHandle}

/-- Nothing shows a type exactly if it cannot be shown. -/
theorem Edge.eq_none_iff {shown : Option TypeRef} (he : Edge host r type shown) :
    shown = none ↔ (host.kindOf type).IsUnsupported := by
  cases he with
  | intrinsic hk => simp [hk, TypeKind.IsUnsupported]
  | slot hk _ => simp [hk.1]
  | missing hk => simp [hk]

theorem Edge.gaps_cons_of_shown {edge : TypeRef} (he : Edge host r type (some edge))
    (types : List TypeHandle) : host.gaps (type :: types) = host.gaps types := by
  have hshown : ¬ (host.kindOf type).IsUnsupported := he.eq_none_iff.not.mp nofun
  exact List.countP_cons_of_neg (by simpa using hshown)

theorem Edge.gaps_cons_of_missing (he : Edge host r type none) (types : List TypeHandle) :
    host.gaps (type :: types) = host.gaps types + 1 := by
  have hmissing : (host.kindOf type).IsUnsupported := he.eq_none_iff.mp rfl
  exact List.countP_cons_of_pos (by simpa using hmissing)

/-- A list is shorter by the parts that it leaves out. -/
theorem Listed.length_add_gaps (hl : Listed (Edge host r) types edges) :
    edges.length + host.gaps types = types.length := by
  induction hl with
  | nil => rfl
  | keep he _ ih =>
    rw [he.gaps_cons_of_shown, List.length_cons, List.length_cons]
    omega
  | skip he _ ih =>
    rw [he.gaps_cons_of_missing, List.length_cons]
    omega

/-- A part that can be shown has moved forward by the parts before it that cannot. -/
theorem Listed.getElem?_eq (hl : Listed (Edge host r) types edges) {i : Nat}
    (hi : types[i]? = some type) (hs : ¬ (host.kindOf type).IsUnsupported) :
    ∃ edge, edges[i - host.gaps (types.take i)]? = some edge ∧
      Edge host r type (some edge) := by
  -- the lists move on together past a part that is kept; one that is left out is
  -- a gap before all parts behind it
  induction hl generalizing i with
  | nil => cases hi
  | @keep first edge types edges he hl ih =>
    cases i with
    | zero =>
      cases hi
      exact ⟨edge, rfl, he⟩
    | succ i =>
      obtain ⟨shown, hat, hshown⟩ := ih (by simpa using hi)
      have hgaps : host.gaps (types.take i) ≤ i :=
        Nat.le_trans List.countP_le_length (List.length_take_le i types)
      have hplace : i + 1 - host.gaps (types.take i) = i - host.gaps (types.take i) + 1 := by
        omega
      refine ⟨shown, ?_, hshown⟩
      rw [List.take_succ_cons, he.gaps_cons_of_shown, hplace, List.getElem?_cons_succ]
      exact hat
  | @skip first types edges he hl ih =>
    cases i with
    | zero =>
      cases hi
      exact absurd (he.eq_none_iff.mp rfl) hs
    | succ i =>
      obtain ⟨shown, hat, hshown⟩ := ih (by simpa using hi)
      refine ⟨shown, ?_, hshown⟩
      rw [List.take_succ_cons, he.gaps_cons_of_missing, Nat.add_sub_add_right]
      exact hat

/-- Every part is in its own place exactly if all of them can be shown. -/
theorem Listed.forall₂_required_iff (hl : Listed (Edge host r) types edges) :
    List.Forall₂ (Required host r) types edges ↔
      ∀ type ∈ types, ¬ (host.kindOf type).IsUnsupported := by
  constructor
  · intro hplaces
    have hlength := hplaces.length_eq
    -- lists of the same length leave nothing out
    have hgaps : host.gaps types = 0 := by
      have := hl.length_add_gaps
      omega
    simpa [TypeHost.gaps, List.countP_eq_zero] using hgaps
  · intro hall
    induction hl with
    | nil => exact .nil
    | keep he _ ih =>
      obtain ⟨-, hrest⟩ := List.forall_mem_cons.mp hall
      exact .cons ⟨_, he, rfl⟩ (ih hrest)
    | skip he _ ih =>
      obtain ⟨hfirst, -⟩ := List.forall_mem_cons.mp hall
      exact absurd (he.eq_none_iff.mp rfl) hfirst

/-- The record of a tuple or a reference lists the parts of the type. -/
theorem listed_of_isSequence {shown : NodeKind} (hn : Node host r h shown)
    (ht : host.IsSequence h types) :
    ∃ edges, shown.sequence? = some edges ∧ Listed (Edge host r) types edges := by
  unfold Node at hn
  cases ht with
  | tuple hk =>
    rw [hk] at hn
    cases shown with
    | tuple edges => exact ⟨edges, rfl, hn⟩
    | _ => exact hn.elim
  | reference hk harray =>
    rw [hk] at hn
    cases shown with
    | array edge => exact absurd hn.1 harray
    | reference edge edges => exact ⟨edges, rfl, hn.2.2⟩
    | _ => exact hn.elim

end Portrait

/-- Cataloguing a program comes to an end.  The record of a tuple, and of a reference
that is not an array, then has an edge for every part that can be shown, as many places
before that of the part as there are parts before it that cannot; so every part is in
its own place exactly if all of them can be shown. -/
theorem Program.places_of_mem_populations (program : Program) (options : CatalogOptions)
    (runs : List (List SourceFile)) :
    ∃ p : Pass,
      (∀ bound, program.typeCount ≤ bound →
        Pass.initial.runAll? program.host options bound runs = some p) ∧
      ∀ n ∈ (p.finish options).table.populations, ∃ e, p.registry.entry? n.slot = some e ∧
        ∀ types, program.host.IsSequence e.handle types →
          ∃ edges, n.kind.sequence? = some edges ∧
            edges.length + program.host.gaps types = types.length ∧
            (∀ i type, types[i]? = some type → ¬ (program.host.kindOf type).IsUnsupported →
              ∃ edge, edges[i - program.host.gaps (types.take i)]? = some edge ∧
                Portrait.Edge program.host p.registry type (some edge)) ∧
            (List.Forall₂ (Portrait.Required program.host p.registry) types edges ↔
              ∀ type ∈ types, ¬ (program.host.kindOf type).IsUnsupported) := by
  obtain ⟨p, hp⟩ := program.exists_runAll? (rfl : program.host.kind = _) options runs
  have ho := Pass.orderly_of_runAll? (hp _ (Nat.le_refl _))
  refine ⟨p, hp, fun n hn => ?_⟩
  obtain ⟨e, he, hportrait⟩ := ho.portrait hn
  refine ⟨e, he, fun types htypes => ?_⟩
  obtain ⟨edges, hedges, hlisted⟩ :=
    Portrait.listed_of_isSequence ((hportrait n.kind).mpr rfl) htypes
  exact ⟨edges, hedges, hlisted.length_add_gaps, fun _ _ hi hs => hlisted.getElem?_eq hi hs,
    hlisted.forall₂_required_iff⟩

/-- An interface with a member whose type is a tuple of a literal and a number. -/
def Program.lopsided : Program where
  types := [.object .interfaceForm
      { ObjectShape.named "F" with members := [⟨"t", .property, ⟨12⟩, false⟩] },
    .literal (.string "a"), .tuple [⟨11⟩, ⟨2⟩]]
  declarations := [⟨10⟩]
  files := [⟨"f.ts", [.interfaceDeclaration ⟨0⟩ (some "F")], false⟩]
  representatives := _
  no_problem := by decide
  representatives_eq := rfl

/-- The number comes first in the record, which has no place for the literal. -/
theorem Program.not_length_eq_of_isSequence :
    ¬ ∀ (program : Program) (options : CatalogOptions) (files : List SourceFile) (p : Pass),
      Pass.initial.run? program.host options program.typeCount files = some p →
      ∀ n ∈ p.populations, ∀ e, p.registry.entry? n.slot = some e →
        ∀ types, program.host.IsSequence e.handle types →
          ∀ edges, n.kind.sequence? = some edges → edges.length = types.length := by
  intro h
  have hkinds : (Pass.initial.run? lopsided.host .default lopsided.typeCount lopsided.files).map
      (fun p => (p.populations[1]?.map fun n => (n.kind, p.registry.entry? n.slot))) =
      some (some (.tuple [.intrinsic .number], some ⟨⟨12⟩, none, .tuple [⟨11⟩, ⟨2⟩]⟩)) := by
    decide +kernel
  obtain ⟨p, hp, hkinds⟩ := Option.map_eq_some_iff.mp hkinds
  obtain ⟨n, hn, hkind⟩ := Option.map_eq_some_iff.mp hkinds
  rw [Prod.mk.injEq] at hkind
  have htypes : lopsided.host.IsSequence ⟨12⟩ [⟨11⟩, ⟨2⟩] := .tuple rfl
  have hlength := h lopsided .default lopsided.files p hp n (List.mem_of_getElem? hn) _ hkind.2 _
    htypes [.intrinsic .number] (by rw [hkind.1]; rfl)
  cases hlength

end TypeCatalog
