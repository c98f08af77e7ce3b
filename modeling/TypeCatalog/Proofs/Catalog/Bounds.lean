/-
What a pass over a program takes.

`Pass.Occurs` holds of every state that a pass goes through, whatever files it is
run over: while it takes files in, declares types and works off its queue.  In all
of them there are no more slots than the program has types of its own, and no more
types have joined the queue than there are slots (`Program.bounds_of_occurs`).

Everything that a run repeats comes to an end.  The queue is worked off within a
number of steps that depends on the program alone, a visit of the packages of a file
ends as packages form a forest, and the name of a reference is found at the end of
its targets (`Program.TargetsEnd.exists_name`): a line of targets that does not come
back to a type is no longer than the list of types.
-/
import Mathlib.Data.List.Chain
import TypeCatalog.Proofs.Catalog.Tally
import TypeCatalog.Proofs.Catalog.Termination

namespace TypeCatalog

/-! ### The states of a pass -/

namespace Pass

variable {host : TypeHost} {options : CatalogOptions} {p q : Pass} {bound : Nat}

/-- The states that a pass goes through in runs over any files. -/
inductive Occurs (host : TypeHost) (options : CatalogOptions) : Pass → Prop where
  | initial : Occurs host options initial
  | grow {p : Pass} (files : List SourceFile) : Occurs host options p →
      Occurs host options (p.growTree options files).2
  | declare {p : Pass} (decl : DeclId) (name : String) : Occurs host options p →
      Occurs host options (p.declare host decl name)
  | work {p : Pass} {first : TypeHandle × SlotId} {queue : DiscoveryQueue} :
      p.queue.pop? = some (first, queue) → Occurs host options p →
      Occurs host options ({ p with queue := queue }.settle host first.2)

theorem occurs_kept : Kept host options fun _ p => Occurs host options p where
  grow files h := h.grow files
  declare decl name h := h.declare decl name
  work hp h := h.work hp

theorem occurs_of_runAll? {runs : List (List SourceFile)}
    (hr : initial.runAll? host options bound runs = some p) : Occurs host options p :=
  -- occurring does not depend on what has joined the queue
  @Kept.runs host options initial p (fun _ p => Occurs host options p) [] bound occurs_kept runs
    .initial hr

theorem Occurs.exists_orderly (h : Occurs host options p) : ∃ log, p.Orderly host log [] := by
  induction h with
  | initial => exact ⟨[], orderly_initial⟩
  | grow files _ ih =>
    obtain ⟨log, ho⟩ := ih
    exact ⟨log, ho.grow files⟩
  | declare decl name _ ih =>
    obtain ⟨log, ho⟩ := ih
    exact ⟨_, ho.declare decl name⟩
  | work hp _ ih =>
    obtain ⟨log, ho⟩ := ih
    exact ⟨_, ho.work hp⟩

/-- The tree represents the files that have been taken in so far. -/
theorem Occurs.exists_represents (h : Occurs host options p) :
    ∃ done, p.tree.Represents options.rootDir done := by
  induction h with
  | initial => exact ⟨[], PackageTree.represents_empty _⟩
  | @grow p files _ ih =>
    obtain ⟨done, hrep⟩ := ih
    have hstart : (⟨p.tree, p.reports⟩ : Growth).tree.Represents options.rootDir done := hrep
    exact ⟨_, (Growth.addFiles_represents hstart files).1⟩
  | @declare p decl name _ ih =>
    rw [(leadsTo_declare p decl name).tree]
    exact ih
  | @work p first queue _ _ ih =>
    rw [(leadsTo_settle { p with queue := queue } first.2).tree]
    exact ih

/-- Never have more types joined the queue than there are slots. -/
theorem Occurs.pushed_le (h : Occurs host options p) : p.queue.pushed ≤ p.registry.size := by
  obtain ⟨log, ho⟩ := h.exists_orderly
  rw [ho.counted]
  exact ho.length_log_le

end Pass

/-! ### Lines of targets -/

/-- The target of a reference. -/
def TypeKind.target? : TypeKind → Option TypeHandle
  | reference target _ => some target
  | _ => none

theorem TypeHost.nameWithin_mono {kind : TypeHandle → TypeKind} {bound bound' : Nat}
    (hb : bound ≤ bound') {h : TypeHandle} {name : String}
    (hn : nameWithin kind bound h = some name) : nameWithin kind bound' h = some name := by
  induction bound generalizing h bound' with
  | zero => cases hn
  | succ bound ih =>
    obtain ⟨bound', rfl⟩ : ∃ b, bound' = b + 1 := ⟨bound' - 1, by omega⟩
    rw [nameWithin] at hn ⊢
    split at hn
    · exact hn
    · exact ih (by omega) hn

namespace Program

variable {program : Program} {h t : TypeHandle} {bound : Nat}

/-- The first type is a reference, and the second one its target. -/
def HasTarget (program : Program) (h t : TypeHandle) : Prop :=
  (program.kind h).target? = some t

/-- Whoever follows the targets of references never comes back to the same type. -/
def TargetsEnd (program : Program) : Prop := ∀ h, ¬ Relation.TransGen program.HasTarget h h

theorem HasTarget.lt_typeCount (ht : program.HasTarget h t) : h.index < program.typeCount := by
  by_contra hlt
  have hnone : program.type? h = none := by
    rw [type?, arena, List.getElem?_eq_none_iff, List.length_append]
    simp only [TypeData.intrinsics, List.length_map, Intrinsic.length_all]
    rw [typeCount] at hlt
    omega
  rw [HasTarget, kind, hnone] at ht
  cases ht

/-- A type that is not named within a bound begins a line of references as long as the bound. -/
theorem exists_line_of_nameWithin_eq_none
    (hn : TypeHost.nameWithin program.kind bound h = none) :
    ∃ line : List TypeHandle, line.length = bound ∧ (∀ x ∈ line.head?, x = h) ∧
      line.IsChain program.HasTarget ∧ ∀ x ∈ line, x.index < program.typeCount := by
  induction bound generalizing h with
  | zero => exact ⟨[], rfl, by simp, .nil, by simp⟩
  | succ bound ih =>
    rw [TypeHost.nameWithin] at hn
    cases hk : program.kind h <;> rw [hk] at hn <;> try cases hn
    case reference target typeArguments =>
      obtain ⟨line, hlength, hhead, hchain, hlt⟩ := ih hn
      have ht : program.HasTarget h target := by rw [HasTarget, hk]; rfl
      refine ⟨h :: line, by simp [hlength], by simp, hchain.cons fun x hx => ?_, ?_⟩
      · rw [hhead x hx]
        exact ht
      · exact List.forall_mem_cons.mpr ⟨ht.lt_typeCount, hlt⟩

/-- A line of targets that never comes back to a type is no longer than the list of types. -/
theorem TargetsEnd.length_le (hends : program.TargetsEnd) {line : List TypeHandle}
    (hchain : line.IsChain program.HasTarget) (hlt : ∀ x ∈ line, x.index < program.typeCount) :
    line.length ≤ program.typeCount := by
  have hpairs : line.Pairwise (Relation.TransGen program.HasTarget) :=
    (hchain.imp fun _ _ => .single).pairwise
  have hnodup : (line.map TypeHandle.index).Nodup := by
    refine List.Nodup.map (fun _ _ => congrArg TypeHandle.mk) (hpairs.imp fun {a b} hab => ?_)
    rintro rfl
    exact hends a hab
  have hsub : line.map TypeHandle.index ⊆ List.range program.typeCount := by
    intro i hi
    obtain ⟨x, hx, rfl⟩ := List.mem_map.mp hi
    exact List.mem_range.mpr (hlt x hx)
  simpa using (hnodup.subperm hsub).length_le

/-- Every type has a name, which is found within every bound that exceeds the number of types. -/
theorem TargetsEnd.exists_name (hends : program.TargetsEnd) (h : TypeHandle) :
    ∃ name, ∀ bound, program.typeCount < bound →
      TypeHost.nameWithin program.kind bound h = some name := by
  cases hn : TypeHost.nameWithin program.kind (program.typeCount + 1) h with
  | some name => exact ⟨name, fun bound hb => TypeHost.nameWithin_mono hb hn⟩
  | none =>
    obtain ⟨line, hlength, -, hchain, hlt⟩ := exists_line_of_nameWithin_eq_none hn
    have hle := hends.length_le hchain hlt
    omega

/-- Targets that always have a smaller rank do not come back. -/
theorem targetsEnd_of_rank (rank : TypeHandle → Nat)
    (hrank : ∀ i < program.typeCount, ∀ t ∈ (program.kind ⟨i⟩).target?, rank t < rank ⟨i⟩) :
    program.TargetsEnd := by
  have hstep : ∀ h t, program.HasTarget h t → rank t < rank h := by
    intro h t ht
    exact hrank h.index ht.lt_typeCount t ht
  have hline : ∀ h t, Relation.TransGen program.HasTarget h t → rank t < rank h := by
    intro h t ht
    induction ht with
    | single ht => exact hstep _ _ ht
    | tail _ ht ih => exact (hstep _ _ ht).trans ih
  exact fun h hh => Nat.lt_irrefl _ (hline h h hh)

/-! ### What a pass takes -/

/-- The program itself, and the program behind a host that gives only the answers it must. -/
def IsServedBy (program : Program) (host : TypeHost) : Prop :=
  host = program.host ∨ host = program.plainHost

theorem IsServedBy.kind_eq {host : TypeHost} (hs : program.IsServedBy host) :
    host.kind = program.kind := by
  obtain rfl | rfl := hs <;> rfl

theorem IsServedBy.displayName_eq {host : TypeHost} (hs : program.IsServedBy host)
    (h : TypeHandle) : host.displayName h
      = (TypeHost.nameWithin program.kind (program.typeCount + 1) h).getD "" := by
  obtain rfl | rfl := hs <;> rfl

/-- Every state of a pass has at most as many slots as there are types of the program's own. -/
theorem size_le_of_occurs {host : TypeHost} {options : CatalogOptions} {p : Pass}
    (hk : host.kind = program.kind) (h : p.Occurs host options) :
    p.registry.size + Intrinsic.count ≤ program.typeCount := by
  obtain ⟨log, ho⟩ := h.exists_orderly
  have hfit := program.fitsIn hk p.registry ho.serves
  rw [typeCount]
  omega

/-- Over a program in which targets do not come back, every sequence of runs over any files
comes to its end, within a number of steps that depends on the program alone.  In
every state on the way the slots are at most as many as the types of the program's own,
and the types that have ever joined the queue as many as the slots; no visit of packages
and no search for a name is cut short. -/
theorem bounds_of_occurs (program : Program) (hends : program.TargetsEnd) (host : TypeHost)
    (hs : program.IsServedBy host) (options : CatalogOptions) (runs : List (List SourceFile)) :
    (∃ p, p.Occurs host options ∧ ∀ bound, program.typeCount ≤ bound →
      Pass.initial.runAll? host options bound runs = some p) ∧
    (∀ p : Pass, p.Occurs host options →
      p.registry.size + Intrinsic.count ≤ program.typeCount ∧
      p.queue.pushed ≤ p.registry.size ∧
      ∀ file ∈ p.tree.files, ∀ bound, p.tree.nodes.length ≤ bound →
        p.tree.visit bound [file.root] = p.tree.depthFirst file.root) ∧
    ∀ h, ∃ name, host.displayName h = name ∧ ∀ bound, program.typeCount < bound →
      TypeHost.nameWithin host.kind bound h = some name := by
  have hk := hs.kind_eq
  refine ⟨?_, fun p hp => ⟨size_le_of_occurs hk hp, hp.pushed_le, ?_⟩, fun h => ?_⟩
  · obtain ⟨p, hp⟩ := program.exists_runAll? hk options runs
    exact ⟨p, Pass.occurs_of_runAll? (hp _ (Nat.le_refl _)), hp⟩
  · intro file hfile bound hb
    obtain ⟨done, hrep⟩ := hp.exists_represents
    exact hrep.visit_eq hfile hb
  · obtain ⟨name, hname⟩ := hends.exists_name h
    refine ⟨name, ?_, hk ▸ hname⟩
    rw [hs.displayName_eq, hname _ (Nat.lt_succ_self _), Option.getD_some]

/-- An interface with a member whose type refers to it by way of another reference. -/
def roundabout : Program where
  types := [
    .object .interfaceForm
      { ObjectShape.named "A" with members := [⟨"next", .property, ⟨11⟩, false⟩] },
    .reference ⟨12⟩ [⟨10⟩], .reference ⟨10⟩ []]
  declarations := [⟨10⟩]
  files := [⟨"a.ts", [.interfaceDeclaration ⟨0⟩ (some "A")], false⟩]
  representatives := _
  no_problem := by decide
  representatives_eq := rfl

/-- A second run over a file with a declaration that the program does not have. -/
theorem bounds_of_roundabout :
    roundabout.TargetsEnd ∧
    ∃ p, Pass.initial.runAll? roundabout.plainHost .default 13
        [roundabout.files, [⟨"b.ts", [.classDeclaration ⟨7⟩ (some "B")], false⟩]] = some p ∧
      p.registry.size + 10 ≤ 13 ∧ p.queue.pushed ≤ p.registry.size ∧
      ∃ name, roundabout.plainHost.displayName ⟨11⟩ = name ∧
        TypeHost.nameWithin roundabout.plainHost.kind 14 ⟨11⟩ = some name := by
  have hends : roundabout.TargetsEnd :=
    targetsEnd_of_rank (fun h => if h.index = 11 then 2 else if h.index = 12 then 1 else 0)
      (by decide)
  obtain ⟨⟨p, hp, hrun⟩, hstates, hnames⟩ :=
    bounds_of_occurs roundabout hends roundabout.plainHost (.inr rfl) .default
      [roundabout.files, [⟨"b.ts", [.classDeclaration ⟨7⟩ (some "B")], false⟩]]
  obtain ⟨name, hname, hfound⟩ := hnames ⟨11⟩
  exact ⟨hends, p, hrun 13 (by decide), (hstates p hp).1, (hstates p hp).2.1, name, hname,
    hfound 14 (by decide)⟩

end Program

end TypeCatalog
