/-
The acts of a pass, and all that ever joins its queue.

A pass acts in three ways: it takes files into its tree, it declares a type, and
it works off the first type of its queue.  `Pass.Kept` says of a property that
every one of these acts keeps it; a whole run and a sequence of runs keep it then
as well (`Pass.Kept.run`, `Pass.Kept.runs`).

The queue itself forgets what was taken out of it.  `Pass.joinedByRuns` lists all
that went in during a sequence of runs, in order, and the property may speak of
this list.  Bounds only decide whether a run comes to its end, not to which
(`Pass.run?_mono`).
-/
import TypeCatalog.Catalog.Pass

namespace TypeCatalog

namespace Pass

/-- Types with their slots, in the order in which they joined the queue. -/
abbrev Log := List (TypeHandle × SlotId)

/-- What has joined the queue since an earlier state, when nothing was taken out. -/
def joined (p q : Pass) : Log := q.queue.pending.drop p.queue.pending.length

/-- Makes the record of a slot, if it has none. -/
def settle (host : TypeHost) (p : Pass) (slot : SlotId) : Pass :=
  if p.isPopulated slot then p else p.populate host slot

/-- What joins the queue while types are declared. -/
def joinedByDeclaring (host : TypeHost) : Pass → List (DeclId × String) → Log
  | _, [] => []
  | p, d :: rest =>
    p.joined (p.declare host d.1 d.2) ++ joinedByDeclaring host (p.declare host d.1 d.2) rest

/-- What joins the queue while it is worked off. -/
def joinedByDraining (host : TypeHost) : Nat → Pass → Log
  | 0, _ => []
  | bound + 1, p =>
    match p.queue.pop? with
    | none => []
    | some (first, queue) =>
      let waiting := { p with queue := queue }
      let settled := waiting.settle host first.2
      waiting.joined settled ++ joinedByDraining host bound settled

/-- The declarations of some files, as the tree has them after it took the files in. -/
def declarationsOf (options : CatalogOptions) (p : Pass) (files : List SourceFile) :
    List (DeclId × String) :=
  declarationsBelow (p.growTree options files).2.tree (p.growTree options files).1

/-- A pass that has taken files in and declared their types, and has yet to work off its queue. -/
def declareFiles (host : TypeHost) (options : CatalogOptions) (p : Pass)
    (files : List SourceFile) : Pass :=
  (p.declarationsOf options files).foldl (fun p d => p.declare host d.1 d.2)
    (p.growTree options files).2

/-- What joins the queue in a run. -/
def joinedByRun (host : TypeHost) (options : CatalogOptions) (bound : Nat) (p : Pass)
    (files : List SourceFile) : Log :=
  (p.growTree options files).2.joinedByDeclaring host (p.declarationsOf options files)
    ++ joinedByDraining host bound (p.declareFiles host options files)

/-- What joins the queue in a sequence of runs. -/
def joinedByRuns (host : TypeHost) (options : CatalogOptions) (bound : Nat) :
    Pass → List (List SourceFile) → Log
  | _, [] => []
  | p, files :: rest =>
    p.joinedByRun host options bound files ++
      match p.run? host options bound files with
      | some q => joinedByRuns host options bound q rest
      | none => []

variable {host : TypeHost} {options : CatalogOptions} {p q : Pass}

/-! ### Working off the queue, step by step -/

theorem pop?_eq_none_iff {queue : DiscoveryQueue} : queue.pop? = none ↔ queue.pending = [] := by
  unfold DiscoveryQueue.pop?
  split <;> simp [*]

theorem pop?_eq_some_iff {queue rest : DiscoveryQueue} {first : TypeHandle × SlotId} :
    queue.pop? = some (first, rest) ↔
      queue.pending = first :: rest.pending ∧ rest.pushed = queue.pushed := by
  obtain ⟨pending, pushed⟩ := queue
  obtain ⟨pending', pushed'⟩ := rest
  cases pending with
  | nil => simp [DiscoveryQueue.pop?]
  | cons head tail =>
    simp only [DiscoveryQueue.pop?, Option.some.injEq, Prod.mk.injEq, DiscoveryQueue.mk.injEq,
      List.cons.injEq, and_assoc, eq_comm]

/-- The queue was empty, or its first type was worked off and the rest after it. -/
theorem drain?_cases {bound : Nat} (hd : p.drain? host bound = some q) :
    (p.queue.pop? = none ∧ q = p) ∨
    ∃ b first queue, bound = b + 1 ∧ p.queue.pop? = some (first, queue) ∧
      ({ p with queue := queue }.settle host first.2).drain? host b = some q := by
  unfold drain? at hd
  split at hd
  · rename_i hp
    cases hd
    exact .inl ⟨hp, rfl⟩
  · rename_i h slot queue hp
    cases bound with
    | zero => cases hd
    | succ b => exact .inr ⟨b, (h, slot), queue, rfl, hp, hd⟩

theorem drain?_of_pop?_none (bound : Nat) (hp : p.queue.pop? = none) :
    p.drain? host bound = some p := by
  cases bound <;> rw [drain?, hp]

theorem drain?_of_pop?_some {bound : Nat} {first : TypeHandle × SlotId} {queue : DiscoveryQueue}
    (hp : p.queue.pop? = some (first, queue)) :
    p.drain? host (bound + 1)
      = ({ p with queue := queue }.settle host first.2).drain? host bound := by
  rw [drain?, hp]
  rfl

theorem joinedByDraining_of_pop?_none (bound : Nat) (hp : p.queue.pop? = none) :
    joinedByDraining host bound p = [] := by
  cases bound with
  | zero => rfl
  | succ bound => rw [joinedByDraining, hp]

theorem joinedByDraining_of_pop?_some {bound : Nat} {first : TypeHandle × SlotId}
    {queue : DiscoveryQueue} (hp : p.queue.pop? = some (first, queue)) :
    joinedByDraining host (bound + 1) p =
      joined { p with queue := queue } ({ p with queue := queue }.settle host first.2)
        ++ joinedByDraining host bound ({ p with queue := queue }.settle host first.2) := by
  rw [joinedByDraining, hp]

/-- A larger bound leads to the same end. -/
theorem drain?_mono {bound bound' : Nat} (hb : bound ≤ bound') (hd : p.drain? host bound = some q) :
    p.drain? host bound' = some q := by
  induction bound generalizing p bound' with
  | zero =>
    obtain ⟨hp, rfl⟩ | ⟨b, -, -, hb, -⟩ := drain?_cases hd
    · exact drain?_of_pop?_none bound' hp
    · exact absurd hb (Nat.succ_ne_zero b).symm
  | succ bound ih =>
    obtain ⟨hp, rfl⟩ | ⟨b, first, queue, hb', hp, hd⟩ := drain?_cases hd
    · exact drain?_of_pop?_none bound' hp
    · cases hb'
      obtain ⟨bound', rfl⟩ : ∃ b, bound' = b + 1 := ⟨bound' - 1, by omega⟩
      rw [drain?_of_pop?_some hp]
      exact ih (by omega) hd

theorem run?_eq (bound : Nat) (files : List SourceFile) :
    p.run? host options bound files = (p.declareFiles host options files).drain? host bound :=
  rfl

theorem run?_mono {bound bound' : Nat} (hb : bound ≤ bound') {files : List SourceFile}
    (hr : p.run? host options bound files = some q) :
    p.run? host options bound' files = some q :=
  drain?_mono hb hr

theorem runAll?_mono {bound bound' : Nat} (hb : bound ≤ bound') {runs : List (List SourceFile)}
    (hr : p.runAll? host options bound runs = some q) :
    p.runAll? host options bound' runs = some q := by
  induction runs generalizing p with
  | nil => exact hr
  | cons files rest ih =>
    obtain ⟨p', hp', hr⟩ := Option.bind_eq_some_iff.mp hr
    exact Option.bind_eq_some_iff.mpr ⟨p', run?_mono hb hp', ih hr⟩

theorem pending_of_drain? {bound : Nat} (hd : p.drain? host bound = some q) :
    q.queue.pending = [] := by
  induction bound generalizing p with
  | zero =>
    obtain ⟨hp, rfl⟩ | ⟨b, -, -, hb, -⟩ := drain?_cases hd
    · exact pop?_eq_none_iff.mp hp
    · exact absurd hb (Nat.succ_ne_zero b).symm
  | succ bound ih =>
    obtain ⟨hp, rfl⟩ | ⟨b, first, queue, hb', -, hd⟩ := drain?_cases hd
    · exact pop?_eq_none_iff.mp hp
    · cases hb'
      exact ih hd

/-! ### What every act keeps -/

section

variable {motive : Log → Pass → Prop} {log : Log} {bound : Nat}

/-- What one declaration keeps of those made so far, of all that joined the queue and of the
pass, some declarations keep, one after the other. -/
theorem declareAll_induction {motive : List (DeclId × String) → Log → Pass → Prop}
    (declarations : List (DeclId × String))
    (declare : ∀ {done log p}, ∀ d ∈ declarations, motive done log p →
      motive (done ++ [d]) (log ++ p.joined (p.declare host d.1 d.2)) (p.declare host d.1 d.2))
    (hp : motive [] log p) :
    motive declarations (log ++ p.joinedByDeclaring host declarations)
      (declarations.foldl (fun p d => p.declare host d.1 d.2) p) := by
  suffices h : ∀ {done log p}, motive done log p →
      motive (done ++ declarations) (log ++ p.joinedByDeclaring host declarations)
        (declarations.foldl (fun p d => p.declare host d.1 d.2) p) from h hp
  intro done log p hp
  induction declarations generalizing done log p with
  | nil => simpa [joinedByDeclaring] using hp
  | cons d rest ih =>
    rw [joinedByDeclaring, ← List.append_assoc, List.append_cons]
    exact ih (fun d hd => declare d (List.mem_cons_of_mem _ hd)) (declare d List.mem_cons_self hp)

/-- What working off one type keeps, working off the queue keeps. -/
theorem drain?_induction
    (work : ∀ {log p first queue}, p.queue.pop? = some (first, queue) → motive log p →
      motive
        (log ++ joined { p with queue := queue } ({ p with queue := queue }.settle host first.2))
        ({ p with queue := queue }.settle host first.2))
    (hp : motive log p) (hd : p.drain? host bound = some q) :
    motive (log ++ joinedByDraining host bound p) q := by
  induction bound generalizing log p with
  | zero =>
    obtain ⟨-, rfl⟩ | ⟨b, -, -, hb, -⟩ := drain?_cases hd
    · simpa [joinedByDraining] using hp
    · exact absurd hb (Nat.succ_ne_zero b).symm
  | succ bound ih =>
    obtain ⟨hnone, rfl⟩ | ⟨b, first, queue, hb, hpop, hd⟩ := drain?_cases hd
    · rw [joinedByDraining_of_pop?_none _ hnone, List.append_nil]
      exact hp
    · cases hb
      rw [joinedByDraining_of_pop?_some hpop, ← List.append_assoc]
      exact ih (work hpop hp) hd

/-- Every act of a pass keeps a property of all that joined the queue and the pass. -/
structure Kept (host : TypeHost) (options : CatalogOptions) (motive : Log → Pass → Prop) :
    Prop where
  grow : ∀ {log p} files, motive log p → motive log (p.growTree options files).2
  declare : ∀ {log p} decl name, motive log p →
    motive (log ++ p.joined (p.declare host decl name)) (p.declare host decl name)
  work : ∀ {log p first queue}, p.queue.pop? = some (first, queue) → motive log p →
    motive (log ++ joined { p with queue := queue } ({ p with queue := queue }.settle host first.2))
      ({ p with queue := queue }.settle host first.2)

theorem Kept.declareAll (hk : Kept host options motive) (declarations : List (DeclId × String))
    (hp : motive log p) :
    motive (log ++ p.joinedByDeclaring host declarations)
      (declarations.foldl (fun p d => p.declare host d.1 d.2) p) :=
  declareAll_induction (motive := fun _ => motive) declarations (fun d _ => hk.declare d.1 d.2) hp

theorem Kept.run (hk : Kept host options motive) {files : List SourceFile} (hp : motive log p)
    (hr : p.run? host options bound files = some q) :
    motive (log ++ p.joinedByRun host options bound files) q := by
  rw [joinedByRun, ← List.append_assoc]
  exact drain?_induction hk.work (hk.declareAll _ (hk.grow files hp)) hr

/-- What every act keeps is kept by a sequence of runs. -/
theorem Kept.runs (hk : Kept host options motive) {runs : List (List SourceFile)}
    (hp : motive log p) (hr : p.runAll? host options bound runs = some q) :
    motive (log ++ joinedByRuns host options bound p runs) q := by
  induction runs generalizing log p with
  | nil =>
    cases hr
    simpa [joinedByRuns] using hp
  | cons files rest ih =>
    obtain ⟨p', hp', hr⟩ := Option.bind_eq_some_iff.mp hr
    rw [joinedByRuns, hp', ← List.append_assoc]
    exact ih (hk.run hp hp') hr

end

/-- Nothing waits after a sequence of runs if nothing did before. -/
theorem pending_of_runAll? {bound : Nat} {runs : List (List SourceFile)}
    (hp : p.queue.pending = []) (hr : p.runAll? host options bound runs = some q) :
    q.queue.pending = [] := by
  induction runs generalizing p with
  | nil =>
    cases hr
    exact hp
  | cons files rest ih =>
    obtain ⟨p', hp', hr⟩ := Option.bind_eq_some_iff.mp hr
    exact ih (pending_of_drain? hp') hr

end Pass

end TypeCatalog
