/-
The bindings after any steps are those that the outcomes of the steps give.

A shelf is asked to load tables and to register constructors, in any order, and
some of these steps fail.  What comes of a step is its outcome, and outcomes act
on a relation of constructors and class slots alone: a load clears the pairs of
its library, a registration replaces the pairs with its constructor and those
with its class, and a failure changes nothing.

After any steps both places in which bindings are kept hold exactly the relation
that the outcomes have given, starting from none (`represents_run`).  With what
this means for the classes that are found, this is `bindings_refine_outcomes`.
-/
import TypeCatalog.Proofs.Shelf.Bindings

namespace TypeCatalog

namespace Shelf

/-- What a shelf can be asked to do. -/
inductive Step where
  | load (table : MetadataTable)
  | register (constructor : Constructor) (qualified : String)
  | registerIn (constructor : Constructor) (library qualified : String)

/-- Why a step fails. -/
inductive Failure where
  | load (error : LoadError)
  | lookup (error : LookupError)

/-- Whether a change has failed, and why, with the shelf after it. -/
def conclude {ε α : Type} (failure : ε → Failure) :
    Except ε α × Shelf → Except Failure Unit × Shelf
  | (.ok _, s) => (.ok (), s)
  | (.error e, s) => (.error (failure e), s)

/-- The result of a step, and the shelf after it. -/
def Step.perform (s : Shelf) : Step → Except Failure Unit × Shelf
  | .load t => conclude .load ((Change.load t).on s)
  | .register c qualified => conclude .lookup ((Change.register c qualified).on s)
  | .registerIn c library qualified =>
    conclude .lookup ((Change.registerIn c library qualified).on s)

/-- The shelf after some steps. -/
def run (s : Shelf) (steps : List Step) : Shelf :=
  steps.foldl (fun s step => (step.perform s).2) s

/-! ### What comes of steps -/

/-- What can come of a step. -/
inductive Outcome where
  | loaded (library : String)
  | bound (constructor : Constructor) (library : String) (slot : SlotId)
  | failed

/-- What an outcome does to the bindings. -/
def Outcome.apply (R : Set Binding) : Outcome → Set Binding
  | loaded library => Binding.clear R library
  | bound c library slot => Binding.bind R c (library, slot)
  | failed => R

/-- What comes of a registration: the constructor is bound to the class of the name. -/
def registration (s : Shelf) (c : Constructor) (library qualified : String) : Outcome :=
  match s.classOf library qualified with
  | .ok view => .bound c library view.node.slot
  | .error _ => .failed

/-- What comes of a step. -/
def Step.outcome (s : Shelf) : Step → Outcome
  | .load t =>
    match Library.load t with
    | .ok _ => .loaded t.library
    | .error _ => .failed
  | .register c qualified => s.registration c defaultLibrary qualified
  | .registerIn c library qualified => s.registration c library qualified

/-- What comes of some steps. -/
def outcomes (s : Shelf) : List Step → List Outcome
  | [] => []
  | step :: rest => step.outcome s :: outcomes (step.perform s).2 rest

/-- A result that agrees with an outcome: a failure changes nothing, and after a
success the shelf represents the relation on which the outcome has acted. -/
inductive Agrees (s : Shelf) (R : Set Binding) :
    Except Failure Unit × Shelf → Outcome → Prop where
  | failed {e : Failure} : Agrees s R (.error e, s) .failed
  | done {s' : Shelf} {outcome : Outcome} : outcome ≠ .failed →
      s'.Represents (outcome.apply R) → Agrees s R (.ok (), s') outcome

variable {s : Shelf} {R : Set Binding} {result : Except Failure Unit × Shelf} {outcome : Outcome}

theorem Agrees.represents (ha : Agrees s R result outcome) (hs : s.Represents R) :
    result.2.Represents (outcome.apply R) := by
  cases ha with
  | failed => exact hs
  | done _ hs' => exact hs'

theorem Agrees.error_iff (ha : Agrees s R result outcome) :
    (∃ e, result.1 = .error e) ↔ outcome = .failed := by
  cases ha with
  | failed => exact ⟨fun _ => rfl, fun _ => ⟨_, rfl⟩⟩
  | done hne _ => exact ⟨nofun, fun hf => absurd hf hne⟩

theorem Agrees.eq_of_failed (ha : Agrees s R result outcome) (hf : outcome = .failed) :
    result.2 = s := by
  cases ha with
  | failed => rfl
  | done hne _ => exact absurd hf hne

theorem agrees_registration (hs : s.Represents R) (c : Constructor)
    (library qualified : String) :
    Agrees s R (conclude .lookup ((Change.registerIn c library qualified).on s))
      (s.registration c library qualified) := by
  rw [registration]
  obtain ⟨e, hv, hon⟩ | ⟨view, hv, hon⟩ := on_registerIn s c library qualified
  · rw [hv, hon]
    exact .failed
  · rw [hv, hon]
    obtain ⟨hrecord, hclass⟩ := hs.record?_of_classOf hv
    exact .done nofun (hs.bind hrecord hclass c)

theorem agrees_step (hs : s.Represents R) (step : Step) :
    Agrees s R (step.perform s) (step.outcome s) := by
  cases step with
  | load t =>
    rw [Step.perform, Step.outcome]
    obtain ⟨e, hl, hon⟩ | ⟨l, hl, hon⟩ := on_load s t
    · rw [hl, hon]
      exact .failed
    · rw [hl, hon]
      exact .done nofun (hs.load hon)
  | register c qualified => exact agrees_registration hs c defaultLibrary qualified
  | registerIn c library qualified => exact agrees_registration hs c library qualified

theorem represents_perform (hs : s.Represents R) (step : Step) :
    (step.perform s).2.Represents ((step.outcome s).apply R) :=
  (agrees_step hs step).represents hs

theorem represents_run (hs : s.Represents R) (steps : List Step) :
    (s.run steps).Represents ((s.outcomes steps).foldl Outcome.apply R) := by
  induction steps generalizing s R with
  | nil => exact hs
  | cons step rest ih => exact ih (represents_perform hs step)

/-- After any steps the bindings of a shelf, and those of its libraries, are the one
relation that the outcomes of the steps give.  No constructor has two classes in it
and no class two constructors, its slots hold classes of loaded libraries, and a
constructor is found by its class exactly if it is related to one, namely to the
class that is found.  A step fails exactly if its outcome is failure, and then it
changes nothing. -/
theorem bindings_refine_outcomes (steps : List Step) :
    let s := empty.run steps
    let R := (empty.outcomes steps).foldl Outcome.apply ∅
    Binding.IsOneToOne R ∧
    (∀ c place, s.bindings.get? c = some place ↔ (c, place) ∈ R) ∧
    (∀ c place, (∃ l, s.libraries.get? place.1 = some l ∧ l.constructorOf? place.2 = some c) ↔
      (c, place) ∈ R) ∧
    (∀ c, (∃ view, s.classForConstructor c = .ok view) ↔ ∃ place, (c, place) ∈ R) ∧
    (∀ c place, (c, place) ∈ R → ∃ view, s.classForConstructor c = .ok view ∧
      s.libraries.get? place.1 = some view.library ∧
      view.library.typeAt? place.2 = some view ∧ view.node.slot = place.2 ∧
      view.node.kind.isClass = true ∧ view.constructor? = some c) ∧
    ∀ step : Step, ((∃ e, (step.perform s).1 = .error e) ↔ step.outcome s = .failed) ∧
      (step.outcome s = .failed → (step.perform s).2 = s) := by
  intro s R
  have hs : s.Represents R := represents_run represents_empty steps
  refine ⟨hs.isOneToOne, fun _ _ => hs.bindings, ?_, ?_, ?_, ?_⟩
  · intro c place
    rw [← hs.owners, owner?, Option.bind_eq_bind, Option.bind_eq_some_iff]
  · intro c
    obtain ⟨hnone, he⟩ | ⟨place, view, hb, hview, -⟩ := hs.classForConstructor_cases c
    · constructor
      · rintro ⟨view, hview⟩
        rw [he] at hview
        cases hview
      · rintro ⟨place, hb⟩
        exact absurd hb (hnone place)
    · exact ⟨fun _ => ⟨place, hb⟩, fun _ => ⟨view, hview⟩⟩
  · intro c place hb
    obtain ⟨hnone, -⟩ | ⟨place', view, hb', hview⟩ := hs.classForConstructor_cases c
    · exact absurd hb (hnone place)
    · -- the class that is found is this one, as `c` has no other
      cases hs.isOneToOne.place_unique hb hb'
      exact ⟨view, hview⟩
  · intro step
    have ha := agrees_step hs step
    exact ⟨ha.error_iff, ha.eq_of_failed⟩

/-- A table of two classes in one package. -/
def pair : MetadataTable where
  library := defaultLibrary
  slotCount := 2
  intrinsics := Intrinsic.all
  packages := .ofList [("p", .ofList [("A", ⟨0⟩), ("B", ⟨1⟩)])]
  populations := [⟨⟨1⟩, some "B", .classNode .empty [] none []⟩,
    ⟨⟨0⟩, some "A", .classNode .empty [] none []⟩]

/-- The second constructor of a class takes it from the first, which then moves on, though the
types of both go by one name. -/
example :
    let s := empty.run [.load pair, .register ⟨"C", 0⟩ "p#A", .register ⟨"C", 1⟩ "p#A",
      .register ⟨"E"⟩ "p#Q", .register ⟨"C", 0⟩ "p#B"]
    s.bindings.get? ⟨"C", 0⟩ = some (defaultLibrary, ⟨1⟩) ∧
      s.bindings.get? ⟨"C", 1⟩ = some (defaultLibrary, ⟨0⟩) ∧ s.bindings.get? ⟨"E"⟩ = none := by
  decide +kernel

end Shelf

end TypeCatalog
