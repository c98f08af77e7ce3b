/-
Programs are built in steps.

A `BuilderStep` is one thing that a builder can be asked for, and a `BuilderEvent` says what
has been done then.  A step is not possible if its scope leads to no namespace
(`ProgramBuilder.perform?`); a run of steps keeps the log of all that has been done
(`ProgramBuilder.run?`).  From the log it can be told which scopes have been handed out
(`BuilderLog.scopes`) and what has been added to each of them, in order
(`BuilderLog.additionsTo`).
-/
import TypeCatalog.Program.Builder

namespace TypeCatalog

/-- A step that makes a type or fills one in. -/
inductive TypeStep where
  | add (data : TypeData)
  | arrayInterface
  | arrayOf (element : TypeHandle)
  | member (owner : TypeHandle) (member : HostMember)
  | method (owner : TypeHandle) (name : String) (signatures : List HostSignature)
  | static (owner : TypeHandle) (name : String) (type : TypeHandle)
  | signature (owner : TypeHandle) (kind : SignatureKind) (signature : HostSignature)
  | heritage (owner : TypeHandle) (kind : HeritageKind) (base : TypeHandle)
  | typeParameters (owner : TypeHandle) (parameters : List TypeHandle)
  | arrayLike (owner : TypeHandle) (arrayLike : Bool)

/-- A step in building a program. -/
inductive BuilderStep where
  | type (step : TypeStep)
  | file (name : String)
  | nameSpace (parent : Scope) (name : String)
  | declare (scope : Scope) (type : TypeHandle)
  | declareUnnamedClass (scope : Scope) (type : TypeHandle)
  | declareAlias (scope : Scope) (name : String) (type : TypeHandle)
  | other (scope : Scope)

/-- What has been added to a scope: a statement, or a namespace with a scope of its own. -/
inductive Addition where
  | own (statement : Statement)
  | opened (name : String) (scope : Scope)

/-- What has been done in a step. -/
inductive BuilderEvent where
  /-- A type has been filled in, or made and handed out. -/
  | type (made : Option TypeHandle)
  | file (name : String) (scope : Scope)
  | added (scope : Scope) (addition : Addition)

/-- What has been done in a run, in order. -/
abbrev BuilderLog := List BuilderEvent

/-- The types that a step puts into a type that it makes or fills in. -/
def TypeStep.handles : TypeStep → List TypeHandle
  | .add data => data.handles
  | .arrayInterface => []
  | .arrayOf element => [element]
  | .member _ added => [added.valueType]
  | .method _ _ signatures => signatures.flatMap HostSignature.handles
  | .static _ _ type => [type]
  | .signature _ _ added => added.handles
  | .heritage _ _ base => [base]
  | .typeParameters _ parameters => parameters
  | .arrayLike _ _ => []

namespace BuilderStep

/-- The types that a step is given to refer to. -/
def handles : BuilderStep → List TypeHandle
  | .type step => step.handles
  | .declare _ declared => [declared]
  | .declareUnnamedClass _ declared => [declared]
  | .declareAlias _ _ declared => [declared]
  | _ => []

/-- The scope to which a step adds something. -/
def scope? : BuilderStep → Option Scope
  | .type _ | .file _ => none
  | nameSpace parent _ => some parent
  | declare scope _ => some scope
  | declareUnnamedClass scope _ => some scope
  | declareAlias scope _ _ => some scope
  | other scope => some scope

end BuilderStep

namespace BuilderEvent

/-- The type that has been handed out. -/
def type? : BuilderEvent → Option TypeHandle
  | type made => made
  | _ => none

/-- The file that has been opened, and its scope. -/
def file? : BuilderEvent → Option (String × Scope)
  | file name scope => some (name, scope)
  | _ => none

/-- The scope that has been handed out. -/
def scope? : BuilderEvent → Option Scope
  | file _ scope => some scope
  | added _ (.opened _ scope) => some scope
  | _ => none

/-- What has been added to a scope. -/
def additionTo? (scope : Scope) : BuilderEvent → Option Addition
  | added scope' addition => if scope' = scope then some addition else none
  | _ => none

end BuilderEvent

namespace BuilderLog

/-- The types that have been handed out. -/
def types (log : BuilderLog) : List TypeHandle := log.filterMap BuilderEvent.type?

/-- The files that have been opened. -/
def files (log : BuilderLog) : List (String × Scope) := log.filterMap BuilderEvent.file?

/-- The scopes that have been handed out. -/
def scopes (log : BuilderLog) : List Scope := log.filterMap BuilderEvent.scope?

/-- What has been added to a scope. -/
def additionsTo (log : BuilderLog) (scope : Scope) : List Addition :=
  log.filterMap (BuilderEvent.additionTo? scope)

variable {log : BuilderLog} {event : BuilderEvent}

/-- What a last event tells comes last. -/
theorem filterMap_concat {α : Type} (f : BuilderEvent → Option α) :
    (log ++ [event]).filterMap f = log.filterMap f ++ (f event).toList := by
  rw [List.filterMap_append]
  cases h : f event <;> simp [h]

theorem types_concat : types (log ++ [event]) = types log ++ event.type?.toList :=
  filterMap_concat _

theorem files_concat : files (log ++ [event]) = files log ++ event.file?.toList :=
  filterMap_concat _

theorem scopes_concat : scopes (log ++ [event]) = scopes log ++ event.scope?.toList :=
  filterMap_concat _

theorem additionsTo_concat (scope : Scope) :
    additionsTo (log ++ [event]) scope
      = additionsTo log scope ++ (event.additionTo? scope).toList :=
  filterMap_concat _

end BuilderLog

namespace ProgramBuilder

/-- Makes a type or fills one in; gives the type that has been made. -/
def performType (b : ProgramBuilder) : TypeStep → Option TypeHandle × ProgramBuilder
  | .add data => (b.add data).map some id
  | .arrayInterface => b.arrayInterface.map some id
  | .arrayOf element => (b.addArrayOf element).map some id
  | .member owner member => (none, b.addMember owner member)
  | .method owner name signatures => (b.addMethod owner name signatures).map some id
  | .static owner name type => (none, b.addStatic owner name type)
  | .signature owner kind signature => (none, b.addSignature owner kind signature)
  | .heritage owner kind base => (none, b.addHeritage owner kind base)
  | .typeParameters owner parameters => (none, b.addTypeParameters owner parameters)
  | .arrayLike owner arrayLike => (none, b.setArrayLike owner arrayLike)

/-- Takes a step. -/
def perform (b : ProgramBuilder) : BuilderStep → BuilderEvent × ProgramBuilder
  | .type step => (b.performType step).map .type id
  | .file name => (b.openFile name).map (.file name) id
  | .nameSpace parent name =>
    (b.openNamespace parent name).map (fun scope => .added parent (.opened name scope)) id
  | .declare scope type =>
    (b.declare scope type).map (fun decl => .added scope (.own (b.statementFor type decl))) id
  | .declareUnnamedClass scope type =>
    (b.declareUnnamedClass scope type).map
      (fun decl => .added scope (.own (.classDeclaration decl none))) id
  | .declareAlias scope name type =>
    (b.declareAlias scope name type).map
      (fun decl => .added scope (.own (.typeAlias decl name))) id
  | .other scope => (.added scope (.own .other), b.addOther scope)

/-- Takes a step, unless its scope leads to no namespace. -/
def perform? (b : ProgramBuilder) (step : BuilderStep) : Option (BuilderEvent × ProgramBuilder) :=
  if ∀ scope ∈ step.scope?, (b.statements? scope).isSome then some (b.perform step) else none

/-- Takes one more step of a run. -/
def advance? (state : BuilderLog × ProgramBuilder) (step : BuilderStep) :
    Option (BuilderLog × ProgramBuilder) :=
  (state.2.perform? step).map fun done => (state.1 ++ [done.1], done.2)

/-- Takes steps one after the other, from the beginning. -/
def run? (steps : List BuilderStep) : Option (BuilderLog × ProgramBuilder) :=
  steps.foldlM advance? ([], new)

/-- Steps that use no scopes but those that have been handed out before. -/
def UsesOwnScopes (steps : List BuilderStep) : Prop :=
  ∀ i (h : i < steps.length), ∀ state ∈ run? (steps.take i), ∀ scope ∈ steps[i].scope?,
    scope ∈ state.1.scopes

instance : DecidablePred UsesOwnScopes := fun steps =>
  inferInstanceAs (Decidable (∀ i (h : i < steps.length), ∀ state ∈ run? (steps.take i),
    ∀ scope ∈ steps[i].scope?, scope ∈ state.1.scopes))

/-! ### What steps leave alone -/

variable (b : ProgramBuilder) (owner : TypeHandle) (f : ObjectShape → ObjectShape)

theorem editShape_leaves :
    (b.editShape owner f).files = b.files
      ∧ (b.editShape owner f).declarations = b.declarations := by
  unfold editShape
  split <;> exact ⟨rfl, rfl⟩

theorem arrayInterface_leaves :
    b.arrayInterface.2.files = b.files ∧ b.arrayInterface.2.declarations = b.declarations := by
  unfold arrayInterface
  split
  · exact ⟨rfl, rfl⟩
  · obtain ⟨hfiles, hdeclarations⟩ := editShape_leaves _ _ _
    exact ⟨hfiles.trans (editShape_leaves _ _ _).1,
      hdeclarations.trans (editShape_leaves _ _ _).2⟩

/-- A step that makes a type or fills one in leaves files and declarations alone. -/
theorem performType_leaves (step : TypeStep) :
    (b.performType step).2.files = b.files
      ∧ (b.performType step).2.declarations = b.declarations := by
  cases step with
  | add data => exact ⟨rfl, rfl⟩
  | arrayInterface => exact b.arrayInterface_leaves
  | arrayOf element => exact b.arrayInterface_leaves
  | _ => exact editShape_leaves _ _ _

/-! ### Runs -/

theorem run?_concat (steps : List BuilderStep) (step : BuilderStep) :
    run? (steps ++ [step]) = (run? steps).bind fun state => advance? state step := by
  rw [run?, List.foldlM_append, run?]
  cases steps.foldlM advance? ([], new) with
  | none => rfl
  | some state => exact bind_pure (m := Option) _

theorem UsesOwnScopes.of_concat {steps : List BuilderStep} {step : BuilderStep}
    (h : UsesOwnScopes (steps ++ [step])) :
    UsesOwnScopes steps
      ∧ ∀ state ∈ run? steps, ∀ scope ∈ step.scope?, scope ∈ state.1.scopes := by
  constructor
  · intro i hi
    have hown := h i (by rw [List.length_append]; omega)
    rwa [List.take_append_of_le_length (Nat.le_of_lt hi), List.getElem_append_left hi] at hown
  · have hown := h steps.length (by simp)
    rwa [List.take_left', List.getElem_concat_length] at hown <;> rfl

end ProgramBuilder

end TypeCatalog
