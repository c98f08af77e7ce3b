/-
What is built in steps is a program.

Every type that a builder holds refers to types that it has made or that it was given
(`ProgramBuilder.RefersTo`), and every statement names a declaration that it has made.  So
the parts are supplied as soon as all types that were given are primitive or have been handed
out, and building succeeds (`ProgramBuilder.exists_build_eq`).  With what the log tells about
scopes this says what building in steps comes to
(`ProgramBuilder.exists_run?_of_usesOwnScopes`).
-/
import TypeCatalog.Proofs.Program.Scopes
import TypeCatalog.Proofs.Program.Supplied

namespace TypeCatalog

/-- What is added at the end of a path names no other declarations. -/
theorem Statement.mem_listDeclarations_addAt {statement : Statement} {path : List Nat}
    {statements : List Statement} {d : DeclId}
    (hd : d ∈ listDeclarations (addAt statement path statements)) :
    d ∈ listDeclarations statements ∨ d ∈ statement.declarations := by
  induction path generalizing statements with
  | nil =>
    rw [addAt, listDeclarations_eq_flatMap, List.flatMap_append, List.mem_append,
      ← listDeclarations_eq_flatMap] at hd
    simpa using hd
  | cons i path ih =>
    rw [addAt] at hd
    split at hd
    · rename_i name inner hi
      rw [listDeclarations_eq_flatMap, List.mem_flatMap] at hd ⊢
      obtain ⟨s, hs, hd⟩ := hd
      rcases List.mem_or_eq_of_mem_set hs with hs | rfl
      · exact .inl ⟨s, hs, hd⟩
      · rw [declarations] at hd
        refine (ih hd).imp_left fun hinner => ⟨_, List.mem_of_getElem? hi, ?_⟩
        rwa [declarations]
    · exact .inl hd

namespace ProgramBuilder

variable {given : TypeHandle → Prop} {b b' : ProgramBuilder} {t : TypeHandle} {data : TypeData}
  {log : BuilderLog} {steps : List BuilderStep}

/-- A primitive type, or one that has been made. -/
def Has (b : ProgramBuilder) (t : TypeHandle) : Prop := t.index < Intrinsic.count + b.types.length

theorem Has.mono (h : b.Has t) (hle : b.types.length ≤ b'.types.length) : b'.Has t :=
  Nat.lt_of_lt_of_le h (Nat.add_le_add_left hle _)

theorem has_handle (b : ProgramBuilder) (k : Intrinsic) : b.Has k.handle := by
  have hlt : k.position < Intrinsic.count := by cases k <;> decide
  exact Nat.lt_of_lt_of_le hlt (Nat.le_add_right _ _)

theorem has_add (b : ProgramBuilder) (data : TypeData) : (b.add data).2.Has (b.add data).1 := by
  simp [Has, add]

theorem length_add (b : ProgramBuilder) (data : TypeData) :
    b.types.length ≤ (b.add data).2.types.length := by
  simp [add]

theorem length_editShape (b : ProgramBuilder) (owner : TypeHandle)
    (f : ObjectShape → ObjectShape) : (b.editShape owner f).types.length = b.types.length := by
  unfold editShape
  split
  · exact List.length_set
  · rfl

theorem mem_of_object? {owner : TypeHandle} {form : ObjectForm} {shape : ObjectShape}
    (h : b.object? owner = some (form, shape)) : .object form shape ∈ b.types := by
  unfold object? at h
  split at h
  · cases h
  split at h
  · rename_i hget
    cases h
    exact List.mem_of_getElem? hget
  · cases h

/-! ### Types -/

/-- The types that occur are there or were given. -/
structure RefersTo (given : TypeHandle → Prop) (b : ProgramBuilder) : Prop where
  types : ∀ data ∈ b.types, ∀ t ∈ data.handles, given t ∨ b.Has t
  array : ∀ t, b.array = some t → b.Has t

namespace RefersTo

theorem add (h : RefersTo given b)
    (hdata : ∀ t ∈ data.handles, given t ∨ (b.add data).2.Has t) :
    RefersTo given (b.add data).2 where
  types data' hmem t ht := by
    rcases List.mem_append.mp hmem with hmem | hmem
    · exact (h.types data' hmem t ht).imp_right fun hhas => hhas.mono (b.length_add data)
    · rw [List.mem_singleton.mp hmem] at ht
      exact hdata t ht
  array t ht := (h.array t ht).mono (b.length_add data)

/-- A shape that is changed may refer to what is added to it. -/
theorem editShape (h : RefersTo given b) (owner : TypeHandle) {f : ObjectShape → ObjectShape}
    (added : List TypeHandle) (hf : ∀ shape, ∀ t ∈ (f shape).handles, t ∈ shape.handles ∨ t ∈ added)
    (hadded : ∀ t ∈ added, given t ∨ b.Has t) : RefersTo given (b.editShape owner f) := by
  have hlength := b.length_editShape owner f
  have hmono : ∀ {t}, b.Has t → (b.editShape owner f).Has t := fun hhas =>
    hhas.mono (Nat.le_of_eq hlength.symm)
  refine ⟨fun data hmem t ht => Or.imp_right hmono ?_, fun t ht => hmono (h.array t ?_)⟩
  · unfold ProgramBuilder.editShape at hmem
    split at hmem
    · rename_i form shape hobject
      rcases List.mem_or_eq_of_mem_set hmem with hmem | rfl
      · exact h.types data hmem t ht
      · exact (hf shape t ht).elim (h.types _ (mem_of_object? hobject) t) (hadded t)
    · exact h.types data hmem t ht
  · unfold ProgramBuilder.editShape at ht
    split at ht <;> exact ht

theorem addMember (h : RefersTo given b) (owner : TypeHandle) {member : HostMember}
    (hmember : given member.valueType ∨ b.Has member.valueType) :
    RefersTo given (b.addMember owner member) := by
  refine h.editShape owner [member.valueType] (fun shape t ht => ?_) (by simpa using hmember)
  simp only [ObjectShape.handles, List.map_append, List.mem_append, List.map_cons,
    List.map_nil] at ht ⊢
  tauto

theorem addTypeParameters (h : RefersTo given b) (owner : TypeHandle) {added : List TypeHandle}
    (hadded : ∀ t ∈ added, given t ∨ b.Has t) :
    RefersTo given (b.addTypeParameters owner added) := by
  refine h.editShape owner added (fun shape t ht => ?_) hadded
  simp only [ObjectShape.handles, List.mem_append] at ht ⊢
  tauto

theorem addStatic (h : RefersTo given b) (owner : TypeHandle) (name : String)
    (ht : given t) : RefersTo given (b.addStatic owner name t) := by
  refine h.editShape owner [t] (fun shape t ht => ?_) (by simp [ht])
  simp only [ObjectShape.handles, List.map_append, List.mem_append, List.map_cons,
    List.map_nil] at ht ⊢
  tauto

theorem addSignature (h : RefersTo given b) (owner : TypeHandle) (kind : SignatureKind)
    {signature : HostSignature} (hsignature : ∀ t ∈ signature.handles, given t) :
    RefersTo given (b.addSignature owner kind signature) := by
  refine h.editShape owner signature.handles (fun shape t ht => ?_) fun t ht =>
    .inl (hsignature t ht)
  cases kind <;>
    simp only [ObjectShape.handles, List.flatMap_append, List.mem_append, List.flatMap_cons,
      List.flatMap_nil, List.append_nil] at ht ⊢ <;>
    tauto

theorem addHeritage (h : RefersTo given b) (owner : TypeHandle) (kind : HeritageKind)
    (ht : given t) : RefersTo given (b.addHeritage owner kind t) := by
  refine h.editShape owner [t] (fun shape t ht => ?_) (by simp [ht])
  cases kind <;>
    simp only [ObjectShape.handles, List.mem_append] at ht ⊢ <;>
    tauto

theorem setArrayLike (h : RefersTo given b) (owner : TypeHandle) (arrayLike : Bool) :
    RefersTo given (b.setArrayLike owner arrayLike) :=
  h.editShape owner [] (fun _ _ ht => .inl ht) nofun

/-- The interface of arrays refers to its own parameter and to numbers. -/
theorem arrayInterface (h : RefersTo given b) :
    RefersTo given b.arrayInterface.2 ∧ b.arrayInterface.2.Has b.arrayInterface.1
      ∧ b.types.length ≤ b.arrayInterface.2.types.length := by
  cases harray : b.array with
  | some array =>
    have heq : b.arrayInterface = (array, b) := by rw [ProgramBuilder.arrayInterface, harray]
    rw [heq]
    exact ⟨h, h.array array harray, Nat.le_refl _⟩
  | none =>
    -- the parameter and the interface are made, and then the interface is filled in
    let element := b.add (.typeParameter "T" none)
    let array := element.2.addInterface "Array"
    let filled := (array.2.addTypeParameters array.1 [element.1]).addProperty array.1 "length"
      Intrinsic.number.handle false
    have heq : b.arrayInterface = (array.1, { filled with array := some array.1 }) := by
      rw [ProgramBuilder.arrayInterface, harray]
      rfl
    have hlength : filled.types.length = array.2.types.length :=
      (length_editShape _ _ _).trans (length_editShape _ _ _)
    have helement : array.2.Has element.1 := (b.has_add _).mono (element.2.length_add _)
    have hparameter : RefersTo given element.2 := h.add fun t ht => by cases ht
    have hempty : RefersTo given array.2 := hparameter.add fun t ht => by cases ht
    have hfilled : RefersTo given filled :=
      (hempty.addTypeParameters array.1 (by simp [helement])).addMember array.1
        (.inr (has_handle _ _))
    have hmade : filled.Has array.1 := (element.2.has_add _).mono (Nat.le_of_eq hlength.symm)
    rw [heq]
    refine ⟨⟨hfilled.types, fun t ht => ?_⟩, hmade, ?_⟩
    · obtain rfl : array.1 = t := Option.some.inj ht
      exact hmade
    · calc b.types.length ≤ element.2.types.length := b.length_add _
        _ ≤ array.2.types.length := element.2.length_add _
        _ = filled.types.length := hlength.symm

/-- A step refers to what it was given, and what it hands out is there. -/
theorem performType (h : RefersTo given b) {step : TypeStep}
    (hgiven : ∀ t ∈ step.handles, given t) :
    RefersTo given (b.performType step).2
      ∧ (∀ t ∈ (b.performType step).1, (b.performType step).2.Has t)
      ∧ b.types.length ≤ (b.performType step).2.types.length := by
  have hle : ∀ owner f, b.types.length ≤ (b.editShape owner f).types.length := fun owner f =>
    Nat.le_of_eq (b.length_editShape owner f).symm
  cases step with
  | add data =>
    refine ⟨h.add fun t ht => .inl (hgiven t ht), fun t ht => ?_, b.length_add data⟩
    cases ht
    exact b.has_add data
  | arrayInterface =>
    obtain ⟨hrefers, hhas, hlength⟩ := h.arrayInterface
    refine ⟨hrefers, fun t ht => ?_, hlength⟩
    cases ht
    exact hhas
  | arrayOf element =>
    obtain ⟨hrefers, hhas, hlength⟩ := h.arrayInterface
    refine ⟨hrefers.add fun t ht => ?_, fun t ht => ?_, Nat.le_trans hlength (length_add _ _)⟩
    · rcases List.mem_cons.mp ht with rfl | ht
      · exact .inr (hhas.mono (length_add _ _))
      · exact .inl (hgiven t ht)
    · cases ht
      exact has_add _ _
  | member owner added =>
    exact ⟨h.addMember owner (.inl (hgiven _ List.mem_cons_self)), nofun, hle _ _⟩
  | method owner name signatures =>
    have hhas := b.has_add (.function (some name) signatures)
    have hfunction : RefersTo given (b.add (.function (some name) signatures)).2 :=
      h.add fun t ht => .inl (hgiven t ht)
    refine ⟨hfunction.addMember owner (.inr hhas), fun t ht => ?_, ?_⟩
    · cases ht
      exact hhas.mono (Nat.le_of_eq (length_editShape _ _ _).symm)
    · exact Nat.le_trans (b.length_add _) (Nat.le_of_eq (length_editShape _ _ _).symm)
  | static owner name type =>
    exact ⟨h.addStatic owner name (hgiven _ List.mem_cons_self), nofun, hle _ _⟩
  | signature owner kind signature => exact ⟨h.addSignature owner kind hgiven, nofun, hle _ _⟩
  | heritage owner kind base =>
    exact ⟨h.addHeritage owner kind (hgiven _ List.mem_cons_self), nofun, hle _ _⟩
  | typeParameters owner parameters =>
    exact ⟨h.addTypeParameters owner fun t ht => .inl (hgiven t ht), nofun, hle _ _⟩
  | arrayLike owner arrayLike => exact ⟨h.setArrayLike owner arrayLike, nofun, hle _ _⟩

end RefersTo

/-! ### Declarations -/

/-- The declarations that statements name are there, and they are of types that were given. -/
structure Declares (given : TypeHandle → Prop) (b : ProgramBuilder) : Prop where
  declarations : ∀ t ∈ b.declarations, given t
  statements : ∀ file ∈ b.files, ∀ d ∈ Statement.listDeclarations file.statements,
    d.index < b.declarations.length

namespace Declares

theorem congr (h : Declares given b) (hfiles : b'.files = b.files)
    (hdeclarations : b'.declarations = b.declarations) : Declares given b' where
  declarations := by
    rw [hdeclarations]
    exact h.declarations
  statements := by
    rw [hdeclarations, hfiles]
    exact h.statements

theorem openFile (h : Declares given b) (name : String) :
    Declares given (b.openFile name).2 where
  declarations := h.declarations
  statements file hmem d hd := by
    rcases List.mem_append.mp hmem with hmem | hmem
    · exact h.statements file hmem d hd
    · rw [List.mem_singleton.mp hmem] at hd
      cases hd

theorem addStatement (h : Declares given b) (scope : Scope) {statement : Statement}
    (hstatement : ∀ d ∈ statement.declarations, d.index < b.declarations.length) :
    Declares given (b.addStatement scope statement) where
  declarations := h.declarations
  statements file hmem d hd := by
    obtain ⟨i, hi⟩ := List.mem_iff_getElem?.mp hmem
    rw [ProgramBuilder.addStatement, List.getElem?_modify] at hi
    obtain ⟨file', hfile', rfl⟩ := Option.map_eq_some_iff.mp hi
    have hold := h.statements file' (List.mem_of_getElem? hfile') d
    split at hd
    · exact (Statement.mem_listDeclarations_addAt hd).elim hold (hstatement d)
    · exact hold hd

theorem addDeclaration (h : Declares given b) (ht : given t) :
    Declares given (b.addDeclaration t).2 where
  declarations := List.forall_mem_append.mpr ⟨h.declarations, List.forall_mem_singleton.mpr ht⟩
  statements file hmem d hd := by
    have hold := h.statements file hmem d hd
    rw [ProgramBuilder.addDeclaration, List.length_append]
    omega

/-- A declaration that has just been made may be named. -/
theorem addStatement_last (h : Declares given b) (ht : given t) (scope : Scope)
    {statement : Statement} (hstatement : ∀ d ∈ statement.declarations,
      d = (b.addDeclaration t).1) :
    Declares given ((b.addDeclaration t).2.addStatement scope statement) := by
  refine (h.addDeclaration ht).addStatement scope fun d hd => ?_
  rw [hstatement d hd, ProgramBuilder.addDeclaration, List.length_append]
  exact Nat.lt_succ_self _

end Declares

theorem eq_of_mem_declarations_statementFor {decl d : DeclId}
    (hd : d ∈ (b.statementFor t decl).declarations) : d = decl := by
  unfold statementFor at hd
  split at hd
  · exact List.mem_singleton.mp hd
  · exact List.mem_singleton.mp hd
  · exact List.mem_singleton.mp hd
  · cases hd

/-! ### Runs -/

/-- All that a builder holds is there or was given, and so is all that it has handed out. -/
structure IsSound (given : TypeHandle → Prop) (log : BuilderLog) (b : ProgramBuilder) : Prop where
  refers : RefersTo given b
  declares : Declares given b
  handed : ∀ t ∈ log.types, b.Has t

namespace IsSound

theorem new (given : TypeHandle → Prop) : IsSound given [] .new :=
  ⟨⟨nofun, nofun⟩, ⟨nofun, nofun⟩, nofun⟩

/-- A step that makes no type keeps the types. -/
theorem concat {event : BuilderEvent} (h : IsSound given log b) (htypes : b'.types = b.types)
    (harray : b'.array = b.array) (hevent : event.type? = none) (hdeclares : Declares given b') :
    IsSound given (log ++ [event]) b' where
  refers := by
    refine ⟨fun data hdata t ht => ?_, fun t ht => ?_⟩
    · rw [Has, htypes]
      exact h.refers.types data (htypes ▸ hdata) t ht
    · rw [Has, htypes]
      exact h.refers.array t (harray ▸ ht)
  declares := hdeclares
  handed t ht := by
    rw [BuilderLog.types_concat, hevent] at ht
    rw [Has, htypes]
    exact h.handed t (by simpa using ht)

theorem perform (h : IsSound given log b) {step : BuilderStep}
    (hgiven : ∀ t ∈ step.handles, given t) :
    IsSound given (log ++ [(b.perform step).1]) (b.perform step).2 := by
  cases step with
  | type step =>
    obtain ⟨hrefers, hmade, hlength⟩ := h.refers.performType hgiven
    obtain ⟨hfiles, hdeclarations⟩ := b.performType_leaves step
    refine ⟨hrefers, h.declares.congr hfiles hdeclarations, fun t ht => ?_⟩
    rw [BuilderLog.types_concat, List.mem_append, Option.mem_toList] at ht
    exact ht.elim (fun ht => (h.handed t ht).mono hlength) (hmade t)
  | file name => exact h.concat rfl rfl rfl (h.declares.openFile name)
  | nameSpace parent name =>
    exact h.concat rfl rfl rfl (h.declares.addStatement parent fun d hd => by cases hd)
  | declare scope type =>
    exact h.concat rfl rfl rfl (h.declares.addStatement_last (hgiven type List.mem_cons_self) scope
      fun d hd => eq_of_mem_declarations_statementFor hd)
  | declareUnnamedClass scope type =>
    exact h.concat rfl rfl rfl (h.declares.addStatement_last (hgiven type List.mem_cons_self) scope
      fun d hd => List.mem_singleton.mp hd)
  | declareAlias scope name type =>
    exact h.concat rfl rfl rfl (h.declares.addStatement_last (hgiven type List.mem_cons_self) scope
      fun d hd => List.mem_singleton.mp hd)
  | other scope =>
    exact h.concat rfl rfl rfl (h.declares.addStatement scope fun d hd => by cases hd)

/-- A run that was given some types is sound for them. -/
theorem of_run? (hrun : run? steps = some (log, b))
    (hgiven : ∀ step ∈ steps, ∀ t ∈ step.handles, given t) : IsSound given log b := by
  induction steps using List.reverseRecOn generalizing log b with
  | nil =>
    cases hrun
    exact .new given
  | append_singleton steps step ih =>
    rw [List.forall_mem_append, List.forall_mem_singleton] at hgiven
    rw [run?_concat] at hrun
    obtain ⟨⟨log', b'⟩, hbefore, hstep⟩ := Option.bind_eq_some_iff.mp hrun
    obtain ⟨done, hdone, heq⟩ := Option.map_eq_some_iff.mp hstep
    obtain rfl := Option.some.inj (Option.ite_none_right_eq_some.mp hdone).2
    cases heq
    exact (ih hbefore hgiven.1).perform hgiven.2

end IsSound

/-- Building succeeds if all types that were given are primitive or have been handed out. -/
theorem exists_build_eq (hrun : run? steps = some (log, b))
    (hgiven : ∀ step ∈ steps, ∀ t ∈ step.handles, (∃ k : Intrinsic, t = k.handle) ∨ t ∈ log.types) :
    ∃ p, b.build = .ok p := by
  have hsound := IsSound.of_run? hrun hgiven
  have hhas : ∀ t, (∃ k : Intrinsic, t = k.handle) ∨ t ∈ log.types → b.Has t := by
    rintro t (⟨k, rfl⟩ | ht)
    · exact b.has_handle k
    · exact hsound.handed t ht
  have hlength : (TypeData.intrinsics ++ b.types).length = Intrinsic.count + b.types.length := by
    rw [List.length_append]
    rfl
  refine Program.ofParts?_ok_iff.mpr ⟨fun data hdata t ht => ?_, fun t ht => ?_, ?_⟩
  · rw [hlength]
    rw [← TypeData.mem_handles] at ht
    rcases List.mem_append.mp hdata with hdata | hdata
    · obtain ⟨k, -, rfl⟩ := List.mem_map.mp hdata
      cases ht
    · exact (hsound.refers.types data hdata t ht).elim (hhas t) id
  · rw [hlength]
    exact hhas t (hsound.declares.declarations t ht)
  · intro file hfile s hs d hd
    exact hsound.declares.statements file hfile d (Statement.mem_listDeclarations.mpr ⟨s, hs, hd⟩)

/-- Steps that use no scopes but those that have been handed out are all possible.  Then every
scope is another one, the files and the statements of every scope are what has been opened and
added, in order, and building succeeds if all types that were given are primitive or have been
handed out. -/
theorem exists_run?_of_usesOwnScopes (h : UsesOwnScopes steps) :
    ∃ log b, run? steps = some (log, b)
      ∧ log.scopes.Nodup
      ∧ List.Forall₂ (fun opened file => file.fileName = opened.1
          ∧ b.statements? opened.2 = some file.statements) log.files b.files
      ∧ (∀ scope, log.additionsTo scope ≠ [] → scope ∈ log.scopes)
      ∧ (∀ scope ∈ log.scopes, ∃ statements, b.statements? scope = some statements
          ∧ List.Forall₂ (Addition.Stands b) (log.additionsTo scope) statements)
      ∧ ((∀ step ∈ steps, ∀ t ∈ step.handles,
            (∃ k : Intrinsic, t = k.handle) ∨ t ∈ log.types) →
          ∃ p, b.build = .ok p) := by
  obtain ⟨log, b, hrun, hlog⟩ := exists_run?_chronicles h
  exact ⟨log, b, hrun, hlog.distinct, hlog.forall₂_files, hlog.owned, fun _ => hlog.stands,
    exists_build_eq hrun⟩

/-- Two files with namespaces that grow by turns, around an interface that refers to itself. -/
def interleaved : List BuilderStep :=
  [.file "a.ts", .type (.add (.object .interfaceForm (.named "Node"))), .file "b.ts",
    .nameSpace ⟨0, []⟩ "Outer", .declare ⟨1, []⟩ ⟨10⟩, .nameSpace ⟨0, [0]⟩ "Inner",
    .other ⟨0, []⟩, .declareAlias ⟨0, [0, 0]⟩ "Text" Intrinsic.string.handle,
    .type (.member ⟨10⟩ ⟨"next", .property, ⟨10⟩, false⟩), .nameSpace ⟨0, []⟩ "Outer",
    .type (.arrayOf ⟨10⟩), .declare ⟨0, [0]⟩ ⟨10⟩, .other ⟨0, [2]⟩]

theorem exists_run?_interleaved :
    UsesOwnScopes interleaved
      ∧ ∃ log b, run? interleaved = some (log, b)
        ∧ log.scopes = [⟨0, []⟩, ⟨1, []⟩, ⟨0, [0]⟩, ⟨0, [0, 0]⟩, ⟨0, [2]⟩]
        ∧ (∀ scope ∈ log.scopes, ∃ statements, b.statements? scope = some statements
          ∧ List.Forall₂ (Addition.Stands b) (log.additionsTo scope) statements)
        ∧ ∃ p, b.build = .ok p := by
  have hown : UsesOwnScopes interleaved := by decide +kernel
  obtain ⟨log, b, hrun, -, -, -, hstands, hbuild⟩ := exists_run?_of_usesOwnScopes hown
  have hscopes : ∀ state ∈ run? interleaved,
      state.1.scopes = [⟨0, []⟩, ⟨1, []⟩, ⟨0, [0]⟩, ⟨0, [0, 0]⟩, ⟨0, [2]⟩] := by decide +kernel
  have hgiven : ∀ state ∈ run? interleaved, ∀ step ∈ interleaved, ∀ t ∈ step.handles,
      t ∈ Intrinsic.all.map Intrinsic.handle ∨ t ∈ state.1.types := by decide +kernel
  refine ⟨hown, log, b, hrun, hscopes _ hrun, hstands, hbuild fun step hstep t ht => ?_⟩
  refine (hgiven _ hrun step hstep t ht).imp_left fun hmem => ?_
  obtain ⟨k, -, rfl⟩ := List.mem_map.mp hmem
  exact ⟨k, rfl⟩

end ProgramBuilder

end TypeCatalog
