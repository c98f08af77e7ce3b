/-
Scopes keep leading to their namespaces.

A scope is a path of places, and statements are only ever added behind others.  What a path
leads to is therefore changed by adding to that very path alone; elsewhere at most the
contents of a namespace grow, so that statements stay the same but for what is inside them
(`Statement.hollow`).  Every run that uses no scopes but its own is possible, and the log of
all that has been done tells what is in every scope that has been handed out
(`ProgramBuilder.exists_run?_chronicles`, `Chronicles.stands`).
-/
import Mathlib.Data.List.Forall2
import Mathlib.Data.List.Induction
import TypeCatalog.Proofs.Program.Steps

namespace TypeCatalog

/-! ### Paths of places -/

/-- A statement without what is inside it. -/
def Statement.hollow : Statement → Statement
  | nameSpace name _ => nameSpace name []
  | statement => statement

namespace Statement

variable {statement : Statement} {name : String} {path path' : List Nat}
  {statements inner inner' : List Statement}

/-- A statement that has nothing inside it. -/
def IsPlain (statement : Statement) : Prop := ∀ name inner, statement ≠ nameSpace name inner

theorem IsPlain.hollow (h : statement.IsPlain) : statement.hollow = statement := by
  cases statement with
  | nameSpace name inner => exact absurd rfl (h name inner)
  | _ => rfl

theorem IsPlain.eq_of_hollow_eq {whole : Statement} (h : statement.IsPlain)
    (heq : whole.hollow = statement) : whole = statement := by
  cases whole with
  | nameSpace name inner => exact absurd heq.symm (h name [])
  | _ => exact heq

theorem exists_of_hollow_eq_nameSpace (h : statement.hollow = nameSpace name inner) :
    ∃ contents, statement = nameSpace name contents := by
  cases statement with
  | nameSpace name' contents =>
    cases h
    exact ⟨contents, rfl⟩
  | _ => cases h

theorem statementsAt?_append (path rest : List Nat) (statements : List Statement) :
    statementsAt? (path ++ rest) statements
      = (statementsAt? path statements).bind (statementsAt? rest) := by
  induction path generalizing statements with
  | nil => rfl
  | cons i path ih =>
    rw [List.cons_append, statementsAt?, statementsAt?]
    split
    · exact ih _
    · rfl

theorem exists_of_statementsAt?_cons {i : Nat}
    (h : statementsAt? (i :: path) statements = some inner) :
    ∃ name contents, statements[i]? = some (nameSpace name contents)
      ∧ statementsAt? path contents = some inner := by
  rw [statementsAt?] at h
  split at h
  · exact ⟨_, _, ‹_›, h⟩
  · cases h

/-- What is added at the end of a path comes behind what has been there. -/
theorem statementsAt?_addAt_self (h : statementsAt? path statements = some inner) :
    statementsAt? path (addAt statement path statements) = some (inner ++ [statement]) := by
  induction path generalizing statements with
  | nil =>
    cases h
    rfl
  | cons i path ih =>
    obtain ⟨name, contents, hi, hpath⟩ := exists_of_statementsAt?_cons h
    obtain ⟨hlt, -⟩ := List.getElem?_eq_some_iff.mp hi
    simp only [addAt, hi, statementsAt?, List.getElem?_set_self hlt]
    exact ih hpath

/-- Adding to another path changes at most what is inside the statements of a path. -/
theorem hollow_statementsAt?_addAt (h : statementsAt? path statements = some inner)
    (h' : statementsAt? path' statements = some inner') (hne : path' ≠ path) :
    (statementsAt? path' (addAt statement path statements)).map (List.map hollow)
      = some (inner'.map hollow) := by
  induction path generalizing path' statements with
  | nil =>
    -- what is added stands behind all places that a path can lead through
    obtain ⟨i, rest, rfl⟩ := List.exists_cons_of_ne_nil hne
    obtain ⟨name, contents, hi, hrest⟩ := exists_of_statementsAt?_cons h'
    obtain ⟨hlt, -⟩ := List.getElem?_eq_some_iff.mp hi
    simp only [addAt, statementsAt?, List.getElem?_append_left hlt, hi, hrest, Option.map_some]
  | cons i path ih =>
    obtain ⟨name, contents, hi, hpath⟩ := exists_of_statementsAt?_cons h
    obtain ⟨hlt, -⟩ := List.getElem?_eq_some_iff.mp hi
    simp only [addAt, hi]
    cases path' with
    | nil =>
      -- a namespace on the way is still the same namespace
      obtain rfl : statements = inner' := Option.some.inj h'
      rw [statementsAt?, Option.map_some, List.map_set, hollow]
      have hsame : (statements.map hollow)[i]? = some (nameSpace name []) := by
        rw [List.getElem?_map, hi]
        rfl
      obtain ⟨_, hget⟩ := List.getElem?_eq_some_iff.mp hsame
      rw [← hget, List.set_getElem_self]
    | cons j rest =>
      obtain ⟨name', contents', hj, hrest⟩ := exists_of_statementsAt?_cons h'
      by_cases hij : i = j
      · -- both paths lead into the same namespace, and part there
        subst hij
        cases hi.symm.trans hj
        simp only [statementsAt?, List.getElem?_set_self hlt]
        exact ih hpath hrest fun heq => hne (congrArg _ heq)
      · simp only [statementsAt?, List.getElem?_set_ne hij, hj, hrest, Option.map_some]

end Statement

/-! ### Scopes -/

/-- The scope of a namespace at a place inside another one. -/
def Scope.inside (scope : Scope) (place : Nat) : Scope := ⟨scope.file, scope.path ++ [place]⟩

theorem Scope.inside_ne_self (scope : Scope) (place : Nat) : scope.inside place ≠ scope := by
  intro h
  have hlength := congrArg (fun scope : Scope => scope.path.length) h
  simp [Scope.inside] at hlength

namespace ProgramBuilder

variable {b b' : ProgramBuilder} {scope scope' : Scope} {statement : Statement}
  {statements outline : List Statement} {name : String}

/-- The statements of a scope without what is inside them. -/
def outline? (b : ProgramBuilder) (scope : Scope) : Option (List Statement) :=
  (b.statements? scope).map (List.map Statement.hollow)

theorem statements?_congr (h : b'.files = b.files) (scope : Scope) :
    b'.statements? scope = b.statements? scope := by
  rw [statements?, statements?, h]

/-- A namespace is what stands at its place. -/
theorem statements?_inside {place : Nat} {contents : List Statement}
    (h : b.statements? scope = some statements)
    (hplace : statements[place]? = some (.nameSpace name contents)) :
    b.statements? (scope.inside place) = some contents := by
  obtain ⟨file, hfile, hpath⟩ := Option.bind_eq_some_iff.mp h
  refine Option.bind_eq_some_iff.mpr ⟨file, hfile, ?_⟩
  rw [Scope.inside, Statement.statementsAt?_append, hpath, Option.bind_some,
    Statement.statementsAt?, hplace]
  rfl

/-- Behind the last place there is no namespace yet. -/
theorem statements?_inside_length (h : b.statements? scope = some statements) :
    b.statements? (scope.inside statements.length) = none := by
  obtain ⟨file, hfile, hpath⟩ := Option.bind_eq_some_iff.mp h
  refine Option.bind_eq_none_iff.mpr fun file' hfile' => ?_
  cases hfile.symm.trans hfile'
  rw [Scope.inside, Statement.statementsAt?_append, hpath, Option.bind_some,
    Statement.statementsAt?, List.getElem?_eq_none (Nat.le_refl _)]

theorem statements?_addStatement_self (h : b.statements? scope = some statements)
    (statement : Statement) :
    (b.addStatement scope statement).statements? scope = some (statements ++ [statement]) := by
  obtain ⟨file, hfile, hpath⟩ := Option.bind_eq_some_iff.mp h
  rw [statements?, addStatement, List.getElem?_modify_eq, hfile]
  exact Statement.statementsAt?_addAt_self hpath

theorem outline?_addStatement_of_ne (h : b.statements? scope = some statements)
    (h' : b.outline? scope' = some outline) (hne : scope' ≠ scope) :
    (b.addStatement scope statement).outline? scope' = some outline := by
  obtain ⟨statements', hscope', rfl⟩ := Option.map_eq_some_iff.mp h'
  obtain ⟨file, hfile, hpath⟩ := Option.bind_eq_some_iff.mp h
  obtain ⟨file', hfile', hpath'⟩ := Option.bind_eq_some_iff.mp hscope'
  rw [outline?, statements?, addStatement]
  by_cases hsame : scope'.file = scope.file
  · rw [hsame] at hfile' ⊢
    cases hfile.symm.trans hfile'
    have hpaths : scope'.path ≠ scope.path := by
      intro heq
      cases scope
      cases scope'
      exact hne (Scope.mk.injEq .. ▸ ⟨hsame, heq⟩)
    rw [List.getElem?_modify_eq, hfile]
    exact Statement.hollow_statementsAt?_addAt hpath hpath' hpaths
  · rw [List.getElem?_modify_ne _ _ (Ne.symm hsame), hfile']
    exact congrArg (Option.map _) hpath'

/-- Adding to a scope is seen there and nowhere else. -/
theorem outline?_addStatement (h : b.statements? scope = some statements)
    (h' : b.outline? scope' = some outline) :
    (b.addStatement scope statement).outline? scope'
      = some (outline ++ if scope = scope' then [statement.hollow] else []) := by
  by_cases heq : scope = scope'
  · subst heq
    rw [outline?, h] at h'
    cases h'
    rw [if_pos rfl, outline?, statements?_addStatement_self h statement, Option.map_some,
      List.map_append]
    rfl
  · rw [if_neg heq, List.append_nil]
    exact outline?_addStatement_of_ne h h' (Ne.symm heq)

theorem fileNames_addStatement (b : ProgramBuilder) (scope : Scope) (statement : Statement) :
    (b.addStatement scope statement).files.map SourceFile.fileName
      = b.files.map SourceFile.fileName := by
  refine List.ext_getElem? fun i => ?_
  rw [addStatement, List.getElem?_map, List.getElem?_map, List.getElem?_modify]
  cases b.files[i]? with
  | none => rfl
  | some file => split <;> rfl

theorem statements?_openFile (h : b.statements? scope = some statements) (name : String) :
    (b.openFile name).2.statements? scope = some statements := by
  obtain ⟨file, hfile, hpath⟩ := Option.bind_eq_some_iff.mp h
  obtain ⟨hlt, -⟩ := List.getElem?_eq_some_iff.mp hfile
  refine Option.bind_eq_some_iff.mpr ⟨file, ?_, hpath⟩
  rw [openFile, List.getElem?_append_left hlt, hfile]

/-- A class, an interface or an alias has nothing inside it. -/
theorem isPlain_statementFor (b : ProgramBuilder) (type : TypeHandle) (decl : DeclId) :
    (b.statementFor type decl).IsPlain := by
  unfold statementFor
  split <;> nofun

end ProgramBuilder

/-! ### What the log tells -/

namespace Addition

/-- The statement with which an addition begins. -/
def statement : Addition → Statement
  | own statement => statement
  | opened name _ => .nameSpace name []

/-- An addition to a scope belongs at a place. -/
def Fits (scope : Scope) (place : Nat) : Addition → Prop
  | own statement => statement.IsPlain
  | opened _ inner => inner = scope.inside place

/-- A statement is what has been added; a namespace holds what its scope leads to. -/
inductive Stands (b : ProgramBuilder) : Addition → Statement → Prop where
  | own {statement : Statement} : Stands b (.own statement) statement
  | opened {name : String} {scope : Scope} {statements : List Statement}
      (leads : b.statements? scope = some statements) :
      Stands b (.opened name scope) (.nameSpace name statements)

variable {addition : Addition} {scope : Scope} {place : Nat}

theorem Fits.hollow (h : addition.Fits scope place) :
    addition.statement.hollow = addition.statement := by
  cases addition with
  | own statement => exact Statement.IsPlain.hollow h
  | opened name inner => rfl

end Addition

/-- A log tells what a builder holds. -/
structure Chronicles (log : BuilderLog) (b : ProgramBuilder) : Prop where
  files : log.files
    = (b.files.map SourceFile.fileName).zipIdx.map fun entry => (entry.1, ⟨entry.2, []⟩)
  outline : ∀ scope ∈ log.scopes,
    b.outline? scope = some ((log.additionsTo scope).map Addition.statement)
  owned : ∀ scope, log.additionsTo scope ≠ [] → scope ∈ log.scopes
  fits : ∀ (scope : Scope) (place : Nat) (addition : Addition),
    (log.additionsTo scope)[place]? = some addition → addition.Fits scope place
  distinct : log.scopes.Nodup

namespace Chronicles

variable {log : BuilderLog} {b b' : ProgramBuilder} {scope : Scope} {event : BuilderEvent}
  {statements : List Statement} {addition : Addition} {step : BuilderStep}

theorem new : Chronicles [] .new where
  files := rfl
  outline := nofun
  owned _ h := absurd rfl h
  fits := nofun
  distinct := List.nodup_nil

theorem exists_statements? (h : Chronicles log b) (hscope : scope ∈ log.scopes) :
    ∃ statements, b.statements? scope = some statements
      ∧ statements.map Statement.hollow = (log.additionsTo scope).map Addition.statement :=
  Option.map_eq_some_iff.mp (h.outline scope hscope)

theorem length_eq (h : Chronicles log b) (hscope : scope ∈ log.scopes)
    (hstatements : b.statements? scope = some statements) :
    statements.length = (log.additionsTo scope).length := by
  obtain ⟨statements', hstatements', hmap⟩ := h.exists_statements? hscope
  cases hstatements.symm.trans hstatements'
  simpa using congrArg List.length hmap

/-- A scope that leads nowhere is new. -/
theorem fresh (h : Chronicles log b) (hnone : b.statements? scope = none) :
    scope ∉ log.scopes ∧ log.additionsTo scope = [] := by
  have hscope : scope ∉ log.scopes := by
    intro hmem
    obtain ⟨statements, hsome, -⟩ := h.exists_statements? hmem
    cases hnone.symm.trans hsome
  exact ⟨hscope, by_contra fun hne => hscope (h.owned scope hne)⟩

/-! ### Steps -/

/-- One more event keeps what a log tells: the scopes that there are tell what it adds to them, a
scope that it hands out is new and empty, and what it adds fits where it is added. -/
theorem concat (h : Chronicles log b)
    (hfiles : BuilderLog.files (log ++ [event])
      = (b'.files.map SourceFile.fileName).zipIdx.map fun entry => (entry.1, ⟨entry.2, []⟩))
    (hkept : ∀ scope ∈ log.scopes, b'.outline? scope
      = some ((BuilderLog.additionsTo (log ++ [event]) scope).map Addition.statement))
    (hnew : ∀ scope, event.scope? = some scope → b.statements? scope = none
      ∧ b'.statements? scope = some [] ∧ event.additionTo? scope = none)
    (hadded : ∀ scope addition, event.additionTo? scope = some addition →
      scope ∈ log.scopes ∧ addition.Fits scope (log.additionsTo scope).length) :
    Chronicles (log ++ [event]) b' where
  files := hfiles
  outline scope hscope := by
    rw [BuilderLog.scopes_concat, List.mem_append, Option.mem_toList] at hscope
    rcases hscope with hscope | hscope
    · exact hkept scope hscope
    · obtain ⟨hnone, hempty, hadds⟩ := hnew scope hscope
      rw [ProgramBuilder.outline?, hempty, BuilderLog.additionsTo_concat, (h.fresh hnone).2, hadds]
      rfl
  owned scope hne := by
    rw [BuilderLog.scopes_concat]
    refine List.mem_append_left _ ?_
    rw [BuilderLog.additionsTo_concat] at hne
    cases hadds : event.additionTo? scope with
    | none =>
      rw [hadds] at hne
      exact h.owned scope (by simpa using hne)
    | some addition => exact (hadded scope addition hadds).1
  fits scope place addition hplace := by
    rw [BuilderLog.additionsTo_concat] at hplace
    by_cases hlt : place < (log.additionsTo scope).length
    · rw [List.getElem?_append_left hlt] at hplace
      exact h.fits scope place addition hplace
    · rw [List.getElem?_append_right (by omega)] at hplace
      cases hadds : event.additionTo? scope with
      | none =>
        rw [hadds] at hplace
        cases hplace
      | some last =>
        rw [hadds, Option.toList_some, List.getElem?_singleton] at hplace
        split at hplace
        · obtain rfl : last = addition := Option.some.inj hplace
          have heq : place = (log.additionsTo scope).length := by omega
          exact heq ▸ (hadded scope last hadds).2
        · cases hplace
  distinct := by
    rw [BuilderLog.scopes_concat]
    cases hlast : event.scope? with
    | none => simpa using h.distinct
    | some scope =>
      have hfresh := (h.fresh (hnew scope hlast).1).1
      refine List.nodup_append.mpr ⟨h.distinct, by simp, fun other hother last hmem heq => ?_⟩
      obtain rfl : last = scope := by simpa using hmem
      exact hfresh (heq ▸ hother)

theorem congr (h : Chronicles log b) (hfiles : b'.files = b.files) : Chronicles log b' where
  files := by rw [h.files, hfiles]
  outline scope hscope := by
    rw [ProgramBuilder.outline?, ProgramBuilder.statements?_congr hfiles]
    exact h.outline scope hscope
  owned := h.owned
  fits := h.fits
  distinct := h.distinct

theorem type (h : Chronicles log b) (made : Option TypeHandle) :
    Chronicles (log ++ [.type made]) b := by
  refine h.concat ?_ (fun scope hscope => ?_) nofun nofun
  · rw [BuilderLog.files_concat, h.files]
    exact List.append_nil _
  · rw [BuilderLog.additionsTo_concat, h.outline scope hscope]
    exact congrArg _ (congrArg _ (List.append_nil _).symm)

theorem file (h : Chronicles log b) (name : String) :
    Chronicles (log ++ [.file name (b.openFile name).1]) (b.openFile name).2 := by
  refine h.concat ?_ (fun scope hscope => ?_) (fun scope hscope => ?_) nofun
  · rw [BuilderLog.files_concat, h.files, ProgramBuilder.openFile, List.map_append,
      List.zipIdx_append, List.map_append, List.length_map, Nat.zero_add]
    rfl
  · obtain ⟨statements, hstatements, hmap⟩ := h.exists_statements? hscope
    rw [ProgramBuilder.outline?, ProgramBuilder.statements?_openFile hstatements,
      Option.map_some, hmap, BuilderLog.additionsTo_concat]
    exact congrArg _ (congrArg _ (List.append_nil _).symm)
  · obtain rfl : (b.openFile name).1 = scope := Option.some.inj hscope
    simp [ProgramBuilder.statements?, ProgramBuilder.openFile, Statement.statementsAt?,
      SourceFile.new, BuilderEvent.additionTo?]

theorem added (h : Chronicles log b) (hscope : scope ∈ log.scopes) (addition : Addition)
    (hfits : addition.Fits scope (log.additionsTo scope).length) :
    Chronicles (log ++ [.added scope addition]) (b.addStatement scope addition.statement) := by
  obtain ⟨statements, hstatements, -⟩ := h.exists_statements? hscope
  have hlength := h.length_eq hscope hstatements
  refine h.concat ?_ (fun scope' hscope' => ?_) (fun scope' hscope' => ?_) (fun scope' a ha => ?_)
  · rw [BuilderLog.files_concat, h.files, ProgramBuilder.fileNames_addStatement]
    exact List.append_nil _
  · rw [ProgramBuilder.outline?_addStatement hstatements (h.outline scope' hscope'), hfits.hollow,
      BuilderLog.additionsTo_concat, List.map_append, BuilderEvent.additionTo?]
    split <;> rfl
  · cases addition with
    | own statement => cases hscope'
    | opened name inner =>
      obtain rfl : inner = scope' := Option.some.inj hscope'
      obtain rfl : inner = scope.inside _ := hfits
      -- nothing has stood at this place before, and now an empty namespace does
      rw [← hlength]
      refine ⟨ProgramBuilder.statements?_inside_length hstatements, ?_, ?_⟩
      · have hself := ProgramBuilder.statements?_addStatement_self hstatements (.nameSpace name [])
        exact ProgramBuilder.statements?_inside hself List.getElem?_concat_length
      · exact if_neg (Scope.inside_ne_self scope _).symm
  · rw [BuilderEvent.additionTo?] at ha
    split at ha
    · rename_i heq
      subst heq
      obtain rfl : addition = a := Option.some.inj ha
      exact ⟨hscope, hfits⟩
    · cases ha

/-- A step that uses a scope of its own keeps what the log tells. -/
theorem perform (h : Chronicles log b) (hscope : ∀ scope ∈ step.scope?, scope ∈ log.scopes) :
    Chronicles (log ++ [(b.perform step).1]) (b.perform step).2 := by
  cases step with
  | type step => exact (h.congr (b.performType_leaves step).1).type _
  | file name => exact h.file name
  | nameSpace parent name =>
    have hparent := hscope parent rfl
    obtain ⟨statements, hstatements, -⟩ := h.exists_statements? hparent
    refine h.added hparent (.opened name _) ?_
    rw [← h.length_eq hparent hstatements, Addition.Fits, Scope.inside, hstatements]
    rfl
  | declare scope type =>
    exact (h.added (hscope scope rfl) (.own _) (b.isPlain_statementFor _ _)).congr rfl
  | declareUnnamedClass scope type =>
    have hplain : (Statement.classDeclaration ⟨b.declarations.length⟩ none).IsPlain := nofun
    exact (h.added (hscope scope rfl) (.own _) hplain).congr rfl
  | declareAlias scope name type =>
    have hplain : (Statement.typeAlias ⟨b.declarations.length⟩ name).IsPlain := nofun
    exact (h.added (hscope scope rfl) (.own _) hplain).congr rfl
  | other scope =>
    have hplain : Statement.other.IsPlain := nofun
    exact h.added (hscope scope rfl) (.own _) hplain

/-- A step that uses a scope of its own is possible. -/
theorem perform?_eq (h : Chronicles log b) (hscope : ∀ scope ∈ step.scope?, scope ∈ log.scopes) :
    b.perform? step = some (b.perform step) := by
  refine if_pos fun scope hmem => ?_
  obtain ⟨statements, hstatements, -⟩ := h.exists_statements? (hscope scope hmem)
  rw [hstatements]
  rfl

/-- The statements of a scope are what has been added to it, in order. -/
theorem stands (h : Chronicles log b) (hscope : scope ∈ log.scopes) :
    ∃ statements, b.statements? scope = some statements
      ∧ List.Forall₂ (Addition.Stands b) (log.additionsTo scope) statements := by
  obtain ⟨statements, hstatements, hmap⟩ := h.exists_statements? hscope
  refine ⟨statements, hstatements, List.forall₂_iff_get.mpr
    ⟨(h.length_eq hscope hstatements).symm, fun i hi hi' => ?_⟩⟩
  have hhollow : (statements[i]).hollow = ((log.additionsTo scope)[i]).statement := by
    have hget := congrArg (·[i]?) hmap
    simpa [hi, hi'] using hget
  have hfits := h.fits scope i _ (List.getElem?_eq_getElem hi)
  have hplace := List.getElem?_eq_getElem hi'
  simp only [List.get_eq_getElem]
  cases hadd : (log.additionsTo scope)[i] with
  | own statement =>
    rw [hadd] at hhollow hfits
    rw [Statement.IsPlain.eq_of_hollow_eq hfits hhollow]
    exact .own
  | opened name inner =>
    rw [hadd] at hhollow hfits
    obtain ⟨contents, hcontents⟩ := Statement.exists_of_hollow_eq_nameSpace hhollow
    obtain rfl : inner = scope.inside i := hfits
    rw [hcontents] at hplace ⊢
    exact .opened (ProgramBuilder.statements?_inside hstatements hplace)

/-- The files are those that have been opened, in order, each with its own scope. -/
theorem forall₂_files (h : Chronicles log b) :
    List.Forall₂ (fun opened file => file.fileName = opened.1
      ∧ b.statements? opened.2 = some file.statements) log.files b.files := by
  rw [h.files, List.forall₂_iff_get]
  refine ⟨by simp, fun i hi hi' => ?_⟩
  simp [ProgramBuilder.statements?, Statement.statementsAt?, List.getElem?_eq_getElem hi']

end Chronicles

/-- A run that uses no scopes but its own is possible, and its log tells what is built. -/
theorem ProgramBuilder.exists_run?_chronicles {steps : List BuilderStep}
    (h : UsesOwnScopes steps) :
    ∃ log b, run? steps = some (log, b) ∧ Chronicles log b := by
  induction steps using List.reverseRecOn with
  | nil => exact ⟨[], new, rfl, .new⟩
  | append_singleton steps step ih =>
    obtain ⟨hsteps, hstep⟩ := h.of_concat
    obtain ⟨log, b, hrun, hlog⟩ := ih hsteps
    have hscope := hstep (log, b) hrun
    refine ⟨_, _, ?_, hlog.perform hscope⟩
    rw [run?_concat, hrun, Option.bind_some, advance?, hlog.perform?_eq hscope]
    rfl

end TypeCatalog
