/-
Chains of settings files come to an end.

`Chain.Passes` is the walk along a chain: from the file at a path to the file that it names
as its base, and so on, as long as the next file can be read and has not been passed before.
`Chain.Ends` says how a walk comes to its end: at the first file that is met again, that
cannot be read or that says what it must not, and otherwise at a file that names no base;
then every setting is that of the nearest file that makes it (`SettingsFile.nearest`).
Loading settings walks along the chain, always comes to an end, and tells which
(`SettingsFile.load_eq_iff`).
-/
import Mathlib.Data.List.Basic
import TypeCatalog.Proofs.Path
import TypeCatalog.Settings.Chain

namespace TypeCatalog

/-- What the file at a path is known by: its canonical path, or else the path itself. -/
def FileView.known (view : FileView) (path : String) : String := (view.canonical? path).getD path

/-- A file of a chain: the path that led to it, and what it says. -/
structure SettingsLink where
  path : String
  settings : SettingsFile

/-- The output file that a file names, as seen from the directory of that file. -/
def SettingsLink.outFile? (link : SettingsLink) : Option String :=
  link.settings.choices.outFile.map fun out =>
    if Path.isAbsolute out then out else Path.join ((Path.parent? link.path).getD "") out

/-- Every setting of the nearest file that makes it, if there is one. -/
def SettingsFile.nearest (passed : List SettingsLink) : SettingsFile where
  base := none
  isEnabled := passed.findSome? fun link => link.settings.isEnabled
  choices :=
    { libraryName := passed.findSome? fun link => link.settings.choices.libraryName
      packageLayout := passed.findSome? fun link => link.settings.choices.packageLayout
      rootDir := passed.findSome? fun link => link.settings.choices.rootDir
      outFile := passed.findSome? SettingsLink.outFile?
      format := passed.findSome? fun link => link.settings.choices.format
      newLine := passed.findSome? fun link => link.settings.choices.newLine }

namespace Chain

variable {view : FileView} {start path text : String} {passed : List SettingsLink}
  {settings : SettingsFile}

/-! ### The walk along a chain -/

/-- A file has been passed. -/
def Passed (view : FileView) (passed : List SettingsLink) (path : String) : Prop :=
  view.known path ∈ passed.map fun link => view.known link.path

/-- The file at a path comes next in a chain, and says something. -/
structure Meets (view : FileView) (passed : List SettingsLink) (path : String)
    (settings : SettingsFile) : Prop where
  fresh : ¬ Passed view passed path
  readable : ∃ text, view.read path = .ok text ∧ SettingsFile.read text = .ok settings

/-- The files that are passed on the way from a path along the chain, and the path with which the
chain goes on. -/
inductive Passes (view : FileView) (start : String) : List SettingsLink → Option String → Prop where
  | start : Passes view start [] (some start)
  | last {passed : List SettingsLink} {path : String} {settings : SettingsFile}
      (before : Passes view start passed (some path)) (meets : Meets view passed path settings)
      (ends : settings.base = none) : Passes view start (passed ++ [⟨path, settings⟩]) none
  | onward {passed : List SettingsLink} {path base directory : String} {settings : SettingsFile}
      (before : Passes view start passed (some path)) (meets : Meets view passed path settings)
      (names : settings.base = some base) (lies : Path.parent? path = some directory) :
      Passes view start (passed ++ [⟨path, settings⟩])
        (some (Path.join directory (Path.withDefaultExtension base "json")))

/-- How the walk along a chain comes to its end. -/
inductive Ends (view : FileView) (start : String) : Except SettingsError SettingsFile → Prop where
  | cycle {passed : List SettingsLink} {path : String}
      (before : Passes view start passed (some path)) (again : Passed view passed path) :
      Ends view start (.error (.cycle (view.known path)))
  | unreadable {passed : List SettingsLink} {path : String} {error : FileError}
      (before : Passes view start passed (some path)) (fresh : ¬ Passed view passed path)
      (read : view.read path = .error error) : Ends view start (.error (.unreadable path error))
  | malformed {passed : List SettingsLink} {path text : String} {problem : Json.Problem}
      (before : Passes view start passed (some path)) (fresh : ¬ Passed view passed path)
      (read : view.read path = .ok text) (parse : SettingsFile.read text = .error problem) :
      Ends view start (.error (.malformed path problem))
  | settled {passed : List SettingsLink} (all : Passes view start passed none) :
      Ends view start (.ok (SettingsFile.nearest passed))

/-! ### Chains of passed files -/

/-- The chain in which some files have been visited. -/
def ofPassed (view : FileView) (passed : List SettingsLink) : Chain where
  visited := (passed.map fun link => view.known link.path).reverse
  merged := SettingsFile.nearest passed

/-- The output file of a file is seen from where the file lies. -/
theorem outFile_rebase (link : SettingsLink) :
    (link.settings.rebase ((Path.parent? link.path).getD "")).choices.outFile = link.outFile? := by
  unfold SettingsFile.rebase SettingsLink.outFile?
  generalize (Path.parent? link.path).getD "" = directory
  cases hout : link.settings.choices.outFile with
  | none => split <;> simp [hout]
  | some out =>
    by_cases hd : directory = "" <;> by_cases habsolute : Path.isAbsolute out <;>
      simp [hd, hout, Path.join, habsolute]

/-- What comes later in a chain makes those settings that have not been made yet. -/
theorem orElse_nearest (passed : List SettingsLink) (link : SettingsLink) :
    (SettingsFile.nearest passed).orElse (link.settings.rebase ((Path.parent? link.path).getD ""))
      = SettingsFile.nearest (passed ++ [link]) := by
  have hrebase : ∀ directory, link.settings.rebase directory =
      { link.settings with choices := { link.settings.choices with
          outFile := (link.settings.rebase directory).choices.outFile } } := by
    intro directory
    unfold SettingsFile.rebase
    split <;> rfl
  rw [hrebase, outFile_rebase]
  simp only [SettingsFile.orElse, Choices.orElse, SettingsFile.nearest, List.findSome?_append,
    List.findSome?_singleton, Option.orElse_eq_orElse, Option.orElse_eq_or]

variable {chain next : Chain} {onward : String} {error : SettingsError}

theorem follow_of_error
    (h : chain.visit path (view.canonical? path) (view.read path) = .error error) :
    chain.follow view path = .error error := by
  rw [follow]
  split <;> simp_all

theorem follow_of_last
    (h : chain.visit path (view.canonical? path) (view.read path) = .ok (next, none)) :
    chain.follow view path = .ok next.merged := by
  rw [follow]
  split <;> simp_all

theorem follow_of_onward
    (h : chain.visit path (view.canonical? path) (view.read path) = .ok (next, some onward)) :
    chain.follow view path = next.follow view onward := by
  rw [follow]
  split <;> simp_all

/-! ### Visiting behind passed files -/

theorem notMem_visited_ofPassed (fresh : ¬ Passed view passed path) :
    view.known path ∉ (ofPassed view passed).visited :=
  fun h => fresh (List.mem_reverse.mp h)

theorem visit_of_passed (again : Passed view passed path) (content : Except FileError String) :
    (ofPassed view passed).visit path (view.canonical? path) content
      = .error (.cycle (view.known path)) :=
  if_pos (List.mem_reverse.mpr again)

theorem visit_of_unreadable {error : FileError} (fresh : ¬ Passed view passed path)
    (read : view.read path = .error error) :
    (ofPassed view passed).visit path (view.canonical? path) (view.read path)
      = .error (.unreadable path error) := by
  rw [read]
  exact if_neg (notMem_visited_ofPassed fresh)

theorem visit_of_malformed {problem : Json.Problem} (fresh : ¬ Passed view passed path)
    (read : view.read path = .ok text) (parse : SettingsFile.read text = .error problem) :
    (ofPassed view passed).visit path (view.canonical? path) (view.read path)
      = .error (.malformed path problem) := by
  rw [read]
  refine (if_neg (notMem_visited_ofPassed fresh)).trans ?_
  simp only [parse]

theorem visit_of_meets {onward : Option String} (meets : Meets view passed path settings)
    (h : settings.onward? path = .ok onward) :
    (ofPassed view passed).visit path (view.canonical? path) (view.read path)
      = .ok (ofPassed view (passed ++ [⟨path, settings⟩]), onward) := by
  obtain ⟨text, hread, hparse⟩ := meets.readable
  have hnext : ofPassed view (passed ++ [⟨path, settings⟩])
      = ⟨view.known path :: (ofPassed view passed).visited,
          (ofPassed view passed).merged.orElse
            (settings.rebase ((Path.parent? path).getD ""))⟩ := by
    unfold ofPassed
    rw [← orElse_nearest, List.map_append, List.reverse_append]
    rfl
  rw [hread, hnext]
  refine (if_neg (notMem_visited_ofPassed meets.fresh)).trans ?_
  simp only [hparse, h]
  rfl

theorem visit_of_last (meets : Meets view passed path settings) (ends : settings.base = none) :
    (ofPassed view passed).visit path (view.canonical? path) (view.read path)
      = .ok (ofPassed view (passed ++ [⟨path, settings⟩]), none) :=
  visit_of_meets meets (by rw [SettingsFile.onward?, ends])

theorem visit_of_onward {base directory : String} (meets : Meets view passed path settings)
    (names : settings.base = some base) (lies : Path.parent? path = some directory) :
    (ofPassed view passed).visit path (view.canonical? path) (view.read path)
      = .ok (ofPassed view (passed ++ [⟨path, settings⟩]),
          some (Path.join directory (Path.withDefaultExtension base "json"))) :=
  visit_of_meets meets (by rw [SettingsFile.onward?, names, lies])

/-! ### Loading -/

/-- The rest of the walk: with a path to go on with, or at the end. -/
def resume (view : FileView) (passed : List SettingsLink) :
    Option String → Except SettingsError SettingsFile
  | some path => (ofPassed view passed).follow view path
  | none => .ok (SettingsFile.nearest passed)

/-- Loading walks along the chain. -/
theorem load_eq_resume {next : Option String} (h : Passes view start passed next) :
    SettingsFile.load view start = resume view passed next := by
  induction h with
  | start => rfl
  | last before meets ends ih =>
    rw [ih, resume, follow_of_last (visit_of_last meets ends)]
    rfl
  | onward before meets names lies ih =>
    rw [ih, resume, follow_of_onward (visit_of_onward meets names lies)]
    rfl

/-- Every walk along a chain comes to its end. -/
theorem ends_follow {passed : List SettingsLink} {path : String}
    (before : Passes view start passed (some path)) :
    Ends view start ((ofPassed view passed).follow view path) := by
  by_cases again : Passed view passed path
  · rw [follow_of_error (visit_of_passed again _)]
    exact .cycle before again
  cases hread : view.read path with
  | error error =>
    rw [follow_of_error (visit_of_unreadable again hread)]
    exact .unreadable before again hread
  | ok text =>
    cases hparse : SettingsFile.read text with
    | error problem =>
      rw [follow_of_error (visit_of_malformed again hread hparse)]
      exact .malformed before again hread hparse
    | ok settings =>
      have meets : Meets view passed path settings := ⟨again, text, hread, hparse⟩
      cases hbase : settings.base with
      | none =>
        rw [follow_of_last (visit_of_last meets hbase)]
        exact .settled (before.last meets hbase)
      | some base =>
        -- a file that can be read is in a directory, from which its base is looked for
        obtain ⟨directory, lies⟩ := Option.isSome_iff_exists.mp (view.isSome_parent? hread)
        have hvisit := visit_of_onward meets hbase lies
        have := unvisited_lt_of_visit hvisit
        rw [follow_of_onward hvisit]
        exact ends_follow (before.onward meets hbase lies)
termination_by (ofPassed view passed).unvisited view

/-- There is one end of a chain. -/
theorem load_eq_of_ends {result : Except SettingsError SettingsFile}
    (h : Ends view start result) : SettingsFile.load view start = result := by
  cases h with
  | cycle before again =>
    rw [load_eq_resume before]
    exact follow_of_error (visit_of_passed again _)
  | unreadable before fresh read =>
    rw [load_eq_resume before]
    exact follow_of_error (visit_of_unreadable fresh read)
  | malformed before fresh read parse =>
    rw [load_eq_resume before]
    exact follow_of_error (visit_of_malformed fresh read parse)
  | settled all => rw [load_eq_resume all, resume]

end Chain

/-- Loading settings always comes to the one end of the chain that begins at a file.  Where all
files of the chain can be read, every setting is that of the choices that go before them, or else
that of the nearest file that makes it, or else its default.  A base is looked for under the name
that it is given by, with an extension if that has none. -/
theorem SettingsFile.load_eq_iff (view : FileView) (start : String) :
    (∀ result, SettingsFile.load view start = result ↔ Chain.Ends view start result)
      ∧ (∀ passed, Chain.Passes view start passed none → ∀ overrides : Choices,
        ∃ settings, SettingsFile.load view start = .ok settings
          ∧ Settings.resolve (some settings) overrides =
            { isEnabled := (passed.findSome? fun link => link.settings.isEnabled).getD true
              options :=
                { libraryName := (overrides.libraryName <|>
                    passed.findSome? fun link => link.settings.choices.libraryName).getD "default"
                  packageLayout := (overrides.packageLayout <|>
                    passed.findSome? fun link => link.settings.choices.packageLayout).getD .nested
                  rootDir := overrides.rootDir <|>
                    passed.findSome? fun link => link.settings.choices.rootDir }
              outFile := overrides.outFile <|> passed.findSome? SettingsLink.outFile?
              format := (overrides.format <|>
                passed.findSome? fun link => link.settings.choices.format).getD .script
              newLine := (overrides.newLine <|>
                passed.findSome? fun link => link.settings.choices.newLine).getD .lf })
      ∧ ∀ base : String,
        (Path.fileName? base = none ∨ Path.hasExtension base = true →
          Path.withDefaultExtension base "json" = base)
        ∧ ∀ name, Path.fileName? base = some name → Path.hasExtension base = false →
          Path.components (Path.withDefaultExtension base "json")
            = (Path.components base).dropLast ++ [.normal (name ++ ".json".toList)] := by
  refine ⟨fun result => ⟨?_, Chain.load_eq_of_ends⟩, ?_, fun base => ⟨?_, ?_⟩⟩
  · rintro rfl
    exact Chain.ends_follow .start
  · intro passed all overrides
    exact ⟨SettingsFile.nearest passed, Chain.load_eq_of_ends (.settled all), rfl⟩
  · exact Path.withDefaultExtension_eq_self "json"
  · exact fun name hname hext => Path.components_withDefaultExtension hname hext (by decide)

end TypeCatalog
