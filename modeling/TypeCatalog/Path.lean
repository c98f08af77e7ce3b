/-
Paths as texts.

A path is a text whose parts are separated by slashes.  Its components leave
out empty parts and single dots, but for a dot that comes first; two paths with
the same components lead to the same place.  The operations that give a path
back keep its text, up to separators and dots at the end.
-/

namespace TypeCatalog

namespace Path

/-- The parts of a text between slashes, empty ones included. -/
def split : List Char → List (List Char)
  | [] => [[]]
  | c :: text =>
    if c = '/' then [] :: split text
    else match split text with
      | [] => [[c]]
      | part :: rest => (c :: part) :: rest

/-- Parts with slashes between them. -/
def unsplit : List (List Char) → List Char
  | [] => []
  | [part] => part
  | part :: rest => part ++ '/' :: unsplit rest

/-- A step of a path. -/
inductive Component where
  | root
  | current
  | parent
  | normal (name : List Char)
  deriving DecidableEq

/-- The step that a part stands for, behind the first part. -/
def step? (part : List Char) : Option Component :=
  if part = [] ∨ part = ['.'] then none
  else if part = ['.', '.'] then some .parent
  else some (.normal part)

/-- Whether a path begins at the root. -/
def isAbsolute (path : String) : Bool := path.toList.head? == some '/'

/-- The steps of a path. -/
def components (path : String) : List Component :=
  match split path.toList with
  | [] => []
  | first :: rest =>
    (if isAbsolute path then [Component.root]
      else if first = ['.'] then [.current]
      else (step? first).toList)
    ++ rest.filterMap step?

/-- The steps that are left of a path behind the steps of another one. -/
def stripSteps : List Component → List Component → Option (List Component)
  | steps, [] => some steps
  | [], _ :: _ => none
  | step :: steps, first :: base => if step = first then stripSteps steps base else none

/-- A name before and behind its last dot; a dot at the head does not count. -/
def splitName (name : List Char) : List Char × Option (List Char) :=
  let ending := (name.reverse.takeWhile (· ≠ '.')).reverse
  let stem := (name.take (name.length - ending.length)).dropLast
  if stem = [] then (name, none) else (stem, some ending)

/-- The name that a path ends in, unless it ends in a step upwards or nowhere. -/
def fileName? (path : String) : Option (List Char) :=
  match (components path).getLast? with
  | some (.normal name) => some name
  | _ => none

/-- Parts without the empty ones and the dots at their end. -/
def trimParts (parts : List (List Char)) : List (List Char) :=
  (parts.reverse.dropWhile fun part => (step? part).isNone).reverse

/-- A path with the given first part; behind the root there are no parts. -/
def ofParts (path : String) (first : List Char) (rest : List (List Char)) : String :=
  if rest = [] ∧ isAbsolute path then "/" else String.ofList (unsplit (first :: rest))

/-- The path that a path ends in; a root and an empty path have none. -/
def parent? (path : String) : Option String :=
  match split path.toList with
  | [] => none
  | first :: rest =>
    match trimParts rest with
    | [] => if isAbsolute path ∨ first = [] then none else some ""
    | parts => some (ofParts path first (trimParts parts.dropLast))

/-- Parts that are trimmed away are empty or dots. -/
theorem forall_of_trimParts_eq_nil {parts : List (List Char)} (h : trimParts parts = []) :
    ∀ part ∈ parts, part = [] ∨ part = ['.'] := by
  have hdrop : ∀ ps : List (List Char), (ps.dropWhile fun part => (step? part).isNone) = [] →
      ∀ part ∈ ps, (step? part).isNone := by
    intro ps
    induction ps with
    | nil => exact fun _ part hpart => absurd hpart List.not_mem_nil
    | cons p ps ih =>
      rw [List.dropWhile_cons]
      split
      · rename_i hp
        exact fun hnil => List.forall_mem_cons.2 ⟨hp, ih hnil⟩
      · exact fun hnil => absurd hnil (List.cons_ne_nil _ _)
  intro part hpart
  have hnone := hdrop _ (List.reverse_eq_nil_iff.1 h) part (List.mem_reverse.2 hpart)
  unfold step? at hnone
  split at hnone
  · assumption
  · split at hnone <;> cases hnone

/-- A path that does not end in another one leads to the root, unless it is empty. -/
theorem isAbsolute_of_parent?_eq_none {path : String} (h : parent? path = none)
    (hne : path ≠ "") :
    isAbsolute path = true ∧ ∀ part ∈ split path.toList, part = [] ∨ part = ['.'] := by
  unfold parent? at h
  unfold isAbsolute at h ⊢
  cases hpath : path.toList with
  | nil => exact absurd (String.toList_eq_nil_iff.1 hpath) hne
  | cons c text =>
    rw [hpath] at h
    rw [split] at h ⊢
    by_cases hc : c = '/'
    · rw [if_pos hc] at h ⊢
      refine ⟨by simp [hc], List.forall_mem_cons.2 ⟨.inl rfl, forall_of_trimParts_eq_nil ?_⟩⟩
      match htrim : trimParts (split text) with
      | [] => rfl
      | part :: parts => simp [htrim] at h
    · -- a path that begins otherwise ends in another one, if only in the empty one
      rw [if_neg hc] at h
      exfalso
      split at h
      · rename_i hnil
        split at hnil <;> cases hnil
      · rename_i first rest hsplit
        have hfirst : first ≠ [] := by
          split at hsplit <;> cases hsplit <;> exact List.cons_ne_nil _ _
        split at h
        · have hslash : c = '/' := by simpa [hfirst] using h
          exact hc hslash
        · cases h

/-- Whether the name at the end has an extension. -/
def hasExtension (path : String) : Bool :=
  match fileName? path with
  | some name => (splitName name).2.isSome
  | none => false

/-- The path with an extension, if it ends in a name without one. -/
def withDefaultExtension (path extension : String) : String :=
  if (fileName? path).isSome ∧ hasExtension path = false then
    match split path.toList with
    | [] => path
    | first :: rest => ofParts path first (trimParts rest) ++ "." ++ extension
  else path

/-- The second path as seen from the first one. -/
def join (base path : String) : String :=
  if isAbsolute path then path
  else if base = "" ∨ base.toList.getLast? = some '/' then base ++ path
  else base ++ "/" ++ path

end Path

end TypeCatalog
