/-
Laws of paths.

The parts of a path are what it was put together from (`Path.split_unsplit`), and its
components are told by its parts (`Path.components_eq`).  A path that is given an
extension differs from what it was in its last step alone
(`Path.components_withDefaultExtension`), and a path that is put behind a directory
has the components of the directory before its own (`Path.components_join`).
-/
import Mathlib.Data.List.TakeWhile
import TypeCatalog.Path

namespace TypeCatalog

namespace Path

variable {text text' : List Char} {parts rest : List (List Char)}

/-! ### Parts between slashes -/

theorem split_ne_nil (text : List Char) : split text ≠ [] := by
  cases text with
  | nil => exact List.cons_ne_nil _ _
  | cons c text =>
    rw [split]
    split
    · exact List.cons_ne_nil _ _
    · split <;> exact List.cons_ne_nil _ _

/-- A text without slashes is one part. -/
theorem split_of_notMem (h : '/' ∉ text) : split text = [text] := by
  induction text with
  | nil => rfl
  | cons c text ih =>
    rw [List.mem_cons, not_or] at h
    rw [split, if_neg (Ne.symm h.1), ih h.2]

/-- The parts of a text before a slash, and then those behind it. -/
theorem split_append_slash (text text' : List Char) :
    split (text ++ '/' :: text') = split text ++ split text' := by
  induction text with
  | nil => rfl
  | cons c text ih =>
    rw [List.cons_append, split, split, ih]
    split
    · rfl
    · cases hs : split text with
      | nil => exact absurd hs (split_ne_nil text)
      | cons part rest => rfl

theorem notMem_of_mem_split {part : List Char} (h : part ∈ split text) : '/' ∉ part := by
  induction text generalizing part with
  | nil =>
    cases List.mem_singleton.mp h
    exact List.not_mem_nil
  | cons c text ih =>
    rw [split] at h
    split at h
    · rcases List.mem_cons.mp h with rfl | h
      · exact List.not_mem_nil
      · exact ih h
    · rename_i hc
      cases hs : split text with
      | nil => exact absurd hs (split_ne_nil text)
      | cons first rest =>
        rw [hs] at h
        rcases List.mem_cons.mp h with rfl | h
        · rw [List.mem_cons, not_or]
          exact ⟨Ne.symm hc, ih (hs ▸ List.mem_cons_self)⟩
        · exact ih (hs ▸ List.mem_cons_of_mem _ h)

/-- Parts without slashes are found again between the slashes. -/
theorem split_unsplit (hne : parts ≠ []) (h : ∀ part ∈ parts, '/' ∉ part) :
    split (unsplit parts) = parts := by
  induction parts with
  | nil => exact absurd rfl hne
  | cons part rest ih =>
    rw [List.forall_mem_cons] at h
    cases rest with
    | nil => exact split_of_notMem h.1
    | cons next rest =>
      rw [unsplit, split_append_slash, split_of_notMem h.1, ih (List.cons_ne_nil _ _) h.2]
      · rfl
      · exact List.cons_ne_nil _ _

theorem unsplit_append_singleton (parts : List (List Char)) (part text : List Char) :
    unsplit (parts ++ [part ++ text]) = unsplit (parts ++ [part]) ++ text := by
  induction parts with
  | nil => rfl
  | cons first rest ih =>
    have hne : ∀ last : List Char, rest ++ [last] ≠ [] :=
      fun last => List.append_ne_nil_of_right_ne_nil _ (List.cons_ne_nil _ _)
    have hunsplit : ∀ last, unsplit (first :: (rest ++ [last])) =
        first ++ '/' :: unsplit (rest ++ [last]) := fun last => unsplit.eq_3 _ _ (hne last)
    rw [List.cons_append, List.cons_append, hunsplit, hunsplit, ih, List.append_assoc]
    rfl

/-! ### Steps -/

/-- The last part that is left stands for a step. -/
theorem step?_ne_none_of_trimParts {part : List Char} (h : trimParts parts = rest ++ [part]) :
    step? part ≠ none := by
  have hhead := List.head?_dropWhile_not (fun part => (step? part).isNone) parts.reverse
  have hlast : (trimParts parts).getLast? = some part := by rw [h, List.getLast?_concat]
  rw [trimParts, List.getLast?_reverse] at hlast
  rw [hlast] at hhead
  rw [← Option.isSome_iff_ne_none]
  simpa using hhead

theorem exists_trimmed (parts : List (List Char)) :
    ∃ trimmed, parts = trimParts parts ++ trimmed ∧ ∀ part ∈ trimmed, step? part = none := by
  refine ⟨(parts.reverse.takeWhile fun part => (step? part).isNone).reverse, ?_, ?_⟩
  · rw [trimParts, ← List.reverse_append, List.takeWhile_append_dropWhile, List.reverse_reverse]
  · intro part hpart
    have hnone := List.mem_takeWhile_imp (List.mem_reverse.mp hpart)
    exact Option.isNone_iff_eq_none.mp hnone

/-- Trimming does not change the steps. -/
theorem filterMap_trimParts (parts : List (List Char)) :
    (trimParts parts).filterMap step? = parts.filterMap step? := by
  obtain ⟨trimmed, hparts, hnone⟩ := exists_trimmed parts
  have htrimmed : trimmed.filterMap step? = [] := List.filterMap_eq_nil_iff.mpr hnone
  have hsteps := congrArg (List.filterMap step?) hparts
  rw [List.filterMap_append, htrimmed, List.append_nil] at hsteps
  exact hsteps.symm

/-- The steps of a first part; behind it dots lead nowhere. -/
def headSteps (absolute : Bool) (first : List Char) : List Component :=
  if absolute then [.root] else if first = ['.'] then [.current] else (step? first).toList

variable {path : String} {first name : List Char}

theorem components_eq (h : split path.toList = first :: rest) :
    components path = headSteps (isAbsolute path) first ++ rest.filterMap step? := by
  rw [components, h]
  rfl

/-- A path begins at the root if there is nothing before its first slash. -/
theorem isAbsolute_iff (h : split path.toList = first :: rest) :
    isAbsolute path = true ↔ first = [] ∧ rest ≠ [] := by
  unfold isAbsolute
  cases hpath : path.toList with
  | nil =>
    rw [hpath] at h
    cases h
    simp
  | cons c text =>
    rw [hpath, split] at h
    by_cases hc : c = '/'
    · rw [if_pos hc, List.cons.injEq] at h
      simp [hc, ← h.1, ← h.2, split_ne_nil]
    · rw [if_neg hc] at h
      have hfirst : first ≠ [] := by
        split at h <;> cases h <;> exact List.cons_ne_nil _ _
      simp [hc, hfirst]

theorem step?_eq_normal_iff {part : List Char} :
    step? part = some (.normal name) ↔
      part = name ∧ name ≠ [] ∧ name ≠ ['.'] ∧ name ≠ ['.', '.'] := by
  unfold step?
  constructor
  · intro h
    split at h
    · cases h
    split at h
    · cases h
    cases h
    simp_all
  · rintro ⟨rfl, hne, hdot, hdots⟩
    rw [if_neg (by simp [hne, hdot]), if_neg hdots]

/-- A name stays a name when more is put behind a dot at its end. -/
theorem step?_append_dot {part : List Char} (h : step? part = some (.normal name))
    (ending : List Char) :
    step? (part ++ '.' :: ending) = some (.normal (name ++ '.' :: ending)) := by
  obtain ⟨rfl, hne, hdot, -⟩ := step?_eq_normal_iff.mp h
  refine step?_eq_normal_iff.mpr ⟨rfl, by simp, fun h => ?_, fun h => ?_⟩
  · cases part with
    | nil => exact hne rfl
    | cons c part => simp at h
  · match part, hne, hdot, h with
    | [c], _, hdot, h => simp_all
    | c :: d :: part, _, _, h => simp at h

theorem fileName?_eq_some_iff :
    fileName? path = some name ↔ (components path).getLast? = some (.normal name) := by
  unfold fileName?
  split
  · rename_i last hlast
    rw [hlast]
    simp
  · rename_i hlast
    exact ⟨nofun, fun h => absurd h (hlast name)⟩

/-- A first part that stands for a name. -/
theorem step?_of_headSteps {absolute : Bool}
    (h : (headSteps absolute first).getLast? = some (.normal name)) :
    absolute = false ∧ step? first = some (.normal name) := by
  unfold headSteps at h
  split at h
  · cases h
  split at h
  · cases h
  · rename_i habsolute _
    refine ⟨by simpa using habsolute, ?_⟩
    cases hstep : step? first with
    | none =>
      rw [hstep] at h
      cases h
    | some step =>
      rw [hstep] at h
      exact h

theorem headSteps_of_step? {absolute : Bool} (ha : absolute = false)
    (h : step? first = some (.normal name)) : headSteps absolute first = [.normal name] := by
  obtain ⟨rfl, -, hdot, -⟩ := step?_eq_normal_iff.mp h
  rw [headSteps, if_neg (by simp [ha]), if_neg hdot, h]
  rfl

/-! ### Extensions -/

section

variable {kept : List (List Char)} {last : List Char} {ending : String}
  (hsplit : split path.toList = first :: rest) (hparts : first :: trimParts rest = kept ++ [last])
  (hname : fileName? path = some name) (hext : hasExtension path = false)
include hsplit hparts

theorem notMem_of_mem_parts : ∀ part ∈ kept ++ [last], '/' ∉ part := by
  obtain ⟨trimmed, hrest, -⟩ := exists_trimmed rest
  intro part hpart
  rw [← hparts] at hpart
  have hmem : part ∈ first :: trimParts rest ++ trimmed := List.mem_append_left _ hpart
  rw [List.cons_append, ← hrest, ← hsplit] at hmem
  exact notMem_of_mem_split hmem

include hname hext

theorem toList_withDefaultExtension (hroot : isAbsolute path = false ∨ trimParts rest ≠ []) :
    (withDefaultExtension path ending).toList
      = unsplit (kept ++ [last ++ '.' :: ending.toList]) := by
  have hof : ¬ (trimParts rest = [] ∧ isAbsolute path = true) := by
    rcases hroot with h | h <;> simp [h]
  rw [withDefaultExtension, if_pos ⟨by rw [hname]; rfl, hext⟩, hsplit, unsplit_append_singleton,
    ← hparts]
  simp only [ofParts, if_neg hof, String.toList_append, String.toList_ofList]
  simp

/-- The extension is put behind the last part. -/
theorem split_withDefaultExtension (hending : '/' ∉ ending.toList)
    (hroot : isAbsolute path = false ∨ trimParts rest ≠ []) :
    split (withDefaultExtension path ending).toList
      = kept ++ [last ++ '.' :: ending.toList] := by
  obtain ⟨hkept, hlast⟩ := List.forall_mem_append.mp (notMem_of_mem_parts hsplit hparts)
  rw [toList_withDefaultExtension hsplit hparts hname hext hroot, split_unsplit (by simp)]
  refine List.forall_mem_append.mpr ⟨hkept, List.forall_mem_singleton.mpr ?_⟩
  rw [List.forall_mem_singleton] at hlast
  simp [hlast, hending]

end

/-- A name at the end of a path is given its extension, and all other steps stay. -/
theorem components_withDefaultExtension {ending : String} (hname : fileName? path = some name)
    (hext : hasExtension path = false) (hending : '/' ∉ ending.toList) :
    components (withDefaultExtension path ending)
      = (components path).dropLast ++ [.normal (name ++ '.' :: ending.toList)] := by
  obtain ⟨first, rest, hsplit⟩ := List.exists_cons_of_ne_nil (split_ne_nil path.toList)
  have hsteps := components_eq hsplit
  rw [← filterMap_trimParts] at hsteps
  have hlast := fileName?_eq_some_iff.mp hname
  rcases List.eq_nil_or_concat (trimParts rest) with hkept | ⟨kept, last, hkept⟩
  · -- the name is the first part, and the only one
    rw [hkept, List.filterMap_nil, List.append_nil] at hsteps
    rw [hsteps] at hlast
    obtain ⟨habsolute, hstep⟩ := step?_of_headSteps hlast
    have honly : first :: trimParts rest = [] ++ [first] := by
      rw [hkept]
      rfl
    have hparts : split (withDefaultExtension path ending).toList
        = [first ++ '.' :: ending.toList] :=
      split_withDefaultExtension hsplit honly hname hext hending (.inl habsolute)
    have habsolute' : isAbsolute (withDefaultExtension path ending) = false := by
      rw [← Bool.not_eq_true, isAbsolute_iff hparts]
      simp
    rw [components_eq hparts, headSteps_of_step? habsolute' (step?_append_dot hstep _), hsteps,
      headSteps_of_step? habsolute hstep]
    rfl
  · rw [List.concat_eq_append] at hkept
    obtain ⟨step, hstep⟩ := Option.ne_none_iff_exists'.mp (step?_ne_none_of_trimParts hkept)
    rw [hkept, List.filterMap_append, List.filterMap_cons_some hstep, List.filterMap_nil,
      ← List.append_assoc] at hsteps
    rw [hsteps] at hlast
    have hnormal : step = .normal name := by simpa using hlast
    subst hnormal
    have hall : first :: trimParts rest = (first :: kept) ++ [last] := by
      rw [hkept]
      rfl
    have hparts : split (withDefaultExtension path ending).toList
        = first :: (kept ++ [last ++ '.' :: ending.toList]) :=
      split_withDefaultExtension hsplit hall hname hext hending (.inr (by simp [hkept]))
    have hrestne : rest ≠ [] := by
      rintro rfl
      simp [trimParts] at hkept
    have habsolute : isAbsolute (withDefaultExtension path ending) = isAbsolute path := by
      rw [Bool.eq_iff_iff, isAbsolute_iff hparts, isAbsolute_iff hsplit]
      simp [hrestne]
    have hcomponents := components_eq hparts
    rw [List.filterMap_append, List.filterMap_cons_some (step?_append_dot hstep _),
      List.filterMap_nil, ← List.append_assoc] at hcomponents
    rw [hcomponents, habsolute, hsteps, List.dropLast_concat]

/-- A path that ends in no name, or in one with an extension, stays as it is. -/
theorem withDefaultExtension_eq_self (ending : String)
    (h : fileName? path = none ∨ hasExtension path = true) :
    withDefaultExtension path ending = path := by
  refine if_neg fun hboth => ?_
  rcases h with h | h
  · rw [h] at hboth
    exact absurd hboth.1 (by decide)
  · rw [h] at hboth
    exact absurd hboth.2 (by decide)

/-! ### Paths behind a directory -/

section

variable {root rel : String}

theorem join_empty (hrel : isAbsolute rel = false) : join "" rel = rel := by
  rw [join, if_neg (by simp [hrel]), if_pos (.inl rfl), String.empty_append]

/-- Behind a directory there is a slash, whether the directory ends in one or not. -/
theorem exists_toList_join (hrel : isAbsolute rel = false) (hroot : root ≠ "") :
    ∃ base, (join root rel).toList = base ++ '/' :: rel.toList ∧
      (root.toList = base ∨ root.toList = base ++ ['/']) := by
  rw [join, if_neg (by simp [hrel])]
  by_cases hslash : root.toList.getLast? = some '/'
  · obtain ⟨base, hbase⟩ := List.getLast?_eq_some_iff.mp hslash
    refine ⟨base, ?_, .inr hbase⟩
    rw [if_pos (.inr hslash), String.toList_append, hbase, List.append_assoc,
      List.singleton_append]
  · refine ⟨root.toList, ?_, .inl rfl⟩
    rw [if_neg (by simp [hroot, hslash])]
    simp

theorem isAbsolute_join (hrel : isAbsolute rel = false) (hroot : root ≠ "") :
    isAbsolute (join root rel) = isAbsolute root := by
  have hne : root.toList ≠ [] := fun h => hroot (String.toList_eq_nil_iff.mp h)
  obtain ⟨c, text, hc⟩ := List.exists_cons_of_ne_nil hne
  unfold isAbsolute
  obtain ⟨base, hjoin, hbase | hbase⟩ := exists_toList_join hrel hroot
  · rw [hjoin, ← hbase, hc]
    rfl
  · rw [hjoin, List.append_cons, ← hbase, hc]
    rfl

/-- Behind a directory a path has the steps of all its parts; a dot that comes first is none. -/
theorem components_join (hrel : isAbsolute rel = false) (hroot : root ≠ "") :
    components (join root rel) = components root ++ (split rel.toList).filterMap step? := by
  obtain ⟨base, hjoin, hbase⟩ := exists_toList_join hrel hroot
  obtain ⟨first, rest, hsplit⟩ := List.exists_cons_of_ne_nil (split_ne_nil base)
  have hparts : split (join root rel).toList = first :: (rest ++ split rel.toList) := by
    rw [hjoin, split_append_slash, hsplit, List.cons_append]
  have hsteps : components root = headSteps (isAbsolute root) first ++ rest.filterMap step? := by
    rcases hbase with hbase | hbase
    · exact components_eq (hbase ▸ hsplit)
    · -- the slash at the end of the directory leaves an empty part, which is no step
      have hroot : split root.toList = first :: (rest ++ [[]]) := by
        rw [hbase, split_append_slash, hsplit]
        rfl
      rw [components_eq hroot, List.filterMap_append]
      simp [step?]
  rw [components_eq hparts, isAbsolute_join hrel hroot, hsteps, List.filterMap_append,
    List.append_assoc]

/-- By itself a path has the same steps, but for a dot that comes first. -/
theorem components_of_relative (hrel : isAbsolute rel = false) :
    components rel = (split rel.toList).filterMap step? ∨
      components rel = .current :: (split rel.toList).filterMap step? := by
  obtain ⟨first, rest, hsplit⟩ := List.exists_cons_of_ne_nil (split_ne_nil rel.toList)
  rw [components_eq hsplit, hsplit, headSteps, hrel, if_neg Bool.false_ne_true]
  split
  · rename_i hdot
    subst hdot
    exact .inr rfl
  · left
    cases hstep : step? first with
    | none => rw [List.filterMap_cons_none hstep, Option.toList_none, List.nil_append]
    | some step => rw [List.filterMap_cons_some hstep, Option.toList_some, List.singleton_append]

/-- What is left of a path behind its beginning. -/
theorem stripSteps_append (base steps : List Component) :
    stripSteps (base ++ steps) base = some steps := by
  induction base with
  | nil =>
    rw [List.nil_append]
    cases steps <;> rfl
  | cons first base ih => rw [List.cons_append, stripSteps, if_pos rfl, ih]

/-- A directory does not change how a path ends, if no slash is looked for. -/
theorem isSuffix_toList_join {ending : List Char} (hslash : '/' ∉ ending)
    (hrel : isAbsolute rel = false) :
    ending <:+ (join root rel).toList ↔ ending <:+ rel.toList := by
  by_cases hroot : root = ""
  · rw [hroot, join_empty hrel]
  obtain ⟨base, hjoin, -⟩ := exists_toList_join hrel hroot
  rw [hjoin]
  constructor
  · intro h
    rcases List.suffix_or_suffix_of_suffix h (List.suffix_append base ('/' :: rel.toList)) with
      hending | hbehind
    · rcases List.suffix_cons_iff.mp hending with rfl | hending
      · exact absurd List.mem_cons_self hslash
      · exact hending
    · exact absurd (hbehind.subset List.mem_cons_self) hslash
  · intro h
    exact h.trans ((List.suffix_cons '/' rel.toList).trans (List.suffix_append base _))

end

end Path

end TypeCatalog
