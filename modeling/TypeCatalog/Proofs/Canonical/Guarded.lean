/-
The search for representatives stays inside the arena.

The search reads the arena and its own tables at handles.  `Canonical.Guarded` is
the same search with a guard at every reading: a handle that is not in the arena is
refused, and so is going deeper than the bound.  Over an arena without dangling
parts no guard ever refuses, and the guarded search finds what the search finds
(`Canonical.Guarded.representatives_eq`).

The invariant is that of the search itself, `Canonical.State.Sound`; the handles at
hand are in the arena, as those at the start are and parts of types are.
-/
import TypeCatalog.Proofs.Canonical.Search
import TypeCatalog.Proofs.Except

namespace TypeCatalog

/-- What a guard refuses. -/
inductive Refusal where
  | missingType (h : TypeHandle)
  | missingDeclaration (d : DeclId)
  | tooDeep
  deriving DecidableEq

/-- Refuses what is not there. -/
def demand {α : Type} (refusal : Refusal) : Option α → Except Refusal α
  | some a => .ok a
  | none => .error refusal

theorem demand_of_eq_some {α : Type} {o : Option α} {a : α} (ho : o = some a)
    (refusal : Refusal) : demand refusal o = .ok a := by
  rw [ho, demand]

namespace Canonical

open State

/-- All parts of types are in the arena. -/
def Closed (arena : List TypeData) : Prop := ∀ q h, PartOf arena q h → q.index < arena.length

namespace Guarded

/-- Resolves parts from left to right. -/
def resolveParts (resolve : State → TypeHandle → Except Refusal (TypeHandle × State))
    (s : State) : List TypeHandle → Except Refusal (List TypeHandle × State)
  | [] => .ok ([], s)
  | part :: rest => do
    let first ← resolve s part
    let others ← resolveParts resolve first.2 rest
    return (first.1 :: others.1, others.2)

/-- What a handle that has just been opened stands for, once its parts are resolved. -/
def read (resolve : State → TypeHandle → Except Refusal (TypeHandle × State)) (s : State)
    (h : TypeHandle) (data : TypeData) : Except Refusal (TypeHandle × State) :=
  match data with
  | .intrinsic k => .ok (k.handle, s)
  | data =>
    match data.composition? with
    | none => .ok (h, s)
    | some (composition, parts) => do
      let parts ← resolveParts resolve s parts
      return intern parts.2 (composition, parts.1) h

/-- The representative of a handle; the handle must be in the arena, even if it is settled. -/
def resolve (arena : List TypeData) :
    Nat → State → TypeHandle → Except Refusal (TypeHandle × State)
  | 0, _, _ => .error .tooDeep
  | bound + 1, s, h => do
    let data ← demand (.missingType h) arena[h.index]?
    match s.settled.get? h with
    | some representative => return (representative, s)
    | none =>
      if h ∈ s.opened then return (h, s)
      else
        let known ← read (resolve arena bound) { s with opened := h :: s.opened } h data
        return (known.1, { known.2 with
          opened := known.2.opened.erase h
          settled := known.2.settled.insert h known.1 })

/-- Resolves every handle of the arena in turn. -/
def resolveAll (arena : List TypeData) : Except Refusal State :=
  (List.range arena.length).foldlM
    (fun s i => return (← resolve arena (arena.length + 1) s ⟨i⟩).2) State.initial

/-- The representatives of all handles, in order; each of them must have been settled. -/
def representatives (arena : List TypeData) : Except Refusal (List TypeHandle) := do
  let settled := (← resolveAll arena).settled
  (List.range arena.length).mapM fun i => demand (.missingType ⟨i⟩) (settled.get? ⟨i⟩)

variable {arena : List TypeData} {s : State} {h : TypeHandle} {data : TypeData}
  {parts : List TypeHandle} {bound : Nat}

/-- A guarded resolution that agrees wherever parts are met agrees on all parts. -/
theorem resolveParts_eq {opened : List TypeHandle}
    {f : State → TypeHandle → TypeHandle × State}
    {g : State → TypeHandle → Except Refusal (TypeHandle × State)}
    (hf : ∀ {s q}, s.Sound arena → s.opened = opened → (∀ o ∈ opened, Inside arena q o) →
      Resolved arena s q (f s q))
    (hg : ∀ {s q}, s.Sound arena → s.opened = opened → (∀ o ∈ opened, Inside arena q o) →
      q.index < arena.length → g s q = .ok (f s q))
    (hs : s.Sound arena) (ho : s.opened = opened)
    (hin : ∀ q ∈ parts, ∀ o ∈ opened, Inside arena q o)
    (hlt : ∀ q ∈ parts, q.index < arena.length) :
    resolveParts g s parts = .ok (Canonical.resolveParts f s parts) := by
  induction parts generalizing s with
  | nil => rfl
  | cons part rest ih =>
    have hfirst := hf hs ho (hin part List.mem_cons_self)
    have hrest := ih hfirst.sound (hfirst.opened.trans ho)
      (fun q hq => hin q (List.mem_cons_of_mem _ hq)) fun q hq => hlt q (List.mem_cons_of_mem _ hq)
    rw [resolveParts, bind_of_eq_ok (hg hs ho (hin part List.mem_cons_self)
      (hlt part List.mem_cons_self)), bind_of_eq_ok hrest]
    rfl

theorem read_of_plain {g : State → TypeHandle → Except Refusal (TypeHandle × State)}
    (hd : arena[h.index]? = some data) (hb : build? arena h = none) (s : State) :
    read g s h data = .ok (standing arena h, s) := by
  rw [build?, hd, Option.bind_eq_bind, Option.bind_some] at hb
  rw [standing, hd]
  cases data <;> first | rfl | cases hb

theorem read_of_built {g : State → TypeHandle → Except Refusal (TypeHandle × State)}
    {c : Composition} {known : List TypeHandle × State} (hd : arena[h.index]? = some data)
    (hb : build? arena h = some (c, parts)) {s : State} (hparts : resolveParts g s parts = .ok known) :
    read g s h data = .ok (intern known.2 (c, known.1) h) := by
  rw [build?, hd, Option.bind_eq_bind, Option.bind_some] at hb
  cases data <;> cases hb
  all_goals exact bind_of_eq_ok hparts _

/-- In an arena without dangling parts, no guard refuses a handle of the arena as long as
the bound is not used up. -/
theorem resolve_eq (hc : Closed arena) (hs : s.Sound arena)
    (hbound : arena.length < bound + s.opened.length) (hin : ∀ o ∈ s.opened, Inside arena h o)
    (hlt : h.index < arena.length) :
    resolve arena bound s h = .ok (Canonical.resolve arena bound s h) := by
  induction bound generalizing s h with
  | zero =>
    -- more handles would be open than there are types
    have hle := hs.length_opened_le
    omega
  | succ bound ih =>
    have hd : arena[h.index]? = some arena[h.index] := List.getElem?_eq_getElem hlt
    rw [resolve, bind_of_eq_ok (demand_of_eq_some hd _)]
    cases hn : s.settled.get? h with
    | some r =>
      rw [Canonical.resolve, hn]
      rfl
    | none =>
      by_cases ho : h ∈ s.opened
      · rw [Canonical.resolve, hn]
        simp only [if_pos ho]
        rfl
      · simp only [if_neg ho]
        cases hb : build? arena h with
        | none =>
          rw [bind_of_eq_ok (read_of_plain hd hb _), resolve_plain hn ho hb, List.erase_cons_head]
          rfl
        | some build =>
          obtain ⟨c, parts⟩ := build
          have hopen := hs.open hn ho (lt_length_of_build? hb)
          have hbound' : arena.length < bound + (h :: s.opened).length := by
            rw [List.length_cons]
            omega
          have hinside : ∀ q ∈ parts, ∀ o ∈ h :: s.opened, Inside arena q o := by
            intro q hq o hmem
            rcases List.mem_cons.mp hmem with rfl | hmem
            · exact inside_of_mem hb hq
            · exact (inside_of_mem hb hq).trans (hin o hmem)
          have hparts : resolveParts (resolve arena bound) { s with opened := h :: s.opened } parts
              = .ok (Canonical.resolveParts (Canonical.resolve arena bound)
                { s with opened := h :: s.opened } parts) := by
            refine resolveParts_eq ?_ ?_ hopen rfl hinside
              fun q hq => hc q h (partOf_of_mem hb hq)
            · intro t q ht hopened hq
              exact resolved_resolve ht (hopened ▸ hbound') (hopened ▸ hq)
            · intro t q ht hopened hq hlt
              exact ih ht (hopened ▸ hbound') (hopened ▸ hq) hlt
          rw [bind_of_eq_ok (read_of_built hd hb hparts), resolve_built hn ho hb]
          rfl

theorem resolveAll_eq (hc : Closed arena) :
    resolveAll arena = .ok (Canonical.resolveAll arena) := by
  refine (foldlM_eq_ok (P := fun s => s.Sound arena ∧ s.opened = []) ?_ ⟨sound_initial, rfl⟩).1
  rintro s i hi ⟨hs, ho⟩
  have hbound : arena.length < arena.length + 1 + s.opened.length := by omega
  have hin : ∀ o ∈ s.opened, Inside arena ⟨i⟩ o := by simp [ho]
  have hresolved := resolved_resolve hs hbound hin
  refine ⟨?_, hresolved.sound, hresolved.opened.trans ho⟩
  rw [bind_of_eq_ok (resolve_eq hc hs hbound hin (List.mem_range.mp hi))]
  rfl

/-- Over an arena without dangling parts, no guard refuses, and the representatives are found. -/
theorem representatives_eq (hc : Closed arena) :
    representatives arena = .ok (Canonical.representatives arena) := by
  rw [representatives, bind_of_eq_ok (resolveAll_eq hc)]
  refine mapM_eq_ok fun i hi => ?_
  obtain ⟨r, hr⟩ := exists_settled_resolveAll (h := ⟨i⟩) (List.mem_range.mp hi)
  rw [demand_of_eq_some hr, hr, Option.getD_some]

end Guarded

end Canonical

end TypeCatalog
