/-
A visit on a stack is made in pre-order.

`PackageTree.Visits` is the loop that takes a package from a stack and puts its children
there instead, until the stack is empty; `PackageTree.Preorder` lists packages, each before
all that is below it, by recursion on the tree.  The loop comes to its end wherever the
recursion does, and in the same order (`PackageTree.Preorder.visits`); in a forest the
recursion always comes to its end, as children have larger numbers than their parents
(`PackageTree.IsForest.exists_preorder`).  So the visit of a file, which is made within a
bound, is the loop and the recursion (`PackageTree.IsRootOf.visits_depthFirst`,
`PackageTree.IsRootOf.preorder_depthFirst`).
-/
import TypeCatalog.Proofs.Package.Traversal

namespace TypeCatalog

namespace PackageTree

variable {t : PackageTree} {i : PackageId} {ids stack order rest : List PackageId}

/-- The loop over a stack, from its top: a package that is taken off is visited, and its
children come to the top in its place.  With an empty stack the loop ends. -/
inductive Visits (t : PackageTree) : List PackageId → List PackageId → Prop where
  | done : Visits t [] []
  | step {id : PackageId} {stack order : List PackageId}
      (next : Visits t ((t.node id).children.values ++ stack) order) :
      Visits t (id :: stack) (id :: order)

/-- Packages in a row, each followed by what is below it. -/
inductive Preorder (t : PackageTree) : List PackageId → List PackageId → Prop where
  | nil : Preorder t [] []
  | cons {id : PackageId} {ids below rest : List PackageId}
      (inner : Preorder t (t.node id).children.values below) (outer : Preorder t ids rest) :
      Preorder t (id :: ids) (id :: (below ++ rest))

/-- What stands on top of a stack is visited in pre-order, and then what stands below it. -/
theorem Preorder.visits (h : t.Preorder ids order) (hv : t.Visits stack rest) :
    t.Visits (ids ++ stack) (order ++ rest) := by
  induction h generalizing stack rest with
  | nil => exact hv
  | @cons id ids below rest' _ _ ihInner ihOuter =>
    refine .step ?_
    show t.Visits _ (below ++ rest' ++ rest)
    rw [List.append_assoc]
    exact ihInner (ihOuter hv)

/-- A bound that allows for the whole loop does not show. -/
theorem Visits.visit_eq (h : t.Visits stack order) {bound : Nat} (hb : order.length ≤ bound) :
    t.visit bound stack = order := by
  induction h generalizing bound with
  | done => cases bound <;> rfl
  | step _ ih =>
    rw [List.length_cons] at hb
    obtain ⟨b, rfl⟩ : ∃ b, bound = b + 1 := ⟨bound - 1, by omega⟩
    rw [visit, ih (Nat.le_of_succ_le_succ hb)]

theorem exists_preorder_of_forall (h : ∀ i ∈ ids, ∃ order, t.Preorder [i] order) :
    ∃ order, t.Preorder ids order := by
  induction ids with
  | nil => exact ⟨[], .nil⟩
  | cons i ids ih =>
    rw [List.forall_mem_cons] at h
    obtain ⟨_, hfirst⟩ := h.1
    obtain ⟨rest, hrest⟩ := ih h.2
    cases hfirst with
    | cons inner _ => exact ⟨_, .cons inner hrest⟩

theorem IsForest.exists_preorder (hf : t.IsForest) (i : PackageId) :
    ∃ order, t.Preorder [i] order := by
  -- children are nearer to the last number than their parents
  induction hn : t.nodes.length - i.index using Nat.strongRecOn generalizing i with
  | _ n ih =>
    have hchildren : ∀ j ∈ (t.node i).children.values, ∃ order, t.Preorder [j] order := by
      intro j hj
      obtain ⟨name, hc⟩ := OrderedMap.mem_values_iff.mp hj
      have hl := hf.links hc
      have hlt := hl.lt
      have hlast := hl.lt_length
      exact ih _ (by omega) j rfl
    obtain ⟨below, hbelow⟩ := exists_preorder_of_forall hchildren
    exact ⟨_, .cons hbelow .nil⟩

section

variable {rootDir : Option String} {p : FilePackage} {file : SourceFile} (hf : t.IsForest)
  (hp : p ∈ t.files) (h : t.IsRootOf rootDir p file)
include hf hp h

/-- The packages of a file are visited in pre-order. -/
theorem IsRootOf.preorder_depthFirst : t.Preorder [p.root] (t.depthFirst p.root) := by
  obtain ⟨order, horder⟩ := hf.exists_preorder p.root
  have hvisits := horder.visits .done
  rw [List.append_nil, List.append_nil] at hvisits
  -- one bound allows for all packages and for the whole loop
  have hlt := (hf.roots p.root (List.mem_map_of_mem hp)).1
  have hwalk := (h.walk hf hp).visit_eq hf hlt (Nat.le_max_left t.nodes.length order.length)
  rw [hvisits.visit_eq (Nat.le_max_right _ _)] at hwalk
  exact hwalk ▸ horder

/-- The loop over a stack visits the packages of a file and comes to its end. -/
theorem IsRootOf.visits_depthFirst : t.Visits [p.root] (t.depthFirst p.root) := by
  have hvisits := (h.preorder_depthFirst hf hp).visits .done
  rwa [List.append_nil, List.append_nil] at hvisits

end

end PackageTree

end TypeCatalog
