/-
Packages form a forest.

`PackageTree.IsForest` says that children have larger numbers than the packages
around them and know them, and that every package is a child or the root of a
file.  So two packages that have something below them in common lie one below
the other (`IsForest.below_or_below`), and every package is below the root of a
file (`IsForest.exists_below`).  Taking in names, opening a namespace and adding
the root of a file keep forests (`IsForest.setTypes`, `IsForest.child`,
`IsForest.withRoot`).  What is proved about the statements that come into a package is
proved by induction over them, in forests all along (`Growth.scan_induction`).
-/
import Mathlib.Data.List.Nodup
import Mathlib.Logic.Relation
import TypeCatalog.Package.Tree
import TypeCatalog.Proofs.OrderedMap

namespace TypeCatalog

namespace PackageTree

variable {t t' t'' : PackageTree} {i j x : PackageId} {name : String}

/-! ### Packages of changed trees -/

theorem node_modify (hi : i.index < t.nodes.length) (f : PackageNode → PackageNode) :
    (t.modify i f).node x = if x = i then f (t.node i) else t.node x := by
  unfold node modify
  by_cases hx : x = i
  · subst hx
    simp only [List.getElem?_modify, List.getElem?_eq_getElem hi]
    rfl
  · have hne : ¬ i.index = x.index := fun h => hx (congrArg PackageId.mk h.symm)
    simp only [List.getElem?_modify, if_neg hne, if_neg hx, id_map']

theorem node_add (node : PackageNode) :
    (t.add node).2.node x = if x.index = t.nodes.length then node else t.node x := by
  unfold PackageTree.node add
  by_cases hx : x.index = t.nodes.length
  · rw [if_pos hx, hx]
    simp
  · rw [if_neg hx]
    rcases Nat.lt_or_gt_of_ne hx with hlt | hgt
    · rw [List.getElem?_append_left hlt]
    · rw [List.getElem?_eq_none_iff.mpr (by simp; omega), List.getElem?_eq_none_iff.mpr (by omega)]

/-- The next number is that of no package so far. -/
theorem ne_of_lt_length (hi : i.index < t.nodes.length) : i ≠ ⟨t.nodes.length⟩ := by
  rintro rfl
  exact absurd hi (Nat.lt_irrefl _)

theorem node_of_le (hx : t.nodes.length ≤ x.index) : t.node x = .root := by
  rw [node, List.getElem?_eq_none_iff.mpr hx]
  rfl

/-- A tree with the root of one more file. -/
def withRoot (t : PackageTree) (packageName : String) : PackageTree :=
  { (t.add .root).2 with files := t.files ++ [⟨packageName, ⟨t.nodes.length⟩⟩] }

theorem length_withRoot (packageName : String) :
    (t.withRoot packageName).nodes.length = t.nodes.length + 1 := by
  simp [withRoot, add]

/-- The root of one more file is there already, as numbers without a package lead to roots. -/
theorem node_withRoot (packageName : String) : (t.withRoot packageName).node x = t.node x := by
  show (t.add .root).2.node x = t.node x
  rw [node_add]
  split
  · rename_i hx
    rw [t.node_of_le (Nat.le_of_eq hx.symm)]
  · rfl

/-- A namespace that is there is opened again; a new one gets the next number. -/
theorem child_cases (hi : i.index < t.nodes.length) (name : String) :
    (∃ j, (t.node i).children.get? name = some j ∧ t.child i name = (j, t)) ∨
    ((t.node i).children.get? name = none ∧ (t.child i name).1 = ⟨t.nodes.length⟩ ∧
      (t.child i name).2.files = t.files ∧
      (t.child i name).2.nodes.length = t.nodes.length + 1 ∧
      ∀ x, (t.child i name).2.node x =
        if x = ⟨t.nodes.length⟩ then
          ⟨some name, (t.node i).qualified name, some i, .empty, .empty⟩
        else if x = i then
          { t.node i with children := (t.node i).children.insert name ⟨t.nodes.length⟩ }
        else t.node x) := by
  cases hc : (t.node i).children.get? name with
  | some j =>
    refine .inl ⟨j, rfl, ?_⟩
    rw [child, hc]
  | none =>
    refine .inr ⟨rfl, ?_⟩
    rw [child, hc]
    refine ⟨rfl, rfl, by simp [add, modify], fun x => ?_⟩
    have hne := ne_of_lt_length hi
    rw [node_modify (by simp [add]; omega)]
    rcases Decidable.em (x = ⟨t.nodes.length⟩) with rfl | hx
    · rw [if_neg hne.symm, node_add, if_pos rfl, if_pos rfl]
    · have hx' : ¬ x.index = t.nodes.length := fun h => hx (congrArg PackageId.mk h)
      rw [if_neg hx, node_add, node_add, if_neg hx', if_neg (Nat.ne_of_lt hi)]
      rfl

/-! ### Forests -/

/-- A package is the child of another one under a name. -/
def Child (t : PackageTree) (i : PackageId) (name : String) (j : PackageId) : Prop :=
  (t.node i).children.get? name = some j

/-- A package, what it holds, what that holds, and so on. -/
def Below (t : PackageTree) : PackageId → PackageId → Prop :=
  Relation.ReflTransGen fun i j => ∃ name, t.Child i name j

theorem Below.mono (hb : t.Below i x) (h : ∀ {a m b}, t.Child a m b → t'.Child a m b) :
    t'.Below i x := by
  induction hb with
  | refl => exact .refl
  | tail _ hc ih =>
    obtain ⟨m, hc⟩ := hc
    exact ih.tail ⟨m, h hc⟩

/-- A child comes after the package around it and knows it. -/
structure IsLink (t : PackageTree) (i : PackageId) (m : String) (j : PackageId) : Prop where
  lt : i.index < j.index
  lt_length : j.index < t.nodes.length
  parent : (t.node j).parent = some i
  name : (t.node j).name = some m
  fullName : (t.node j).fullName = (t.node i).qualified m

/-- Children know the packages around them, and every package is a child or the root of a file. -/
structure IsForest (t : PackageTree) : Prop where
  links : ∀ {i name j}, t.Child i name j → t.IsLink i name j
  held : ∀ j : PackageId, j.index < t.nodes.length →
    (∃ i name, t.Child i name j) ∨ j ∈ t.files.map FilePackage.root
  roots : ∀ j ∈ t.files.map FilePackage.root, j.index < t.nodes.length ∧ (t.node j).parent = none
  distinct : (t.files.map FilePackage.root).Nodup

theorem isForest_empty : IsForest empty where
  links hc := by cases hc
  held _ hj := absurd hj (Nat.not_lt_zero _)
  roots _ hj := absurd hj List.not_mem_nil
  distinct := List.nodup_nil

namespace IsForest

theorem eq_of_child (hf : t.IsForest) {i' : PackageId} {name' : String} (h : t.Child i name j)
    (h' : t.Child i' name' j) : i = i' ∧ name = name' := by
  have hi := (hf.links h).parent.symm.trans (hf.links h').parent
  have hn := (hf.links h).name.symm.trans (hf.links h').name
  exact ⟨Option.some.inj hi, Option.some.inj hn⟩

theorem index_le_of_below (hf : t.IsForest) (h : t.Below i x) : i.index ≤ x.index := by
  induction h with
  | refl => exact Nat.le_refl _
  | tail _ hc ih =>
    obtain ⟨name, hc⟩ := hc
    exact Nat.le_trans ih (Nat.le_of_lt (hf.links hc).lt)

/-- No package is below one of its children. -/
theorem ne_of_below (hf : t.IsForest) (hc : t.Child i name j) (h : t.Below j x) : x ≠ i := by
  rintro rfl
  have hlt := (hf.links hc).lt
  have hle := hf.index_le_of_below h
  omega

theorem lt_length_of_below (hf : t.IsForest) (hi : i.index < t.nodes.length) (h : t.Below i x) :
    x.index < t.nodes.length := by
  cases h with
  | refl => exact hi
  | tail _ hc =>
    obtain ⟨name, hc⟩ := hc
    exact (hf.links hc).lt_length

/-- Of two packages with something below them in common, one is below the other. -/
theorem below_or_below (hf : t.IsForest) (hi : t.Below i x) (hj : t.Below j x) :
    t.Below i j ∨ t.Below j i := by
  have hunique : Relator.RightUnique (Function.swap fun i j => ∃ name, t.Child i name j) := by
    rintro a b c ⟨name, hb⟩ ⟨name', hc⟩
    exact (hf.eq_of_child hb hc).1
  rcases Relation.ReflTransGen.total_of_right_unique hunique hi.swap hj.swap with h | h
  · exact .inr h.swap
  · exact .inl h.swap

/-- Nothing is below two children of one package. -/
theorem child_eq_of_below (hf : t.IsForest) {j' : PackageId} {name' : String}
    (h : t.Child i name j) (h' : t.Child i name' j') (hx : t.Below j x) (hx' : t.Below j' x) :
    j = j' := by
  -- the parent of the lower one would be below the upper one, and is above it
  have key : ∀ {a b : PackageId} {n n' : String}, t.Child i n a → t.Child i n' b →
      t.Below a b → a = b := by
    intro a b n n' ha hb hab
    cases hab with
    | refl => rfl
    | tail hac hcb =>
      obtain ⟨m, hcb⟩ := hcb
      obtain ⟨rfl, -⟩ := hf.eq_of_child hb hcb
      have hle := hf.index_le_of_below hac
      have hlt := (hf.links ha).lt
      omega
  rcases hf.below_or_below hx hx' with hb | hb
  · exact key h h' hb
  · exact (key h' h hb).symm

/-- Nothing is below the roots of two files. -/
theorem root_eq_of_below (hf : t.IsForest) (hi : i ∈ t.files.map FilePackage.root)
    (hj : j ∈ t.files.map FilePackage.root) (hx : t.Below i x) (hx' : t.Below j x) : i = j := by
  have key : ∀ {a b : PackageId}, b ∈ t.files.map FilePackage.root → t.Below a b → a = b := by
    intro a b hb hab
    cases hab with
    | refl => rfl
    | tail _ hcb =>
      obtain ⟨n, hcb⟩ := hcb
      have hparent := (hf.links hcb).parent
      rw [(hf.roots b hb).2] at hparent
      cases hparent
  rcases hf.below_or_below hx hx' with hb | hb
  · exact key hj hb
  · exact (key hi hb).symm

/-- Every package is below the root of a file. -/
theorem exists_below (hf : t.IsForest) (hx : x.index < t.nodes.length) :
    ∃ i ∈ t.files.map FilePackage.root, t.Below i x := by
  -- parents have smaller numbers
  induction hn : x.index using Nat.strongRecOn generalizing x with
  | _ n ih =>
    rcases hf.held x hx with ⟨i, name, hc⟩ | hroot
    · have hlt := (hf.links hc).lt
      obtain ⟨r, hr, hbelow⟩ := ih i.index (by omega) (by omega) rfl
      exact ⟨r, hr, hbelow.tail ⟨name, hc⟩⟩
    · exact ⟨x, hroot, .refl⟩

end IsForest

/-! ### What keeps forests -/

/-- The packages of a tree are still there in another one, and so is what they
know of the packages around them. -/
structure KeptIn (t t' : PackageTree) : Prop where
  length_le : t.nodes.length ≤ t'.nodes.length
  parent : ∀ x : PackageId, x.index < t.nodes.length → (t'.node x).parent = (t.node x).parent
  name : ∀ x : PackageId, x.index < t.nodes.length → (t'.node x).name = (t.node x).name
  fullName : ∀ x : PackageId, x.index < t.nodes.length →
    (t'.node x).fullName = (t.node x).fullName

theorem KeptIn.refl (t : PackageTree) : t.KeptIn t :=
  ⟨Nat.le_refl _, fun _ _ => rfl, fun _ _ => rfl, fun _ _ => rfl⟩

theorem KeptIn.trans (hk : t.KeptIn t') (hk' : t'.KeptIn t'') : t.KeptIn t'' := by
  refine ⟨Nat.le_trans hk.length_le hk'.length_le, fun x hx => ?_, fun x hx => ?_, fun x hx => ?_⟩
  all_goals have hx' := Nat.lt_of_lt_of_le hx hk.length_le
  · exact (hk'.parent x hx').trans (hk.parent x hx)
  · exact (hk'.name x hx').trans (hk.name x hx)
  · exact (hk'.fullName x hx').trans (hk.fullName x hx)

theorem IsLink.of_keptIn (hl : t.IsLink i name j) (hk : t.KeptIn t') : t'.IsLink i name j where
  lt := hl.lt
  lt_length := Nat.lt_of_lt_of_le hl.lt_length hk.length_le
  parent := (hk.parent j hl.lt_length).trans hl.parent
  name := (hk.name j hl.lt_length).trans hl.name
  fullName := by
    have hi := hk.fullName i (Nat.lt_trans hl.lt hl.lt_length)
    rw [hk.fullName j hl.lt_length, hl.fullName, PackageNode.qualified, PackageNode.qualified, hi]

/-- A tree in which a package has other names for types. -/
def setTypes (t : PackageTree) (i : PackageId)
    (types : OrderedMap (String × DeclarationKind) DeclId) : PackageTree :=
  t.modify i fun node => { node with types := types }

section

variable (hi : i.index < t.nodes.length) (types : OrderedMap (String × DeclarationKind) DeclId)
include hi

theorem node_setTypes :
    (t.setTypes i types).node x = if x = i then { t.node i with types := types } else t.node x :=
  node_modify hi _

theorem keptIn_setTypes : t.KeptIn (t.setTypes i types) := by
  refine ⟨Nat.le_of_eq (List.length_modify ..).symm, fun x _ => ?_, fun x _ => ?_, fun x _ => ?_⟩
  all_goals
    rw [node_setTypes hi]
    split
    · rename_i hx
      rw [hx]
    · rfl

theorem child_setTypes_iff {a b : PackageId} {m : String} :
    (t.setTypes i types).Child a m b ↔ t.Child a m b := by
  rw [Child, node_setTypes hi, Child]
  split
  · rename_i ha
    rw [ha]
  · rfl

end

theorem length_setTypes (types : OrderedMap (String × DeclarationKind) DeclId) :
    (t.setTypes i types).nodes.length = t.nodes.length :=
  List.length_modify ..

theorem keptIn_child (hi : i.index < t.nodes.length) (name : String) :
    t.KeptIn (t.child i name).2 := by
  obtain ⟨j, -, he⟩ | ⟨-, -, -, hlen, hnode⟩ := t.child_cases hi name
  · rw [he]
    exact KeptIn.refl t
  have hold : ∀ x : PackageId, x.index < t.nodes.length →
      ∃ children, (t.child i name).2.node x = { t.node x with children := children } := by
    intro x hx
    rw [hnode, if_neg (ne_of_lt_length hx)]
    split
    · rename_i he
      subst he
      exact ⟨_, rfl⟩
    · exact ⟨_, rfl⟩
  refine ⟨hlen ▸ Nat.le_succ _, fun x hx => ?_, fun x hx => ?_, fun x hx => ?_⟩
  all_goals
    obtain ⟨children, hx⟩ := hold x hx
    rw [hx]

theorem node_child_of_ne (hi : i.index < t.nodes.length) (name : String)
    (hx : x.index < t.nodes.length) (hne : x ≠ i) : (t.child i name).2.node x = t.node x := by
  obtain ⟨j, -, he⟩ | ⟨-, -, -, -, hnode⟩ := t.child_cases hi name
  · rw [he]
  · rw [hnode, if_neg (ne_of_lt_length hx), if_neg hne]

theorem node_child_self (hi : i.index < t.nodes.length) (name : String) :
    ((t.child i name).2.node i).types = (t.node i).types ∧
      ((t.child i name).2.node i).children.keys =
        if name ∈ (t.node i).children.keys then (t.node i).children.keys
        else (t.node i).children.keys ++ [name] := by
  obtain ⟨j, hj, he⟩ | ⟨-, -, -, -, hnode⟩ := t.child_cases hi name
  · rw [he, if_pos (OrderedMap.mem_keys_iff.mpr ⟨j, hj⟩)]
    exact ⟨rfl, rfl⟩
  · rw [hnode, if_neg (ne_of_lt_length hi), if_pos rfl]
    exact ⟨rfl, OrderedMap.keys_insert _ _ _⟩

/-- The only link that may be new is the one to the opened namespace. -/
theorem child_child_iff (hi : i.index < t.nodes.length) (name : String) {a b : PackageId}
    {m : String} : (t.child i name).2.Child a m b ↔
      t.Child a m b ∨ (a = i ∧ m = name ∧ b = (t.child i name).1) := by
  obtain ⟨j, hj, he⟩ | ⟨hnone, hj, -, -, hnode⟩ := t.child_cases hi name
  · rw [he]
    refine ⟨.inl, ?_⟩
    rintro (hc | ⟨rfl, rfl, rfl⟩)
    · exact hc
    · exact hj
  rw [hj, Child, Child, hnode]
  have hne := ne_of_lt_length hi
  rcases Decidable.em (a = ⟨t.nodes.length⟩) with rfl | ha
  · rw [if_pos rfl, t.node_of_le (Nat.le_refl _)]
    simp [hne.symm, PackageNode.root, OrderedMap.get?_empty]
  rw [if_neg ha]
  rcases Decidable.em (a = i) with rfl | ha'
  · rw [if_pos rfl]
    show ((t.node a).children.insert name _).get? m = _ ↔ _
    rw [OrderedMap.get?_insert]
    split
    · rename_i hm
      subst hm
      simp [hnone, eq_comm]
    · rename_i hm
      simp [eq_comm, hm]
  · rw [if_neg ha']
    simp [ha']

/-- What was below a package keeps to it, and what was not does not come below it. -/
theorem below_of_keptIn (hf : t.IsForest) (hf' : t'.IsForest) (hk : t.KeptIn t')
    (hx : x.index < t.nodes.length) (hb : t'.Below i x) : t.Below i x := by
  induction hb with
  | refl => exact .refl
  | @tail b c _ hbc ih =>
    obtain ⟨m, hbc⟩ := hbc
    have hlink := hf'.links hbc
    have hparent : (t.node c).parent = some b := (hk.parent c hx).symm.trans hlink.parent
    have hbelow := ih (Nat.lt_trans hlink.lt hx)
    rcases hf.held c hx with ⟨b', m', hc⟩ | hroot
    · have hb' := (hf.links hc).parent
      rw [hparent] at hb'
      cases hb'
      exact hbelow.tail ⟨m', hc⟩
    · rw [(hf.roots c hroot).2] at hparent
      cases hparent

namespace IsForest

/-- A tree is a forest if it keeps a forest and its new links and roots are sound. -/
theorem of_keptIn (hf : t.IsForest) (hk : t.KeptIn t')
    (hkeep : ∀ {a m b}, t.Child a m b → t'.Child a m b)
    (hlinks : ∀ {a m b}, t'.Child a m b → t.Child a m b ∨ t'.IsLink a m b)
    (hheld : ∀ b : PackageId, t.nodes.length ≤ b.index → b.index < t'.nodes.length →
      (∃ a m, t'.Child a m b) ∨ b ∈ t'.files.map FilePackage.root)
    (hfiles : t'.files = t.files ∨ ∃ packageName root, t'.files = t.files ++ [⟨packageName, root⟩] ∧
      t.nodes.length ≤ root.index ∧ root.index < t'.nodes.length ∧ (t'.node root).parent = none) :
    t'.IsForest := by
  have hsubset : t.files.map FilePackage.root ⊆ t'.files.map FilePackage.root := by
    rcases hfiles with h | ⟨packageName, root, h, -⟩
    · rw [h]
      exact List.Subset.refl _
    · rw [h, List.map_append]
      exact List.subset_append_left _ _
  have hold : ∀ b ∈ t.files.map FilePackage.root,
      b.index < t'.nodes.length ∧ (t'.node b).parent = none := by
    intro b hb
    obtain ⟨hlt, hparent⟩ := hf.roots b hb
    exact ⟨Nat.lt_of_lt_of_le hlt hk.length_le, (hk.parent b hlt).trans hparent⟩
  refine ⟨?_, ?_, ?_, ?_⟩
  · intro a m b hc
    rcases hlinks hc with hc | hl
    · exact (hf.links hc).of_keptIn hk
    · exact hl
  · intro b hb
    rcases Nat.lt_or_ge b.index t.nodes.length with hlt | hge
    · rcases hf.held b hlt with ⟨a, m, hc⟩ | hroot
      · exact .inl ⟨a, m, hkeep hc⟩
      · exact .inr (hsubset hroot)
    · exact hheld b hge hb
  · intro b hb
    rcases hfiles with h | ⟨packageName, root, h, -, hlt, hparent⟩
    · rw [h] at hb
      exact hold b hb
    · rw [h, List.map_append, List.mem_append] at hb
      rcases hb with hb | hb
      · exact hold b hb
      · cases List.mem_singleton.mp hb
        exact ⟨hlt, hparent⟩
  · rcases hfiles with h | ⟨packageName, root, h, hge, -⟩
    · rw [h]
      exact hf.distinct
    · rw [h, List.map_append, List.map_singleton, ← List.concat_eq_append]
      refine hf.distinct.concat fun hmem => ?_
      exact absurd (hf.roots root hmem).1 (Nat.not_lt.mpr hge)

/-- Names that are taken into a package. -/
theorem setTypes (hf : t.IsForest) (hi : i.index < t.nodes.length)
    (types : OrderedMap (String × DeclarationKind) DeclId) : (t.setTypes i types).IsForest := by
  have hchild : ∀ {a m b}, (t.setTypes i types).Child a m b ↔ _ := t.child_setTypes_iff hi types
  refine hf.of_keptIn (t.keptIn_setTypes hi types) hchild.mpr (fun hc => .inl (hchild.mp hc)) ?_
    (.inl rfl)
  intro b hge hlt
  rw [length_setTypes] at hlt
  exact absurd hlt (Nat.not_lt.mpr hge)

/-- A namespace that is opened inside a package. -/
theorem child (hf : t.IsForest) (hi : i.index < t.nodes.length) (name : String) :
    (t.child i name).2.IsForest := by
  have hkept := t.keptIn_child hi name
  have hchild : ∀ {a m b}, (t.child i name).2.Child a m b ↔ _ := t.child_child_iff hi name
  obtain ⟨j, -, he⟩ | ⟨-, hj, hfiles, hlen, hnode⟩ := t.child_cases hi name
  · rw [he]
    exact hf
  rw [hj] at hchild
  generalize (t.child i name).2 = t' at hkept hchild hfiles hlen hnode
  have hnew : t'.node ⟨t.nodes.length⟩ =
      ⟨some name, (t.node i).qualified name, some i, .empty, .empty⟩ := by
    rw [hnode, if_pos rfl]
  have hlink : t'.IsLink i name ⟨t.nodes.length⟩ := by
    refine ⟨hi, hlen ▸ Nat.lt_succ_self _, ?_, ?_, ?_⟩
    · rw [hnew]
    · rw [hnew]
    · rw [hnew, PackageNode.qualified, PackageNode.qualified, hkept.fullName i hi]
  refine hf.of_keptIn hkept (fun hc => hchild.mpr (.inl hc)) ?_ ?_ (.inl hfiles)
  · intro a m b hc
    refine (hchild.mp hc).imp_right ?_
    rintro ⟨rfl, rfl, rfl⟩
    exact hlink
  · intro b hge hlt
    have hb : b = ⟨t.nodes.length⟩ := congrArg PackageId.mk (by omega)
    exact .inl ⟨i, name, hchild.mpr (.inr ⟨rfl, rfl, hb⟩)⟩

/-- The root of one more file. -/
theorem withRoot (hf : t.IsForest) (packageName : String) :
    (t.withRoot packageName).IsForest := by
  have hlen := t.length_withRoot packageName
  have hnode := fun x => t.node_withRoot (x := x) packageName
  have hchild : ∀ {a m b}, (t.withRoot packageName).Child a m b ↔ t.Child a m b := by
    intro a m b
    rw [Child, hnode, Child]
  refine hf.of_keptIn ⟨?_, ?_, ?_, ?_⟩ hchild.mpr (fun hc => .inl (hchild.mp hc)) ?_ (.inr ?_)
  · exact hlen ▸ Nat.le_succ _
  · exact fun x _ => congrArg _ (hnode x)
  · exact fun x _ => congrArg _ (hnode x)
  · exact fun x _ => congrArg _ (hnode x)
  · intro b hge hlt
    refine .inr (List.mem_map.mpr ⟨⟨packageName, b⟩, List.mem_append_right _ ?_, rfl⟩)
    exact List.mem_singleton.mpr (congrArg _ (congrArg PackageId.mk (by omega)))
  · refine ⟨packageName, ⟨t.nodes.length⟩, rfl, Nat.le_refl _, ?_, ?_⟩
    · exact hlen ▸ Nat.lt_succ_self _
    · rw [hnode, t.node_of_le (Nat.le_refl _)]
      rfl

end IsForest

end PackageTree

/-! ### Statements that come into a package of a forest -/

namespace Growth

open PackageTree

variable {g : Growth} {i : PackageId}

/-- Taking a declaration in changes at most the names of the package. -/
theorem register_keeps (hf : g.tree.IsForest) (hi : i.index < g.tree.nodes.length) (label : String)
    (name : Option String) (kind : DeclarationKind) (decl : DeclId) :
    (g.register i label name kind decl).tree.IsForest ∧
      g.tree.KeptIn (g.register i label name kind decl).tree := by
  cases name with
  | none => exact ⟨hf, .refl _⟩
  | some name => exact ⟨hf.setTypes hi _, keptIn_setTypes hi _⟩

/-- An opened namespace is a package of the tree in which it was opened. -/
theorem child_lt_length (hf : g.tree.IsForest) (hi : i.index < g.tree.nodes.length)
    (name : String) : (g.tree.child i name).1.index < (g.tree.child i name).2.nodes.length :=
  have hchild := (g.tree.child_child_iff hi name).mpr (.inr ⟨rfl, rfl, rfl⟩)
  ((hf.child hi name).links hchild).lt_length

/-- A property of statements that come into a package of a forest has one case for each kind of
statement, and one for a statement with others behind it: these come into a forest as well. -/
theorem scan_induction {motive : Growth → PackageId → String → List Statement → Prop}
    (nil : ∀ {g i} label, g.tree.IsForest → motive g i label [])
    (cons : ∀ {g i label s rest}, g.tree.IsForest → i.index < g.tree.nodes.length →
      motive g i label [s] → motive (g.scanStatement i label s) i label rest →
      motive g i label (s :: rest))
    (nameSpace : ∀ {g i label} name {body}, g.tree.IsForest → i.index < g.tree.nodes.length →
      motive { g with tree := (g.tree.child i (Identifier.sanitize name)).2 }
        (g.tree.child i (Identifier.sanitize name)).1
        (label ++ "." ++ Identifier.sanitize name) body →
      motive g i label [.nameSpace name body])
    (classDeclaration : ∀ {g i} label decl name, g.tree.IsForest →
      i.index < g.tree.nodes.length → motive g i label [.classDeclaration decl name])
    (interfaceDeclaration : ∀ {g i} label decl name, g.tree.IsForest →
      i.index < g.tree.nodes.length → motive g i label [.interfaceDeclaration decl name])
    (typeAlias : ∀ {g i} label decl name, g.tree.IsForest → motive g i label [.typeAlias decl name])
    (other : ∀ {g i} label, g.tree.IsForest → motive g i label [.other])
    (ss : List Statement) (hf : g.tree.IsForest) (hi : i.index < g.tree.nodes.length)
    (label : String) : motive g i label ss := by
  -- along the way the tree is a forest that has all packages it had
  refine (Growth.scan.induct
    (fun g i label s => g.tree.IsForest → i.index < g.tree.nodes.length → motive g i label [s] ∧
      (g.scanStatement i label s).tree.IsForest ∧ g.tree.KeptIn (g.scanStatement i label s).tree)
    (fun g i label ss => g.tree.IsForest → i.index < g.tree.nodes.length → motive g i label ss ∧
      (g.scan i label ss).tree.IsForest ∧ g.tree.KeptIn (g.scan i label ss).tree)
    ?_ ?_ ?_ ?_ ?_ ?_ ?_ g i label ss hf hi).1
  · intro g i label name body n child tree hc ih hf hi
    change g.tree.child i n = _ at hc
    obtain ⟨rfl, rfl⟩ := Prod.mk.inj hc
    obtain ⟨hbody, hforest, hkept⟩ := ih (hf.child hi n) (child_lt_length hf hi n)
    exact ⟨nameSpace name hf hi hbody, hforest, (g.tree.keptIn_child hi n).trans hkept⟩
  · intro g i label decl name hf hi
    exact ⟨classDeclaration label decl name hf hi, register_keeps hf hi label name .classKind decl⟩
  · intro g i label decl name hf hi
    exact ⟨interfaceDeclaration label decl name hf hi,
      register_keeps hf hi label name .interfaceKind decl⟩
  · intro g i label decl name hf _
    exact ⟨typeAlias label decl name hf, hf, .refl _⟩
  · intro g i label hf _
    exact ⟨other label hf, hf, .refl _⟩
  · intro g i label hf _
    exact ⟨nil label hf, hf, .refl _⟩
  · intro g i label s rest ihs ih hf hi
    obtain ⟨hs, hforest, hkept⟩ := ihs hf hi
    obtain ⟨hrest, hforest', hkept'⟩ := ih hforest (Nat.lt_of_lt_of_le hi hkept.length_le)
    exact ⟨cons hf hi hs hrest, hforest', hkept.trans hkept'⟩

end Growth

end TypeCatalog
