/-
The path of a package says which one it is.

The names of namespaces are made safe, so they have no dots in them
(`Identifier.isSegment_sanitize`), and a name can be told from the path that stands
before it (`PackageScope.qualified_inj`).  Below the root of a file the full name of a
package is its path with dots between the names (`PackageTree.Holds.intercalate_path`),
and no two packages have the same one (`PackageTree.Holds.eq_of_fullName_eq`), provided
that no namespace is without a name.
-/
import TypeCatalog.Proofs.Identifier
import TypeCatalog.Proofs.Package.Traversal

namespace TypeCatalog

/-! ### Names with a path before them -/

/-- Behind the last dot there is no other one. -/
theorem nil_of_dot_cons_eq {rest name name' : List Char} (hn : '.' ∉ name)
    (h : '.' :: name = rest ++ '.' :: name') : rest = [] ∧ name = name' := by
  cases rest with
  | nil => exact ⟨rfl, (List.cons.inj h).2⟩
  | cons c rest =>
    rw [List.cons_append, List.cons.injEq] at h
    exact absurd (h.2 ▸ List.mem_append_right rest List.mem_cons_self) hn

/-- What follows the last dot is told by the text. -/
theorem append_dot_inj {path path' name name' : List Char} (hn : '.' ∉ name) (hn' : '.' ∉ name')
    (h : path ++ '.' :: name = path' ++ '.' :: name') : path = path' ∧ name = name' := by
  obtain ⟨rest, rfl, hrest⟩ | ⟨rest, rfl, hrest⟩ := List.append_eq_append_iff.mp h
  · obtain ⟨rfl, rfl⟩ := nil_of_dot_cons_eq hn hrest
    exact ⟨(List.append_nil path).symm, rfl⟩
  · obtain ⟨rfl, rfl⟩ := nil_of_dot_cons_eq hn' hrest
    exact ⟨List.append_nil path', rfl⟩

namespace PackageScope

variable {s s' : PackageScope} {name name' : String}

theorem qualified_of_root (h : s.fullName = "") : s.qualified name = name := if_pos h

theorem toList_qualified (h : s.fullName ≠ "") :
    (s.qualified name).toList = s.fullName.toList ++ '.' :: name.toList := by
  rw [qualified, if_neg h, String.toList_append, String.toList_append, List.append_assoc]
  rfl

theorem dot_mem_qualified (h : s.fullName ≠ "") : '.' ∈ (s.qualified name).toList := by
  rw [toList_qualified h]
  exact List.mem_append_right _ List.mem_cons_self

/-- A name without dots can be told from the path that stands before it. -/
theorem qualified_inj (hn : '.' ∉ name.toList) (hn' : '.' ∉ name'.toList) :
    s.qualified name = s'.qualified name' ↔ s.fullName = s'.fullName ∧ name = name' := by
  constructor
  · intro h
    by_cases hs : s.fullName = ""
    · rw [qualified_of_root hs] at h
      by_cases hs' : s'.fullName = ""
      · rw [qualified_of_root hs'] at h
        exact ⟨hs.trans hs'.symm, h⟩
      · exact absurd (h ▸ dot_mem_qualified hs') hn
    · by_cases hs' : s'.fullName = ""
      · rw [qualified_of_root hs'] at h
        exact absurd (h ▸ dot_mem_qualified hs) hn'
      · have hlists := congrArg String.toList h
        rw [toList_qualified hs, toList_qualified hs'] at hlists
        obtain ⟨hpath, hname⟩ := append_dot_inj hn hn' hlists
        exact ⟨String.toList_inj.mp hpath, String.toList_inj.mp hname⟩
  · rintro ⟨hs, rfl⟩
    rw [qualified, qualified, hs]

end PackageScope

/-! ### Names of namespaces -/

/-- A name that can stand in a path: it is not empty and has no dot in it. -/
structure IsSegment (name : String) : Prop where
  ne_empty : name ≠ ""
  dot_notMem : '.' ∉ name.toList

/-- A name stays a name when it is made safe, and loses its dots. -/
theorem Identifier.isSegment_sanitize {name : String} (h : name ≠ "") :
    IsSegment (sanitize name) where
  ne_empty := by
    rw [ne_eq, ← String.toList_eq_nil_iff]
    rw [ne_eq, ← String.toList_eq_nil_iff] at h
    unfold sanitize
    cases hname : name.toList with
    | nil => exact absurd hname h
    | cons c rest => simp
  dot_notMem hdot := by
    have hsafe := continuesName_of_mem_sanitize hdot
    exact absurd hsafe (by decide)

namespace Statement

mutual

/-- The names of the namespaces that a statement opens, on all levels, as they are written. -/
def namespaceNames : Statement → List String
  | nameSpace name body => name :: allNamespaceNames body
  | _ => []

/-- The names of the namespaces that statements open, on all levels, as they are written. -/
def allNamespaceNames : List Statement → List String
  | [] => []
  | s :: rest => s.namespaceNames ++ allNamespaceNames rest

end

theorem mem_allNamespaceNames {ss : List Statement} {name : String} :
    name ∈ allNamespaceNames ss ↔ ∃ s ∈ ss, name ∈ s.namespaceNames := by
  induction ss with
  | nil => simp [allNamespaceNames]
  | cons s rest ih => rw [allNamespaceNames, List.mem_append, ih, List.exists_mem_cons_iff]

theorem namespaceNames_bodyIn_subset (name : String) (s : Statement) :
    allNamespaceNames (s.bodyIn name) ⊆ s.namespaceNames := by
  cases s with
  | nameSpace name' body =>
    rw [bodyIn, namespaceNames]
    split
    · exact List.subset_cons_self _ _
    · exact List.nil_subset _
  | _ => exact List.nil_subset _

theorem allNamespaceNames_bodies_subset (name : String) (ss : List Statement) :
    allNamespaceNames (bodies name ss) ⊆ allNamespaceNames ss := by
  intro n hn
  obtain ⟨inner, hinner, hn⟩ := mem_allNamespaceNames.mp hn
  obtain ⟨s, hs, hinner⟩ := List.mem_flatMap.mp hinner
  refine mem_allNamespaceNames.mpr ⟨s, hs, namespaceNames_bodyIn_subset name s ?_⟩
  exact mem_allNamespaceNames.mpr ⟨inner, hinner, hn⟩

/-- Where no namespace is without a name, the namespaces that are opened have names for paths. -/
theorem isSegment_of_mem_namespaces {ss : List Statement} (hn : "" ∉ allNamespaceNames ss)
    {name : String} (h : name ∈ namespaces ss) : IsSegment name := by
  obtain ⟨s, hs, hname⟩ := mem_namespaces.mp h
  cases s with
  | nameSpace written body =>
    cases hname
    refine Identifier.isSegment_sanitize ?_
    rintro rfl
    exact hn (mem_allNamespaceNames.mpr ⟨_, hs, List.mem_cons_self⟩)
  | _ => cases hname

end Statement

open Statement

namespace PackageTree

variable {t : PackageTree} {i j x y : PackageId} {name name' : String} {ss : List Statement}

theorem qualified_node (t : PackageTree) (i : PackageId) (name : String) :
    (t.node i).qualified name = PackageScope.qualified ⟨(t.node i).fullName, []⟩ name :=
  rfl

/-! ### The way up from a package -/

theorem pathUpTo_of_isLink (hl : t.IsLink i name j) (bound : Nat) :
    t.pathUpTo (bound + 1) j = name :: t.pathUpTo bound i := by
  rw [pathUpTo, hl.name, hl.parent]
  rfl

/-- The way up ends before any bound that allows for all smaller numbers. -/
theorem IsForest.pathUpTo_eq (hf : t.IsForest) (hx : x.index < t.nodes.length) {bound : Nat}
    (hb : x.index < bound) : t.pathUpTo bound x = t.pathUpTo (x.index + 1) x := by
  induction hn : x.index using Nat.strongRecOn generalizing x bound with
  | _ n ih =>
    subst hn
    obtain ⟨b, rfl⟩ : ∃ b, bound = b + 1 := ⟨bound - 1, by omega⟩
    rcases hf.held x hx with ⟨i, name, hc⟩ | hroot
    · have hl := hf.links hc
      have hlt := hl.lt
      rw [pathUpTo_of_isLink hl, pathUpTo_of_isLink hl]
      rw [ih i.index hlt (Nat.lt_trans hlt hx) (by omega) rfl,
        ih i.index hlt (Nat.lt_trans hlt hx) hlt rfl]
    · rw [pathUpTo, pathUpTo, (hf.roots x hroot).2]

/-- The path of a child is that of its parent, and then its own name. -/
theorem IsForest.path_of_child (hf : t.IsForest) (hc : t.Child i name j) :
    t.path j = t.path i ++ [name] := by
  have hl := hf.links hc
  rw [path, path, pathUpTo_of_isLink hl, List.reverse_cons,
    hf.pathUpTo_eq (Nat.lt_trans hl.lt hl.lt_length) hl.lt]

/-- A package that is the root of a file: it has no name and nothing around it. -/
structure IsRoot (t : PackageTree) (i : PackageId) : Prop where
  name : (t.node i).name = none
  fullName : (t.node i).fullName = ""
  parent : (t.node i).parent = none

theorem IsRoot.path_eq_nil (hr : t.IsRoot i) : t.path i = [] := by
  rw [path, pathUpTo, hr.name, hr.parent]
  rfl

theorem IsRoot.path_eq_nil_iff (hr : t.IsRoot i) (hf : t.IsForest) (hb : t.Below i x) :
    t.path x = [] ↔ x = i := by
  constructor
  · intro hnil
    cases hb with
    | refl => rfl
    | tail _ hc =>
      obtain ⟨name, hc⟩ := hc
      rw [hf.path_of_child hc] at hnil
      exact absurd hnil (List.append_ne_nil_of_right_ne_nil _ (List.cons_ne_nil _ _))
  · rintro rfl
    exact hr.path_eq_nil

/-! ### Below the root of a file -/

/-- What is below a package holds some of the namespaces that it holds. -/
theorem Holds.exists_holds (h : t.Holds i ss) (hb : t.Below i x) :
    ∃ ss', t.Holds x ss' ∧ allNamespaceNames ss' ⊆ allNamespaceNames ss := by
  induction hb with
  | refl => exact ⟨ss, h, List.Subset.refl _⟩
  | tail _ hc ih =>
    obtain ⟨name, hc⟩ := hc
    obtain ⟨ss', hss', hsub⟩ := ih
    exact ⟨_, hss'.inner hc, List.Subset.trans (allNamespaceNames_bodies_subset name ss') hsub⟩

/-- Where no namespace is without a name, every package is the child of its parent under a name
for paths. -/
theorem Holds.isSegment_of_child (h : t.Holds i ss) (hn : "" ∉ allNamespaceNames ss)
    (hb : t.Below i x) (hc : t.Child x name y) : IsSegment name := by
  obtain ⟨ss', hss', hsub⟩ := h.exists_holds hb
  refine isSegment_of_mem_namespaces (fun hmem => hn (hsub hmem)) ?_
  rw [← hss'.children]
  exact OrderedMap.mem_keys_iff.mpr ⟨y, hc⟩

section

variable (hf : t.IsForest) (hr : t.IsRoot i) (h : t.Holds i ss) (hn : "" ∉ allNamespaceNames ss)
include hf hr h hn

/-- Only the root of a file has no full name. -/
theorem Holds.fullName_eq_empty_iff (hb : t.Below i x) : (t.node x).fullName = "" ↔ x = i := by
  constructor
  · intro hempty
    cases hb with
    | refl => rfl
    | tail hb hc =>
      obtain ⟨name, hc⟩ := hc
      have hsegment := h.isSegment_of_child hn hb hc
      rw [(hf.links hc).fullName, qualified_node] at hempty
      unfold PackageScope.qualified at hempty
      split at hempty
      · exact absurd hempty hsegment.ne_empty
      · simp at hempty
  · rintro rfl
    exact hr.fullName

theorem Holds.isSegment_of_mem_path (hb : t.Below i x) : ∀ name ∈ t.path x, IsSegment name := by
  induction hb with
  | refl =>
    rw [hr.path_eq_nil]
    exact fun _ hmem => absurd hmem List.not_mem_nil
  | tail hb hc ih =>
    obtain ⟨name, hc⟩ := hc
    rw [hf.path_of_child hc]
    refine List.forall_mem_append.mpr ⟨ih, List.forall_mem_singleton.mpr ?_⟩
    exact h.isSegment_of_child hn hb hc

/-- The full name of a package is its path with dots between the names. -/
theorem Holds.intercalate_path (hb : t.Below i x) :
    String.intercalate "." (t.path x) = (t.node x).fullName := by
  induction hb with
  | refl =>
    rw [hr.path_eq_nil, hr.fullName]
    exact String.intercalate_nil
  | @tail b c hb hc ih =>
    obtain ⟨name, hc⟩ := hc
    rw [hf.path_of_child hc, (hf.links hc).fullName, qualified_node]
    rcases Decidable.em (b = i) with rfl | hne
    · rw [hr.path_eq_nil, PackageScope.qualified_of_root hr.fullName]
      exact String.intercalate_singleton
    · have hpath : t.path b ≠ [] := fun hnil => hne ((hr.path_eq_nil_iff hf hb).mp hnil)
      have hfull : (t.node b).fullName ≠ "" :=
        fun hempty => hne ((h.fullName_eq_empty_iff hf hr hn hb).mp hempty)
      rw [String.intercalate_append_of_ne_nil hpath (List.cons_ne_nil _ _), ih,
        String.intercalate_singleton, PackageScope.qualified, if_neg hfull]

/-- No two packages below the root of a file have the same full name. -/
theorem Holds.eq_of_fullName_eq (hx : t.Below i x) (hy : t.Below i y)
    (he : (t.node x).fullName = (t.node y).fullName) : x = y := by
  induction hx generalizing y with
  | refl => exact ((h.fullName_eq_empty_iff hf hr hn hy).mp (he ▸ hr.fullName)).symm
  | @tail b x hb hc ih =>
    obtain ⟨name, hc⟩ := hc
    cases hy with
    | refl =>
      exact (h.fullName_eq_empty_iff hf hr hn (hb.tail ⟨name, hc⟩)).mp (he.trans hr.fullName)
    | @tail b' _ hb' hc' =>
      obtain ⟨name', hc'⟩ := hc'
      rw [(hf.links hc).fullName, (hf.links hc').fullName, qualified_node, qualified_node] at he
      -- the last names are the same, and so are the paths before them
      obtain ⟨hpath, rfl⟩ := (PackageScope.qualified_inj
        (h.isSegment_of_child hn hb hc).dot_notMem
        (h.isSegment_of_child hn hb' hc').dot_notMem).mp he
      cases ih hb' hpath
      exact Option.some.inj (hc.symm.trans hc')

end

end PackageTree

end TypeCatalog
