/-
The packages of a tree are the scopes of its statements.

`PackageTree.Holds` says that a package has taken in some statements: its names
are theirs, taken in one after the other, its children are their namespaces, in
the order in which these were first opened, and every child holds the
statements of all namespaces with its name.

Taking statements into a package extends what it holds by them and touches
nothing but the package and what is below it (`Growth.scan_extends`).
-/
import TypeCatalog.Proofs.Package.Forest

namespace TypeCatalog

/-- A class or an interface that has a name. -/
structure Declared where
  name : String
  kind : DeclarationKind
  decl : DeclId
  deriving DecidableEq

namespace Statement

/-- The class or interface that a statement declares by name. -/
def declared? : Statement → Option Declared
  | classDeclaration decl (some name) => some ⟨name, .classKind, decl⟩
  | interfaceDeclaration decl (some name) => some ⟨name, .interfaceKind, decl⟩
  | _ => none

/-- The name of the namespace that a statement opens. -/
def namespace? : Statement → Option String
  | nameSpace name _ => some (Identifier.sanitize name)
  | _ => none

/-- What a statement adds to the namespace of a name. -/
def bodyIn (name : String) : Statement → List Statement
  | nameSpace name' body => if Identifier.sanitize name' = name then body else []
  | _ => []

/-- The classes and interfaces that statements declare by name, but not inside namespaces. -/
def named (ss : List Statement) : List Declared := ss.filterMap declared?

/-- The namespaces that statements open, each once, in the order of their first openings. -/
def namespaces (ss : List Statement) : List String := (ss.filterMap namespace?).eraseDups

/-- The statements of all namespaces of a name, one after the other. -/
def bodies (name : String) (ss : List Statement) : List Statement := ss.flatMap (bodyIn name)

variable {ss : List Statement} {name : String}

theorem named_append (ss ss' : List Statement) :
    named (ss ++ ss') = named ss ++ named ss' :=
  List.filterMap_append

theorem bodies_append (name : String) (ss ss' : List Statement) :
    bodies name (ss ++ ss') = bodies name ss ++ bodies name ss' :=
  List.flatMap_append

theorem bodies_cons (name : String) (s : Statement) (ss : List Statement) :
    bodies name (s :: ss) = s.bodyIn name ++ bodies name ss :=
  List.flatMap_cons

theorem mem_namespaces : name ∈ namespaces ss ↔ ∃ s ∈ ss, s.namespace? = some name := by
  rw [namespaces, List.mem_eraseDups, List.mem_filterMap]

theorem bodies_of_notMem (hn : name ∉ namespaces ss) : bodies name ss = [] := by
  rw [bodies, List.flatMap_eq_nil_iff]
  intro s hs
  cases s with
  | nameSpace name' body =>
    refine if_neg fun he => hn (mem_namespaces.mpr ⟨_, hs, ?_⟩)
    exact congrArg some he
  | _ => rfl

theorem namespaces_concat (ss : List Statement) (s : Statement) :
    namespaces (ss ++ [s]) = match s.namespace? with
      | some name => if name ∈ namespaces ss then namespaces ss else namespaces ss ++ [name]
      | none => namespaces ss := by
  rw [namespaces, List.filterMap_append]
  cases hs : s.namespace? with
  | none => simp [hs, namespaces]
  | some name =>
    rw [List.filterMap_cons_some hs, List.filterMap_nil, eraseDups_concat]
    simp only [namespaces, List.mem_eraseDups]

end Statement

namespace Package

/-- The names of a package after a declaration. -/
def take (types : OrderedMap (String × DeclarationKind) DeclId) (d : Declared) :
    OrderedMap (String × DeclarationKind) DeclId :=
  (registerName types "" d.name d.kind d.decl).1

/-- The names of a package that took in some statements. -/
def registered (ss : List Statement) : OrderedMap (String × DeclarationKind) DeclId :=
  (Statement.named ss).foldl take .empty

/-- Labels are for reports alone. -/
theorem registerName_fst (types : OrderedMap (String × DeclarationKind) DeclId) (label : String)
    (d : Declared) : (registerName types label d.name d.kind d.decl).1 = take types d := by
  unfold take registerName
  split
  · rfl
  · cases d.kind with
    | classKind => dsimp only; split <;> rfl
    | interfaceKind => dsimp only; split <;> rfl

theorem registered_concat (ss : List Statement) (s : Statement) :
    registered (ss ++ [s]) = (s.declared?.toList).foldl take (registered ss) := by
  rw [registered, Statement.named_append, List.foldl_append]
  cases hs : s.declared? <;> simp [Statement.named, hs, registered]

end Package

open Statement Package

namespace PackageTree

variable {t t' t'' : PackageTree} {i j : PackageId} {ss more : List Statement}

/-! ### What packages hold -/

/-- A package has taken in some statements, one after the other. -/
inductive Holds (t : PackageTree) : PackageId → List Statement → Prop where
  | intro {i : PackageId} {ss : List Statement} (types : (t.node i).types = registered ss)
    (children : (t.node i).children.keys = namespaces ss)
    (inner : ∀ {name j}, t.Child i name j → t.Holds j (bodies name ss)) : t.Holds i ss

theorem Holds.types (h : t.Holds i ss) : (t.node i).types = registered ss := by
  cases h
  assumption

theorem Holds.children (h : t.Holds i ss) : (t.node i).children.keys = namespaces ss := by
  cases h
  assumption

theorem Holds.inner (h : t.Holds i ss) {name : String} (hc : t.Child i name j) :
    t.Holds j (bodies name ss) := by
  cases h with
  | intro _ _ inner => exact inner hc

/-- What a package holds depends on itself and on what is below it. -/
theorem Holds.congr (h : t.Holds i ss) (he : ∀ x, t.Below i x → t'.node x = t.node x) :
    t'.Holds i ss := by
  induction h with
  | @intro i ss types children _ ih =>
    have hi := he i .refl
    refine ⟨hi ▸ types, hi ▸ children, ?_⟩
    intro name j hc
    rw [Child, hi] at hc
    exact ih hc fun x hx => he x (.head ⟨name, hc⟩ hx)

theorem holds_nil (ht : (t.node i).types = .empty) (hc : (t.node i).children = .empty) :
    t.Holds i [] := by
  refine ⟨ht, ?_, ?_⟩
  · rw [hc]
    rfl
  · intro name j hj
    rw [Child, hc] at hj
    cases hj

/-- A tree in which a package has taken in more statements. -/
structure Extends (t : PackageTree) (i : PackageId) (more : List Statement) (t' : PackageTree) :
    Prop where
  forest : t'.IsForest
  kept : t.KeptIn t'
  files : t'.files = t.files
  frame : ∀ x : PackageId, x.index < t.nodes.length → ¬ t.Below i x → t'.node x = t.node x
  holds : ∀ ss, t.Holds i ss → t'.Holds i (ss ++ more)

theorem Extends.refl (hf : t.IsForest) (i : PackageId) : t.Extends i [] t :=
  ⟨hf, KeptIn.refl t, rfl, fun _ _ _ => rfl, fun ss hs => (List.append_nil ss).symm ▸ hs⟩

theorem Extends.trans {more' : List Statement} (hf : t.IsForest) (he : t.Extends i more t')
    (he' : t'.Extends i more' t'') : t.Extends i (more ++ more') t'' := by
  refine ⟨he'.forest, he.kept.trans he'.kept, he'.files.trans he.files, ?_, ?_⟩
  · intro x hx hb
    have hx' := Nat.lt_of_lt_of_le hx he.kept.length_le
    rw [he'.frame x hx' fun h => hb (below_of_keptIn hf he.forest he.kept hx h)]
    exact he.frame x hx hb
  · intro ss hs
    rw [← List.append_assoc]
    exact he'.holds _ (he.holds ss hs)

/-- The children of a package keep what they hold while the package itself takes in names. -/
theorem Holds.setTypes (hf : t.IsForest) (hi : i.index < t.nodes.length) (h : t.Holds i ss)
    (types : OrderedMap (String × DeclarationKind) DeclId) {name : String}
    (hc : t.Child i name j) : (t.setTypes i types).Holds j (bodies name ss) := by
  refine (h.inner hc).congr fun x hx => ?_
  rw [node_setTypes hi, if_neg (hf.ne_of_below hc hx)]

/-- A statement that neither opens a namespace nor declares a name leaves a package as it is. -/
theorem extends_self (hf : t.IsForest) (i : PackageId) {s : Statement} (hs : s.namespace? = none)
    (hbody : ∀ name, s.bodyIn name = []) (hd : s.declared? = none) : t.Extends i [s] t := by
  refine ⟨hf, KeptIn.refl t, rfl, fun _ _ _ => rfl, fun ss h => ⟨?_, ?_, ?_⟩⟩
  · rw [registered_concat, hd, h.types]
    rfl
  · rw [namespaces_concat, hs]
    exact h.children
  · intro name j hc
    rw [bodies_append, bodies, bodies, List.flatMap_singleton, hbody, List.append_nil]
    exact h.inner hc

/-- A statement that declares a name adds it to the names of a package. -/
theorem extends_setTypes (hf : t.IsForest) (hi : i.index < t.nodes.length) {s : Statement}
    (hs : s.namespace? = none) (hbody : ∀ name, s.bodyIn name = []) {d : Declared}
    (hd : s.declared? = some d) : t.Extends i [s] (t.setTypes i (take (t.node i).types d)) := by
  refine ⟨hf.setTypes hi _, keptIn_setTypes hi _, rfl, ?_, ?_⟩
  · intro x hx hb
    rw [node_setTypes hi, if_neg]
    rintro rfl
    exact hb .refl
  · intro ss h
    refine ⟨?_, ?_, ?_⟩
    · rw [node_setTypes hi, if_pos rfl, registered_concat, hd, h.types]
      rfl
    · rw [node_setTypes hi, if_pos rfl, namespaces_concat, hs]
      exact h.children
    · intro name j hc
      rw [bodies_append, bodies, bodies, List.flatMap_singleton, hbody, List.append_nil]
      exact h.setTypes hf hi _ ((child_setTypes_iff hi _).mp hc)

/-- A namespace that is opened holds what the namespaces of its name held before. -/
theorem Holds.child (hi : i.index < t.nodes.length) (h : t.Holds i ss) (name : String) :
    (t.child i name).2.Holds (t.child i name).1 (bodies name ss) := by
  obtain ⟨j, hj, he⟩ | ⟨hnone, hj, -, -, hnode⟩ := t.child_cases hi name
  · rw [he]
    exact h.inner hj
  · have hnew : name ∉ namespaces ss := by
      rw [← h.children]
      exact OrderedMap.get?_eq_none_iff.mp hnone
    rw [hj, bodies_of_notMem hnew]
    refine holds_nil ?_ ?_
    · rw [hnode, if_pos rfl]
    · rw [hnode, if_pos rfl]

/-- A namespace that is opened in a package takes in its statements there. -/
theorem extends_child (hf : t.IsForest) (hi : i.index < t.nodes.length) (name : String)
    (body : List Statement)
    (he : (t.child i (Identifier.sanitize name)).2.Extends
      (t.child i (Identifier.sanitize name)).1 body t') :
    t.Extends i [.nameSpace name body] t' := by
  obtain ⟨n, hn⟩ : ∃ n, Identifier.sanitize name = n := ⟨_, rfl⟩
  rw [hn] at he
  have hf₁ := hf.child hi n
  have hk₁ := t.keptIn_child hi n
  have hlinks : ∀ {a m b}, (t.child i n).2.Child a m b ↔ _ := t.child_child_iff hi n
  have hother := fun x => t.node_child_of_ne (x := x) hi n
  obtain ⟨htypes, hkeys⟩ := t.node_child_self hi n
  have hfiles : (t.child i n).2.files = t.files := by
    obtain ⟨j, -, h⟩ | ⟨-, -, h, -⟩ := t.child_cases hi n
    · rw [h]
    · exact h
  have hholds := fun ss (h : t.Holds i ss) => h.child hi n
  generalize t.child i n = opened at he hf₁ hk₁ hlinks hother htypes hkeys hfiles hholds
  obtain ⟨k, t₁⟩ := opened
  have hnew : t₁.Child i n k := hlinks.mpr (.inr ⟨rfl, rfl, rfl⟩)
  -- what was not below the package is not below the namespace either
  have hframe : ∀ x : PackageId, x.index < t.nodes.length → ¬ t₁.Below k x →
      t'.node x = t₁.node x :=
    fun x hx hb => he.frame x (Nat.lt_of_lt_of_le hx hk₁.length_le) hb
  have hself : t'.node i = t₁.node i := hframe i hi fun hb => hf₁.ne_of_below hnew hb rfl
  refine ⟨he.forest, hk₁.trans he.kept, he.files.trans hfiles, ?_, ?_⟩
  · intro x hx hb
    have hne : x ≠ i := by
      rintro rfl
      exact hb .refl
    rw [hframe x hx fun h => hb ?_, hother x hx hne]
    exact below_of_keptIn hf hf₁ hk₁ hx (.head ⟨_, hnew⟩ h)
  · intro ss h
    refine ⟨?_, ?_, ?_⟩
    · rw [hself, htypes, h.types, registered_concat]
      rfl
    · rw [hself, hkeys, h.children, namespaces_concat, namespace?, hn]
    · intro m b hc
      rw [Child, hself] at hc
      rw [bodies_append]
      rcases Decidable.em (m = n) with rfl | hm
      · have hb : b = k := Option.some.inj (hc.symm.trans hnew)
        subst hb
        have := he.holds _ (hholds ss h)
        simpa [bodies, bodyIn, hn] using this
      · have hnone : bodies m [.nameSpace name body] = [] := by
          simp [bodies, bodyIn, hn, Ne.symm hm]
        have hold : t.Child i m b := by
          rcases hlinks.mp hc with hc | ⟨-, hm', -⟩
          · exact hc
          · exact absurd hm' hm
        rw [hnone, List.append_nil]
        refine (h.inner hold).congr fun x hx => ?_
        have hxlt := hf.lt_length_of_below (hf.links hold).lt_length hx
        have hx₁ : t₁.Below b x := Below.mono hx fun h => hlinks.mpr (.inl h)
        rw [hframe x hxlt fun hkx => ?_, hother x hxlt (hf.ne_of_below hold hx)]
        -- the two children would be the same, and have the same name
        have hbk := hf₁.child_eq_of_below hc hnew hx₁ hkx
        subst hbk
        exact hm (hf₁.eq_of_child hc hnew).2

end PackageTree

namespace Growth

variable {g : Growth} {i : PackageId}

theorem register_extends (hf : g.tree.IsForest) (hi : i.index < g.tree.nodes.length)
    (label : String) (name : Option String) (kind : DeclarationKind) (decl : DeclId)
    {s : Statement} (hs : s.namespace? = none) (hbody : ∀ m, s.bodyIn m = [])
    (hd : s.declared? = name.map fun name => ⟨name, kind, decl⟩) :
    g.tree.Extends i [s] (g.register i label name kind decl).tree := by
  cases name with
  | none => exact PackageTree.extends_self hf i hs hbody hd
  | some name =>
    have h := PackageTree.extends_setTypes hf hi hs hbody hd
    rw [← registerName_fst _ label] at h
    exact h

/-- Taking statements into a package extends what it holds by them. -/
theorem scan_extends (ss : List Statement) (g : Growth) (i : PackageId) (label : String)
    (hf : g.tree.IsForest) (hi : i.index < g.tree.nodes.length) :
    g.tree.Extends i ss (g.scan i label ss).tree := by
  refine scan_induction
    (motive := fun g i label ss => g.tree.Extends i ss (g.scan i label ss).tree)
    ?nil ?cons ?nameSpace ?classDeclaration ?interfaceDeclaration ?typeAlias ?other ss hf hi label
  case nil =>
    intro g i _ hf
    exact .refl hf i
  case cons =>
    intro g i label s rest hf _ hs hrest
    exact hs.trans hf hrest
  case nameSpace =>
    intro g i label name body hf hi hbody
    exact PackageTree.extends_child hf hi name body hbody
  case classDeclaration =>
    intro g i label decl name hf hi
    exact register_extends hf hi label name .classKind decl rfl (fun _ => rfl) (by cases name <;> rfl)
  case interfaceDeclaration =>
    intro g i label decl name hf hi
    exact register_extends hf hi label name .interfaceKind decl rfl (fun _ => rfl)
      (by cases name <;> rfl)
  case typeAlias =>
    intro g i _ _ _ hf
    exact PackageTree.extends_self hf i rfl (fun _ => rfl) rfl
  case other =>
    intro g i _ hf
    exact PackageTree.extends_self hf i rfl (fun _ => rfl) rfl

end Growth

end TypeCatalog
