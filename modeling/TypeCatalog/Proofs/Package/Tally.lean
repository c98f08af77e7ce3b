/-
Every declaration is a name or is reported.

`Statement.declarationCount` counts the classes and interfaces of statements on all
levels, and `Diagnostic.omissions` the reports that one of them was left out.
Taking statements into a tree makes the names of its packages and these reports
together grow by one for each declaration (`Growth.tally_scan`): a class that
takes the place of an interface adds a name, takes one away and is reported.

A directory keeps the same account of the names that packages publish under one
key (`Directory.gains_publish`), and the packages of a tree that represents files
are visited once each, so the names of a tree are the declarations below its
roots (`PackageTree.Represents.nameCount_eq`).
-/
import TypeCatalog.Proofs.Package.Resolution

namespace TypeCatalog

namespace Statement

mutual

/-- How many classes and interfaces a statement declares, on all levels. -/
def declarationCount : Statement → Nat
  | nameSpace _ body => listDeclarationCount body
  | classDeclaration _ _ => 1
  | interfaceDeclaration _ _ => 1
  | typeAlias _ _ => 0
  | other => 0

/-- How many classes and interfaces statements declare, on all levels. -/
def listDeclarationCount : List Statement → Nat
  | [] => 0
  | s :: rest => s.declarationCount + listDeclarationCount rest

end

end Statement

open Statement

/-! ### Reports of what is left out -/

namespace Diagnostic

/-- Whether a report says that a declaration is not, or no longer, to be found by its name. -/
def isOmission (d : Diagnostic) : Bool := d.code ∈ [9005, 9006, 9007, 9008]

/-- How many reports say that a declaration is left out. -/
def omissions (ds : List Diagnostic) : Nat := ds.countP isOmission

@[simp] theorem omissions_nil : omissions [] = 0 := rfl

@[simp] theorem omissions_append (ds ds' : List Diagnostic) :
    omissions (ds ++ ds') = omissions ds + omissions ds' :=
  List.countP_append

theorem isOmission_ofNotice (notice : Notice) (subject : String) (args : List String) :
    (ofNotice notice subject args).isOmission = (notice.code ∈ [9005, 9006, 9007, 9008] : Bool) :=
  rfl

variable {package name : String} {kind : DeclarationKind}

@[simp] theorem omissions_duplicate : omissions [.duplicate package name kind] = 1 := by
  simp [omissions, duplicate, isOmission_ofNotice, Notice.code]

@[simp] theorem omissions_shadowed : omissions [.shadowed package name] = 1 := by
  simp [omissions, shadowed, isOmission_ofNotice, Notice.code]

@[simp] theorem omissions_unnamed : omissions [.unnamed package kind] = 1 := by
  simp [omissions, unnamed, isOmission_ofNotice, Notice.code]

end Diagnostic

open Diagnostic

/-! ### The names of a package -/

/-- A declaration adds a name or a report, or puts a name in the place of another and
reports that. -/
theorem Package.size_registerName (types : OrderedMap (String × DeclarationKind) DeclId)
    (label name : String) (kind : DeclarationKind) (decl : DeclId) :
    (registerName types label name kind decl).1.size
      + omissions (registerName types label name kind decl).2 = types.size + 1 := by
  have hinsert : ∀ {kind}, types.contains (name, kind) = false →
      (types.insert (name, kind) decl).size = types.size + 1 := by
    intro kind h
    refine OrderedMap.size_insert_of_notMem fun hk => ?_
    rw [OrderedMap.contains_iff.mpr hk] at h
    cases h
  unfold registerName
  split
  · simp
  rename_i hnew
  rw [Bool.not_eq_true] at hnew
  cases kind with
  | classKind =>
    dsimp only
    split
    · rename_i hi
      -- the interface goes, and the class is new among what is left
      have herase := OrderedMap.size_erase_of_mem (OrderedMap.contains_iff.mp hi)
      have hclass : (name, .classKind) ∉ (types.erase (name, .interfaceKind)).keys := by
        intro hk
        rw [OrderedMap.keys_erase] at hk
        have := OrderedMap.contains_iff.mpr (List.mem_filter.mp hk).1
        rw [hnew] at this
        cases this
      rw [OrderedMap.size_insert_of_notMem hclass, omissions_shadowed]
      omega
    · simp [hinsert hnew]
  | interfaceKind =>
    dsimp only
    split
    · simp
    · simp [hinsert hnew]

/-! ### The names of a tree -/

namespace PackageTree

variable {t : PackageTree} {i : PackageId}

/-- How many names the packages of a tree have together. -/
def nameCount (t : PackageTree) : Nat := (t.nodes.map fun node => node.types.size).sum

/-- A sum over a list changes with one of its elements. -/
theorem sum_map_modify {α : Type} (w : α → Nat) (f : α → α) {l : List α} {n : Nat} {a : α}
    (ha : l[n]? = some a) :
    ((l.modify n f).map w).sum + w a = (l.map w).sum + w (f a) := by
  induction l generalizing n with
  | nil => cases ha
  | cons b rest ih =>
    cases n with
    | zero =>
      cases ha
      simp only [List.modify_zero_cons, List.map_cons, List.sum_cons]
      omega
    | succ n =>
      have hrest := ih ha
      simp only [List.modify_succ_cons, List.map_cons, List.sum_cons]
      omega

theorem nameCount_modify (hi : i.index < t.nodes.length) (f : PackageNode → PackageNode) :
    (t.modify i f).nameCount + (t.node i).types.size
      = t.nameCount + (f (t.node i)).types.size := by
  have hget : t.nodes[i.index]? = some (t.node i) := by
    rw [node, List.getElem?_eq_getElem hi]
    rfl
  exact sum_map_modify (fun node => node.types.size) f hget

theorem nameCount_add {node : PackageNode} (hn : node.types = .empty) :
    (t.add node).2.nameCount = t.nameCount := by
  show ((t.nodes ++ [node]).map _).sum = _
  rw [List.map_append, List.sum_append_nat, List.map_singleton, hn]
  rfl

/-- Opening a namespace adds no name. -/
theorem nameCount_child (hi : i.index < t.nodes.length) (name : String) :
    (t.child i name).2.nameCount = t.nameCount := by
  unfold child
  split
  · rfl
  · obtain ⟨opened, hopened⟩ : ∃ opened : PackageNode,
        opened = ⟨some name, (t.node i).qualified name, some i, .empty, .empty⟩ :=
      ⟨_, rfl⟩
    rw [← hopened]
    have hlt : i.index < (t.add opened).2.nodes.length := by
      show i.index < (t.nodes ++ [opened]).length
      rw [List.length_append]
      omega
    have hadd : (t.add opened).2.nameCount = t.nameCount := nameCount_add (by rw [hopened])
    have hmodify := nameCount_modify hlt fun node =>
      { node with children := node.children.insert name ⟨t.nodes.length⟩ }
    exact (Nat.add_right_cancel hmodify).trans hadd

end PackageTree

/-! ### Taking statements in -/

namespace Growth

open PackageTree

variable {g : Growth} {i : PackageId} {rootDir : Option String} {done : List SourceFile}

/-- How many names there are and how many declarations were left out. -/
def tally (g : Growth) : Nat := g.tree.nameCount + omissions g.reports

theorem tally_register (hi : i.index < g.tree.nodes.length) (label : String)
    (name : Option String) (kind : DeclarationKind) (decl : DeclId) :
    (g.register i label name kind decl).tally = g.tally + 1 := by
  cases name with
  | none =>
    show g.tree.nameCount + omissions (g.reports ++ _) = _
    rw [omissions_append, omissions_unnamed, tally]
    omega
  | some name =>
    have hsize := Package.size_registerName (g.tree.node i).types label name kind decl
    rw [register]
    generalize Package.registerName (g.tree.node i).types label name kind decl = taken at hsize ⊢
    obtain ⟨types, reports⟩ := taken
    have hmodify := nameCount_modify hi fun node => { node with types := types }
    show (g.tree.modify i fun node => { node with types := types }).nameCount
      + omissions (g.reports ++ reports) = g.tree.nameCount + omissions g.reports + 1
    dsimp only at hsize hmodify
    rw [omissions_append]
    omega

/-- Each class and each interface of the statements adds one. -/
theorem tally_scan (ss : List Statement) (g : Growth) (i : PackageId) (label : String)
    (hf : g.tree.IsForest) (hi : i.index < g.tree.nodes.length) :
    (g.scan i label ss).tally = g.tally + listDeclarationCount ss := by
  refine scan_induction
    (motive := fun g i label ss => (g.scan i label ss).tally = g.tally + listDeclarationCount ss)
    ?nil ?cons ?nameSpace ?classDeclaration ?interfaceDeclaration ?typeAlias ?other ss hf hi label
  case nil =>
    intro g i _ _
    rfl
  case cons =>
    intro g i label s rest _ _ hs hrest
    change (g.scanStatement i label s).tally = _ + (_ + 0) at hs
    rw [scan, hrest, hs, listDeclarationCount]
    omega
  case nameSpace =>
    intro g i label name body _ hi hbody
    have hopened := nameCount_child hi (Identifier.sanitize name)
    rw [tally, tally, hopened] at hbody
    exact hbody
  case classDeclaration =>
    intro g i label decl name _ hi
    exact tally_register hi label name .classKind decl
  case interfaceDeclaration =>
    intro g i label decl name _ hi
    exact tally_register hi label name .interfaceKind decl
  case typeAlias =>
    intro g i _ _ _ _
    rfl
  case other =>
    intro g i _ _
    rfl

theorem tally_addFile (rootDir : Option String) (hf : g.tree.IsForest) (file : SourceFile) :
    (g.addFile file rootDir).2.tally
      = g.tally + ((SourceFile.packaged [file]).map (listDeclarationCount ·.statements)).sum := by
  cases hd : file.isDeclarationFile with
  | true =>
    rw [addFile, if_pos hd]
    simp [SourceFile.packaged, hd]
  | false =>
    obtain ⟨name, hname⟩ : ∃ name, Package.name file.fileName rootDir = name := ⟨_, rfl⟩
    have hnew : g.tree.nodes.length < (g.tree.withRoot name).nodes.length := by
      rw [length_withRoot]
      omega
    have hscan := tally_scan file.statements ⟨g.tree.withRoot name, g.reports⟩
      ⟨g.tree.nodes.length⟩ name (hf.withRoot name) hnew
    have hroot : (g.tree.withRoot name).nameCount = g.tree.nameCount :=
      nameCount_add (t := g.tree) rfl
    rw [addFile, if_neg (by simp [hd]), hname]
    refine hscan.trans ?_
    rw [tally, tally, hroot]
    simp [SourceFile.packaged, hd]

theorem tally_addFiles (h : g.tree.Represents rootDir done) (files : List SourceFile) :
    (addFiles rootDir g files).2.tally
      = g.tally + ((SourceFile.packaged files).map (listDeclarationCount ·.statements)).sum := by
  induction files generalizing g done with
  | nil => rfl
  | cons file rest ih =>
    have hfile := tally_addFile rootDir h.forest file
    have hrest := ih (addFile_represents h file).1
    rw [SourceFile.packaged_cons, List.map_append, List.sum_append_nat]
    show (addFiles rootDir (g.addFile file rootDir).2 rest).2.tally = _
    omega

end Growth

/-! ### Visiting all names -/

/-- The names in the packages of a file, package by package. -/
def SourceFile.registered (file : SourceFile) : List ((String × DeclarationKind) × DeclId) :=
  (PackageScope.ofFile file).within.flatMap fun s => (Package.registered s.statements).entries

namespace PackageTree

variable {t : PackageTree} {i : PackageId} {rootDir : Option String} {files : List SourceFile}

/-- The names in some packages and all below them. -/
def registeredBelow (t : PackageTree) (roots : List PackageId) :
    List ((String × DeclarationKind) × DeclId) :=
  (roots.flatMap t.depthFirst).flatMap fun id => (t.node id).types.entries

theorem registeredBelow_append (t : PackageTree) (roots roots' : List PackageId) :
    t.registeredBelow (roots ++ roots') = t.registeredBelow roots ++ t.registeredBelow roots' := by
  rw [registeredBelow, List.flatMap_append, List.flatMap_append]
  rfl

theorem registeredBelow_of_walk {scopes : List PackageScope}
    (h : t.Walk [i] scopes (t.depthFirst i)) :
    t.registeredBelow [i] = scopes.flatMap fun s => (Package.registered s.statements).entries := by
  have hshows := h.shows
  clear h
  rw [registeredBelow, List.flatMap_singleton]
  generalize t.depthFirst i = ids at hshows ⊢
  induction hshows with
  | nil => rfl
  | cons hs _ ih => rw [List.flatMap_cons, List.flatMap_cons, ih, hs.2]

/-- The names below the roots of some files are the names of these files. -/
theorem registeredBelow_of_isRootOf (hf : t.IsForest) {ps : List FilePackage}
    (hroots : List.Forall₂ (t.IsRootOf rootDir) ps files) (hps : ∀ p ∈ ps, p ∈ t.files) :
    t.registeredBelow (ps.map FilePackage.root) = files.flatMap SourceFile.registered := by
  induction hroots with
  | nil => rfl
  | @cons p file ps files hroot _ ih =>
    have hrest := ih fun q hq => hps q (List.mem_cons_of_mem p hq)
    have hfile := registeredBelow_of_walk (hroot.walk hf (hps p List.mem_cons_self))
    rw [List.map_cons, ← List.singleton_append, registeredBelow_append, hfile, hrest]
    rfl

theorem Represents.exists_walk (h : t.Represents rootDir files)
    (hi : i ∈ t.files.map FilePackage.root) : ∃ scopes, t.Walk [i] scopes (t.depthFirst i) := by
  obtain ⟨p, hp, rfl⟩ := List.mem_map.mp hi
  obtain ⟨file, -, hroot⟩ := exists_right_of_forall₂ h.files p hp
  exact ⟨_, hroot.walk h.forest hp⟩

/-- The visits from all roots come to every package once. -/
theorem Represents.perm_visits (h : t.Represents rootDir files) :
    ((t.files.map FilePackage.root).flatMap t.depthFirst).Perm
      ((List.range t.nodes.length).map PackageId.mk) := by
  have hbelow : ∀ {i x}, i ∈ t.files.map FilePackage.root → x ∈ t.depthFirst i → t.Below i x := by
    intro i x hi hx
    obtain ⟨scopes, hwalk⟩ := h.exists_walk hi
    obtain ⟨i', hi', hb⟩ := (hwalk.mem x).mp hx
    rwa [List.mem_singleton.mp hi'] at hb
  have honce : ((t.files.map FilePackage.root).flatMap t.depthFirst).Nodup := by
    refine List.nodup_flatMap.mpr ⟨fun i hi => ?_, ?_⟩
    · obtain ⟨scopes, hwalk⟩ := h.exists_walk hi
      exact hwalk.nodup
    · refine h.forest.distinct.imp_of_mem fun {i j} hi hj hne => ?_
      -- what is below two roots makes them one
      intro x hx hx'
      exact hne (h.forest.root_eq_of_below hi hj (hbelow hi hx) (hbelow hj hx'))
  have hrange : ((List.range t.nodes.length).map PackageId.mk).Nodup :=
    List.nodup_range.map fun a b hab => congrArg PackageId.index hab
  refine (List.perm_ext_iff_of_nodup honce hrange).mpr fun x => ?_
  rw [List.mem_map]
  constructor
  · intro hx
    obtain ⟨i, hi, hx⟩ := List.mem_flatMap.mp hx
    have hlt := h.forest.lt_length_of_below (h.forest.roots i hi).1 (hbelow hi hx)
    exact ⟨x.index, List.mem_range.mpr hlt, rfl⟩
  · rintro ⟨n, hn, rfl⟩
    exact h.mem_depthFirst (List.mem_range.mp hn)

theorem Represents.registeredBelow_eq (h : t.Represents rootDir files) :
    t.registeredBelow (t.files.map FilePackage.root) = files.flatMap SourceFile.registered :=
  registeredBelow_of_isRootOf h.forest h.files fun _ hp => hp

/-- The names of a tree are those of its files. -/
theorem Represents.nameCount_eq (h : t.Represents rootDir files) :
    t.nameCount = (files.flatMap SourceFile.registered).length := by
  have hnodes : t.nodes = ((List.range t.nodes.length).map PackageId.mk).map t.node := by
    refine List.ext_getElem (by simp) fun n hn _ => ?_
    rw [List.getElem_map, List.getElem_map, List.getElem_range, node,
      List.getElem?_eq_getElem hn]
    rfl
  have hperm := (h.perm_visits.map fun id => (t.node id).types.size).sum_nat
  rw [← h.registeredBelow_eq, registeredBelow, List.length_flatMap, nameCount]
  refine Eq.trans ?_ hperm.symm
  conv_lhs => rw [hnodes]
  rw [List.map_map]
  rfl

end PackageTree

/-! ### The names of a directory -/

namespace Directory

variable {d : Directory} {key name : String} {names : PackageTable}

/-- How many names there are under all keys. -/
def nameCount (d : Directory) : Nat := (d.packages.values.map OrderedMap.size).sum

/-- How many names there are and how many declarations were left out. -/
def tally (d : Directory) : Nat := d.nameCount + omissions d.reports

/-- The names with a kind are the names under the keys. -/
def IsIndexed (d : Directory) : Prop :=
  ∀ key name, (∃ kind, d.kinds.get? (key, name) = some kind) ↔ name ∈ (d.names key).keys

theorem isIndexed_empty : empty.IsIndexed := fun _ _ => ⟨nofun, nofun⟩

theorem nameCount_insert (d : Directory) (key : String) (names : PackageTable)
    (kinds : OrderedMap (String × String) DeclarationKind) (reports : List Diagnostic) :
    nameCount ⟨d.packages.insert key names, kinds, reports⟩ + (d.names key).size
      = d.nameCount + names.size := by
  have hsum := OrderedMap.sum_values_insert OrderedMap.size d.packages key names
  have hold : ((d.packages.get? key).map OrderedMap.size).getD 0 = (d.names key).size := by
    rw [Directory.names]
    cases d.packages.get? key <;> rfl
  rw [hold] at hsum
  exact hsum

/-- A name gets its kind when it comes in, or another one where it stood. -/
theorem IsIndexed.insert (hd : d.IsIndexed)
    (hnames : ∀ x, x ∈ names.keys ↔ name = x ∨ x ∈ (d.names key).keys) (kind : DeclarationKind)
    (reports : List Diagnostic) :
    IsIndexed ⟨d.packages.insert key names, d.kinds.insert (key, name) kind, reports⟩ := by
  intro key' x
  rw [names_insert, OrderedMap.get?_insert]
  by_cases hkey : key = key'
  · subst hkey
    rw [if_pos rfl, hnames, ← hd key x]
    by_cases hx : name = x
    · simp [hx]
    · simp [hx]
  · rw [if_neg hkey, if_neg fun h => hkey (congrArg Prod.fst h)]
    exact hd key' x

/-- A directory that accounts for some more declarations than another one. -/
structure Gains (d : Directory) (n : Nat) (d' : Directory) : Prop where
  indexed : d'.IsIndexed
  tally : d'.tally = d.tally + n

theorem Gains.trans {d' d'' : Directory} {n n' : Nat} (h : d.Gains n d') (h' : d'.Gains n' d'') :
    d.Gains (n + n') d'' :=
  ⟨h'.indexed, by rw [h'.tally, h.tally, Nat.add_assoc]⟩

theorem gains_openKey (hd : d.IsIndexed) (key : String) : d.Gains 0 (d.openKey key) := by
  refine ⟨fun key' x => ?_, ?_⟩
  · rw [openKey, names_insert]
    split
    · rename_i hkey
      exact hkey ▸ hd key x
    · exact hd key' x
  · have hcount := nameCount_insert d key (d.names key) d.kinds d.reports
    exact congrArg (· + omissions d.reports) (Nat.add_right_cancel hcount)

theorem gains_report (hd : d.IsIndexed) (report : Diagnostic) :
    d.Gains (omissions [report]) { d with reports := d.reports ++ [report] } := by
  refine ⟨hd, ?_⟩
  show d.nameCount + omissions (d.reports ++ [report]) = d.nameCount + _ + _
  rw [omissions_append, Nat.add_assoc]

theorem gains_add (hd : d.IsIndexed) (hnew : name ∉ (d.names key).keys) (kind : DeclarationKind)
    (slot : SlotId) :
    d.Gains 1 ⟨d.packages.insert key ((d.names key).insert name slot),
      d.kinds.insert (key, name) kind, d.reports⟩ := by
  refine ⟨hd.insert (fun x => ?_) kind d.reports, ?_⟩
  · rw [OrderedMap.keys_insert, if_neg hnew, List.mem_append, List.mem_singleton, or_comm, eq_comm]
  · have hcount := nameCount_insert d key ((d.names key).insert name slot)
      (d.kinds.insert (key, name) kind) d.reports
    rw [OrderedMap.size_insert_of_notMem hnew] at hcount
    rw [Directory.tally, Directory.tally]
    dsimp only
    omega

/-- A name that comes last takes the place of another one, which is reported. -/
theorem gains_replace (hd : d.IsIndexed) (hold : name ∈ (d.names key).keys)
    (kind : DeclarationKind) (slot : SlotId) :
    d.Gains 1 ⟨d.packages.insert key (((d.names key).erase name).insert name slot),
      d.kinds.insert (key, name) kind, d.reports ++ [.shadowed key name]⟩ := by
  have hnew : name ∉ ((d.names key).erase name).keys := by simp [OrderedMap.keys_erase]
  refine ⟨hd.insert (fun x => ?_) kind _, ?_⟩
  · rw [OrderedMap.keys_insert, if_neg hnew, OrderedMap.keys_erase]
    by_cases hx : name = x
    · simp [hx]
    · simp [hx, Ne.symm hx]
  · have hcount := nameCount_insert d key (((d.names key).erase name).insert name slot)
      (d.kinds.insert (key, name) kind) (d.reports ++ [.shadowed key name])
    have herase := OrderedMap.size_erase_of_mem hold
    rw [OrderedMap.size_insert_of_notMem hnew] at hcount
    rw [Directory.tally, Directory.tally]
    dsimp only
    rw [omissions_append, omissions_shadowed]
    omega

/-- Publishing adds a name or a report, or exchanges a name and reports that. -/
theorem gains_publish (hd : d.IsIndexed) (key name : String) (kind : DeclarationKind)
    (slot : SlotId) : d.Gains 1 (d.publish key name kind slot) := by
  have hreport : ∀ report, omissions [report] = 1 →
      d.Gains 1 { d with reports := d.reports ++ [report] } :=
    fun report h => h ▸ gains_report hd report
  unfold publish
  cases hk : d.kinds.get? (key, name) with
  | none =>
    refine gains_add hd (fun hmem => ?_) kind slot
    obtain ⟨kind', hkind'⟩ := (hd key name).mpr hmem
    rw [hk] at hkind'
    cases hkind'
  | some existing =>
    have hold : name ∈ (d.names key).keys := (hd key name).mp ⟨existing, hk⟩
    cases existing with
    | classKind => cases kind with
      | classKind => exact hreport _ omissions_duplicate
      | interfaceKind => exact hreport _ omissions_shadowed
    | interfaceKind => cases kind with
      | classKind => exact gains_replace hd hold .classKind slot
      | interfaceKind => exact hreport _ omissions_duplicate

/-- What each step gains, all of them together gain. -/
theorem gains_foldl {α : Type} {f : Directory → α → Directory} {w : α → Nat}
    (hf : ∀ {d : Directory} a, d.IsIndexed → d.Gains (w a) (f d a)) (as : List α)
    (hd : d.IsIndexed) : d.Gains (as.map w).sum (as.foldl f d) := by
  induction as generalizing d with
  | nil => exact ⟨hd, rfl⟩
  | cons a rest ih =>
    rw [List.foldl_cons, List.map_cons, List.sum_cons]
    exact (hf a hd).trans (ih (hf a hd).indexed)

theorem gains_publishNode (hd : d.IsIndexed) (layout : PackageLayout)
    (declared : OrderedMap DeclId SlotId) (file : FilePackage) (node : PackageNode) :
    d.Gains (node.types.entries.countP fun e => declared.contains e.2)
      (publishNode layout declared file d node) := by
  have hopen := gains_openKey hd (layout.key file node)
  have hsum : (node.types.entries.map fun e => if declared.contains e.2 then 1 else 0).sum
      = node.types.entries.countP fun e => declared.contains e.2 := by
    induction node.types.entries with
    | nil => rfl
    | cons e rest ih => rw [List.map_cons, List.sum_cons, ih, List.countP_cons, Nat.add_comm]
  rw [← hsum, ← Nat.zero_add (List.sum _)]
  refine hopen.trans (gains_foldl (fun {d} e hd => ?_) node.types.entries hopen.indexed)
  rw [OrderedMap.contains]
  cases declared.get? e.2 with
  | none => exact ⟨hd, rfl⟩
  | some slot => exact gains_publish hd _ _ _ slot

/-- A directory accounts for the names in the tree that have a slot. -/
theorem tally_ofTree (layout : PackageLayout) (t : PackageTree)
    (declared : OrderedMap DeclId SlotId) :
    (ofTree layout t declared).tally
      = (t.registeredBelow (t.files.map FilePackage.root)).countP
        fun e => declared.contains e.2 := by
  have hfile : ∀ {d : Directory} (file : FilePackage), d.IsIndexed →
      d.Gains ((t.depthFirst file.root).map fun id =>
          (t.node id).types.entries.countP fun e => declared.contains e.2).sum
        ((t.depthFirst file.root).foldl (fun d id =>
          publishNode layout declared file d (t.node id)) d) := by
    intro d file hd
    exact gains_foldl (fun id hd => gains_publishNode hd layout declared file (t.node id)) _ hd
  rw [ofTree, (gains_foldl hfile t.files isIndexed_empty).tally, PackageTree.registeredBelow,
    List.countP_flatMap, List.flatMap_def, List.map_flatten, List.sum_flatten]
  simp only [List.map_map, Function.comp_def]
  exact Nat.zero_add _

end Directory

end TypeCatalog
