/-
The order of files in a directory.

What is published under a key depends on what was published under it before, and
on nothing else: `Directory.WorksOn` says of a step that it leaves all other keys as
they are, and that what it does is settled by what there is under its own.  Steps on
different keys can therefore be taken in either order (`WorksOn.commute`), but for
the order of reports.

A directory is made file by file from the statements alone
(`Directory.ofTree_eq`).  When no key is that of two different files, the directories
of all orders of the files match (`Directory.matches_ofTree`).
-/
import TypeCatalog.Proofs.Package.Resolution

namespace TypeCatalog

open Package

/-- A file publishes under a key. -/
def PackageLayout.HasKey (layout : PackageLayout) (rootDir : Option String) (file : SourceFile)
    (key : String) : Prop :=
  ∃ s ∈ (PackageScope.ofFile file).within,
    layout.scopeKey (Package.name file.fileName rootDir) s = key

/-- No key is that of two different files. -/
def PackageLayout.Separates (layout : PackageLayout) (rootDir : Option String)
    (files : List SourceFile) : Prop :=
  ∀ file ∈ SourceFile.packaged files, ∀ file' ∈ SourceFile.packaged files, ∀ key,
    layout.HasKey rootDir file key → layout.HasKey rootDir file' key → file = file'

namespace Directory

variable {d d' d'' : Directory} {K K' : String → Prop} {f g : Directory → Directory}
  {layout : PackageLayout} {declared : OrderedMap DeclId SlotId}

/-- Two directories have the same under the same keys, and the same reports in some order. -/
structure Matches (d d' : Directory) : Prop where
  packages : ∀ key, d'.packages.get? key = d.packages.get? key
  kinds : ∀ key name, d'.kinds.get? (key, name) = d.kinds.get? (key, name)
  reports : d'.reports.Perm d.reports

theorem Matches.refl (d : Directory) : d.Matches d := ⟨fun _ => rfl, fun _ _ => rfl, .refl _⟩

theorem Matches.trans (h : d.Matches d') (h' : d'.Matches d'') : d.Matches d'' :=
  ⟨fun key => (h'.packages key).trans (h.packages key),
    fun key name => (h'.kinds key name).trans (h.kinds key name), h'.reports.trans h.reports⟩

/-! ### Steps on some keys -/

/-- Two directories have the same under some keys. -/
structure AgreesOn (K : String → Prop) (d d' : Directory) : Prop where
  packages : ∀ key, K key → d'.packages.get? key = d.packages.get? key
  kinds : ∀ key name, K key → d'.kinds.get? (key, name) = d.kinds.get? (key, name)

theorem AgreesOn.trans (h : d.AgreesOn K d') (h' : d'.AgreesOn K d'') : d.AgreesOn K d'' :=
  ⟨fun key hk => (h'.packages key hk).trans (h.packages key hk),
    fun key name hk => (h'.kinds key name hk).trans (h.kinds key name hk)⟩

theorem AgreesOn.symm (h : d.AgreesOn K d') : d'.AgreesOn K d :=
  ⟨fun key hk => (h.packages key hk).symm, fun key name hk => (h.kinds key name hk).symm⟩

theorem AgreesOn.mono (h : d.AgreesOn K d') (hK : ∀ key, K' key → K key) : d.AgreesOn K' d' :=
  ⟨fun key hk => h.packages key (hK key hk), fun key name hk => h.kinds key name (hK key hk)⟩

theorem AgreesOn.or (h : d.AgreesOn K d') (h' : d.AgreesOn K' d') :
    d.AgreesOn (fun key => K key ∨ K' key) d' :=
  ⟨fun key hk => hk.elim (h.packages key) (h'.packages key),
    fun key name hk => hk.elim (h.kinds key name) (h'.kinds key name)⟩

theorem Matches.agreesOn (h : d.Matches d') (K : String → Prop) : d.AgreesOn K d' :=
  ⟨fun key _ => h.packages key, fun key name _ => h.kinds key name⟩

/-- A step leaves the keys alone that are not its own, and what it does depends on what
there is under its own. -/
structure WorksOn (K : String → Prop) (f : Directory → Directory) : Prop where
  frame : ∀ d : Directory, d.AgreesOn (fun key => ¬ K key) (f d)
  reads : ∀ {d d' : Directory}, d.AgreesOn K d' → (f d).AgreesOn K (f d') ∧
    ∃ news, (f d).reports = d.reports ++ news ∧ (f d').reports = d'.reports ++ news

namespace WorksOn

theorem id (K : String → Prop) : WorksOn K fun d => d :=
  ⟨fun _ => ⟨fun _ _ => rfl, fun _ _ _ => rfl⟩,
    fun h => ⟨h, [], (List.append_nil _).symm, (List.append_nil _).symm⟩⟩

theorem comp (hf : WorksOn K f) (hg : WorksOn K g) : WorksOn K fun d => g (f d) := by
  refine ⟨fun d => (hf.frame d).trans (hg.frame (f d)), fun h => ?_⟩
  obtain ⟨h₁, news, hd, hd'⟩ := hf.reads h
  obtain ⟨h₂, more, hfd, hfd'⟩ := hg.reads h₁
  refine ⟨h₂, news ++ more, ?_, ?_⟩
  · rw [hfd, hd, List.append_assoc]
  · rw [hfd', hd', List.append_assoc]

theorem foldl {α : Type} {step : Directory → α → Directory} (as : List α)
    (h : ∀ a ∈ as, WorksOn K fun d => step d a) : WorksOn K fun d => as.foldl step d := by
  induction as with
  | nil => exact .id K
  | cons a rest ih =>
    exact (h a List.mem_cons_self).comp (ih fun b hb => h b (List.mem_cons_of_mem a hb))

/-- A step on some keys is a step on more keys. -/
theorem mono (hf : WorksOn K f) (hK : ∀ key, K key → K' key) : WorksOn K' f := by
  refine ⟨fun d => (hf.frame d).mono fun key hk h => hk (hK key h), fun {d d'} h => ?_⟩
  obtain ⟨hown, hnews⟩ := hf.reads (h.mono hK)
  refine ⟨?_, hnews⟩
  -- keys that are not the step's own are as they were
  have hothers : (f d).AgreesOn (fun key => K' key ∧ ¬ K key) (f d') :=
    (((hf.frame d).symm.mono fun _ hk => hk.2).trans (h.mono fun _ hk => hk.1)).trans
      ((hf.frame d').mono fun _ hk => hk.2)
  refine (hown.or hothers).mono fun key hk => ?_
  by_cases hkey : K key
  · exact .inl hkey
  · exact .inr ⟨hk, hkey⟩

theorem matches_map (hf : WorksOn K f) (h : d.Matches d') : (f d).Matches (f d') := by
  have hall : WorksOn (fun _ => True) f := hf.mono fun _ _ => trivial
  obtain ⟨hsame, news, hd, hd'⟩ := hall.reads (h.agreesOn _)
  refine ⟨fun key => hsame.packages key trivial, fun key name => hsame.kinds key name trivial, ?_⟩
  rw [hd, hd']
  exact h.reports.append_right news

/-- Steps on different keys can be taken in either order. -/
theorem commute (hf : WorksOn K f) (hg : WorksOn K' g) (hd : ∀ key, K key → ¬ K' key)
    (d : Directory) : (g (f d)).Matches (f (g d)) := by
  have hleft : d.AgreesOn K (g d) := (hg.frame d).mono hd
  have hright : d.AgreesOn K' (f d) := (hf.frame d).mono fun key hk h => hd key h hk
  obtain ⟨hf', news, hfd, hfg⟩ := hf.reads hleft
  obtain ⟨hg', more, hgd, hgf⟩ := hg.reads hright
  -- the keys are those of one step, those of the other, or of neither
  have hown : (g (f d)).AgreesOn K (f (g d)) :=
    ((hg.frame (f d)).symm.mono hd).trans hf'
  have hother : (g (f d)).AgreesOn K' (f (g d)) :=
    hg'.symm.trans ((hf.frame (g d)).mono fun key hk h => hd key h hk)
  have hrest : (g (f d)).AgreesOn (fun key => ¬ K key ∧ ¬ K' key) (f (g d)) :=
    ((((hg.frame (f d)).symm.mono fun _ hk => hk.2).trans
      ((hf.frame d).symm.mono fun _ hk => hk.1)).trans ((hg.frame d).mono fun _ hk => hk.2)).trans
        ((hf.frame (g d)).mono fun _ hk => hk.1)
  have hsame := (hown.or hother).or hrest
  have hall : ∀ key, (K key ∨ K' key) ∨ ¬ K key ∧ ¬ K' key := by
    intro key
    by_cases hk : K key
    · exact .inl (.inl hk)
    · by_cases hk' : K' key
      · exact .inl (.inr hk')
      · exact .inr ⟨hk, hk'⟩
  refine ⟨fun key => hsame.packages key (hall key), fun key name => hsame.kinds key name (hall key),
    ?_⟩
  rw [hgf, hfd, hfg, hgd, List.append_assoc, List.append_assoc]
  exact List.perm_append_comm.append_left d.reports

end WorksOn

/-- Steps of which different ones work on different keys can be taken in any order. -/
theorem matches_foldl_of_perm {α : Type} {step : Directory → α → Directory}
    {K : α → String → Prop} {as bs : List α} (hp : as.Perm bs)
    (hworks : ∀ a, WorksOn (K a) fun d => step d a)
    (hkeys : ∀ a ∈ as, ∀ b ∈ as, ∀ key, K a key → K b key → a = b) (h : d.Matches d') :
    (as.foldl step d).Matches (bs.foldl step d') := by
  induction hp generalizing d d' with
  | nil => exact h
  | cons a _ ih =>
    refine ih (fun b hb c hc => ?_) ((hworks a).matches_map h)
    exact hkeys b (List.mem_cons_of_mem a hb) c (List.mem_cons_of_mem a hc)
  | swap a b rest =>
    have hswap : (step (step d b) a).Matches (step (step d' a) b) := by
      by_cases heq : a = b
      -- the keys of equal steps need not differ
      · subst heq
        exact (hworks a).matches_map ((hworks a).matches_map h)
      · have hcommute : (step (step d b) a).Matches (step (step d a) b) :=
          (hworks b).commute (hworks a) (fun key hb ha => heq
            (hkeys a (by simp) b (by simp) key ha hb)) d
        exact hcommute.trans ((hworks b).matches_map ((hworks a).matches_map h))
    have hrest : WorksOn (fun _ => True) fun d => rest.foldl step d :=
      .foldl rest fun c _ => (hworks c).mono fun _ _ => trivial
    exact hrest.matches_map hswap
  | trans hp _ ih ih' =>
    have hkeys' : ∀ a ∈ _, ∀ b ∈ _, ∀ key, K a key → K b key → a = b := fun a ha b hb =>
      hkeys a (hp.mem_iff.mpr ha) b (hp.mem_iff.mpr hb)
    exact (ih hkeys (.refl d)).trans (ih' hkeys' h)

/-! ### The steps of a directory -/

theorem worksOn_openKey (key : String) : WorksOn (· = key) (openKey · key) := by
  refine ⟨fun d => ⟨fun key' hk => ?_, fun _ _ _ => rfl⟩, fun {d d'} h => ⟨⟨?_, ?_⟩, [], ?_, ?_⟩⟩
  · rw [openKey, OrderedMap.get?_insert, if_neg fun he => hk he.symm]
  · rintro key' rfl
    rw [openKey, openKey, OrderedMap.get?_insert, OrderedMap.get?_insert, names, names,
      h.packages key' rfl]
  · exact fun key' name hk => h.kinds key' name hk
  · exact (List.append_nil _).symm
  · exact (List.append_nil _).symm

section

variable {key name : String}

theorem agreesOn_put (d : Directory) (names : PackageTable) (kind : DeclarationKind)
    (reports : List Diagnostic) : d.AgreesOn (fun key' => ¬ key' = key)
      ⟨d.packages.insert key names, d.kinds.insert (key, name) kind, reports⟩ := by
  refine ⟨fun key' hk => ?_, fun key' name' hk => ?_⟩
  · rw [OrderedMap.get?_insert, if_neg fun he => hk he.symm]
  · rw [OrderedMap.get?_insert, if_neg fun he => hk (congrArg Prod.fst he).symm]

theorem AgreesOn.put (h : d.AgreesOn (· = key) d') (names : PackageTable) (kind : DeclarationKind)
    (reports reports' : List Diagnostic) : AgreesOn (· = key)
      ⟨d.packages.insert key names, d.kinds.insert (key, name) kind, reports⟩
      ⟨d'.packages.insert key names, d'.kinds.insert (key, name) kind, reports'⟩ := by
  refine ⟨?_, fun key' name' hk => ?_⟩
  · rintro key' rfl
    rw [OrderedMap.get?_insert, OrderedMap.get?_insert, if_pos rfl, if_pos rfl]
  · rw [OrderedMap.get?_insert, OrderedMap.get?_insert, h.kinds key' name' hk]

/-- What comes of publishing a name depends on the names under its key and on its kind so far. -/
theorem worksOn_publish (key name : String) (kind : DeclarationKind) (slot : SlotId) :
    WorksOn (· = key) (publish · key name kind slot) := by
  refine ⟨fun d => ?_, fun {d d'} h => ?_⟩
  · unfold publish
    cases d.kinds.get? (key, name) with
    | none => exact d.agreesOn_put _ kind d.reports
    | some existing => cases existing with
      | classKind => cases kind <;> exact ⟨fun _ _ => rfl, fun _ _ _ => rfl⟩
      | interfaceKind => cases kind with
        | classKind => exact d.agreesOn_put _ .classKind _
        | interfaceKind => exact ⟨fun _ _ => rfl, fun _ _ _ => rfl⟩
  · have hnames : d'.names key = d.names key := by rw [names, names, h.packages key rfl]
    unfold publish
    rw [h.kinds key name rfl, hnames]
    cases d.kinds.get? (key, name) with
    | none =>
      exact ⟨h.put _ kind _ _, [], (List.append_nil _).symm, (List.append_nil _).symm⟩
    | some existing => cases existing with
      | classKind => cases kind <;> exact ⟨⟨h.packages, h.kinds⟩, _, rfl, rfl⟩
      | interfaceKind => cases kind with
        | classKind => exact ⟨h.put _ .classKind _ _, _, rfl, rfl⟩
        | interfaceKind => exact ⟨⟨h.packages, h.kinds⟩, _, rfl, rfl⟩

end

theorem worksOn_publishNode (layout : PackageLayout) (declared : OrderedMap DeclId SlotId)
    (file : FilePackage) (node : PackageNode) :
    WorksOn (· = layout.key file node) fun d => publishNode layout declared file d node := by
  refine (worksOn_openKey (layout.key file node)).comp (.foldl node.types.entries fun e _ => ?_)
  cases declared.get? e.2 with
  | none => exact .id _
  | some slot => exact worksOn_publish _ _ _ slot

/-! ### File by file -/

/-- A scope as a package. -/
def nodeOf (s : PackageScope) : PackageNode :=
  { PackageNode.root with fullName := s.fullName, types := registered s.statements }

/-- Publishes the names of a file. -/
def publishFile (layout : PackageLayout) (rootDir : Option String)
    (declared : OrderedMap DeclId SlotId) (d : Directory) (file : SourceFile) : Directory :=
  (PackageScope.ofFile file).within.foldl (fun d s =>
    publishNode layout declared ⟨Package.name file.fileName rootDir, default⟩ d (nodeOf s)) d

theorem worksOn_publishFile (layout : PackageLayout) (rootDir : Option String)
    (declared : OrderedMap DeclId SlotId) (file : SourceFile) :
    WorksOn (layout.HasKey rootDir file) fun d => publishFile layout rootDir declared d file := by
  refine .foldl _ fun s hs => (worksOn_publishNode layout declared _ (nodeOf s)).mono ?_
  rintro key rfl
  exact ⟨s, hs, (Listing.key_eq layout ⟨_, default⟩ rfl).symm⟩

theorem publishNode_nodeOf {file : FilePackage} {node : PackageNode} {s : PackageScope}
    {packageName : String} (hfile : file.packageName = packageName)
    (hname : node.fullName = s.fullName) (htypes : node.types = registered s.statements) :
    publishNode layout declared file d node
      = publishNode layout declared ⟨packageName, default⟩ d (nodeOf s) := by
  have hkey : layout.key file node = layout.key ⟨packageName, default⟩ (nodeOf s) := by
    unfold PackageLayout.key
    rw [hfile, hname]
    rfl
  have hentry : layout.entryName node = layout.entryName (nodeOf s) := by
    funext name
    unfold PackageLayout.entryName PackageNode.qualified
    rw [hname]
    rfl
  unfold publishNode
  rw [hkey, hentry, htypes]
  rfl

/-- A directory is made of the statements of the files. -/
theorem ofTree_eq {t : PackageTree} {rootDir : Option String} {files : List SourceFile}
    (h : t.Represents rootDir files) (layout : PackageLayout)
    (declared : OrderedMap DeclId SlotId) :
    ofTree layout t declared = files.foldl (publishFile layout rootDir declared) empty := by
  have hfile : ∀ {p : FilePackage} {file : SourceFile}, p ∈ t.files →
      t.IsRootOf rootDir p file → ∀ d : Directory,
        (t.depthFirst p.root).foldl (fun d id => publishNode layout declared p d (t.node id)) d
          = publishFile layout rootDir declared d file := by
    intro p file hp hroot d
    have hshows := (hroot.walk h.forest hp).shows
    unfold publishFile
    generalize (PackageScope.ofFile file).within = scopes at hshows ⊢
    generalize t.depthFirst p.root = ids at hshows ⊢
    induction hshows generalizing d with
    | nil => rfl
    | cons hs _ ih =>
      rw [List.foldl_cons, List.foldl_cons, ih, publishNode_nodeOf hroot.packageName hs.1 hs.2]
  have hfiles : ∀ {ps : List FilePackage} {files : List SourceFile},
      List.Forall₂ (t.IsRootOf rootDir) ps files → (∀ p ∈ ps, p ∈ t.files) → ∀ d : Directory,
        ps.foldl (fun d file => (t.depthFirst file.root).foldl
          (fun d id => publishNode layout declared file d (t.node id)) d) d
          = files.foldl (publishFile layout rootDir declared) d := by
    intro ps files hroots
    induction hroots with
    | nil => exact fun _ _ => rfl
    | @cons p file _ _ hroot _ ih =>
      intro hps d
      rw [List.foldl_cons, List.foldl_cons, hfile (hps p List.mem_cons_self) hroot,
        ih fun q hq => hps q (List.mem_cons_of_mem p hq)]
  exact hfiles h.files (fun _ hp => hp) empty

/-- If no key is that of two different files, the files can come in any order. -/
theorem matches_ofTree {t t' : PackageTree} {rootDir : Option String}
    {files files' : List SourceFile} (h : t.Represents rootDir (SourceFile.packaged files))
    (h' : t'.Represents rootDir (SourceFile.packaged files')) (hp : files.Perm files')
    (hkeys : layout.Separates rootDir files) :
    (ofTree layout t declared).Matches (ofTree layout t' declared) := by
  rw [ofTree_eq h, ofTree_eq h']
  exact matches_foldl_of_perm (hp.filter _) (worksOn_publishFile layout rootDir declared) hkeys
    (.refl empty)

end Directory

end TypeCatalog
