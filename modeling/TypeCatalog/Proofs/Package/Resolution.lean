/-
A directory is one resolution of all names.

Names are settled twice: a package settles those that are declared in it, and a
directory those that packages with the same key publish.  Packages and
directories take in declarations by the same rule, `Declared.enter`
(`Package.rows_take`, `Directory.Lists.publish`).

In between, what has no slot is left out: a scope publishes those of its winners
that have one (`Listing.published`), and a directory is the resolution of what
the scopes publish (`Listing.settled_ofTree`).  If all winners have slots, then
settling the names of a scope before makes no difference, and a directory is the
resolution of all that is declared (`Listing.resolution_published`).
-/
import TypeCatalog.Package.Directory
import TypeCatalog.Proofs.Package.Precedence
import TypeCatalog.Proofs.Package.Traversal

namespace TypeCatalog

open Declared Statement

/-! ### One resolution of all names -/

/-- What a scope declares, under the key and the names with which it is published. -/
structure Listing where
  key : String
  declared : List Declared
  deriving DecidableEq

namespace PackageLayout

/-- The key of a scope. -/
def scopeKey (layout : PackageLayout) (packageName : String) (s : PackageScope) : String :=
  match layout with
  | nested => if s.fullName = "" then packageName else packageName ++ "." ++ s.fullName
  | flat => packageName

/-- A declaration of a scope with the name that it has under the key. -/
def publishedAs (layout : PackageLayout) (s : PackageScope) (d : Declared) : Declared :=
  match layout with
  | nested => d
  | flat => { d with name := s.qualified d.name }

/-- What a scope declares. -/
def listing (layout : PackageLayout) (packageName : String) (s : PackageScope) : Listing :=
  ⟨layout.scopeKey packageName s, (named s.statements).map (layout.publishedAs s)⟩

/-- What files declare: files in order, and in each of them scope by scope. -/
def listings (layout : PackageLayout) (rootDir : Option String) (files : List SourceFile) :
    List Listing :=
  (SourceFile.packaged files).flatMap fun file =>
    (PackageScope.ofFile file).within.map (layout.listing (Package.name file.fileName rootDir))

end PackageLayout

namespace Listing

/-- The keys, in the order in which they are first visited. -/
def keys (listings : List Listing) : List String := (listings.map key).eraseDups

/-- What is declared under a key. -/
def declaredUnder (listings : List Listing) (key : String) : List Declared :=
  (listings.filter (·.key = key)).flatMap declared

/-- All keys with the declarations that the names under them stand for. -/
def resolution (listings : List Listing) : List Listing :=
  (keys listings).map fun key => ⟨key, winners (declaredUnder listings key)⟩

/-- What a scope publishes: of the declarations that its names stand for, those with a slot. -/
def published (declared : OrderedMap DeclId SlotId) (l : Listing) : Listing :=
  ⟨l.key, (winners l.declared).filter fun d => declared.contains d.decl⟩

end Listing

/-! ### The names of a package -/

namespace Package

/-- The names of a package as declarations. -/
def rows (types : OrderedMap (String × DeclarationKind) DeclId) : List Declared :=
  types.entries.map fun e => ⟨e.1.1, e.1.2, e.2⟩

variable {types : OrderedMap (String × DeclarationKind) DeclId} {d : Declared}

theorem contains_iff {name : String} {kind : DeclarationKind} :
    types.contains (name, kind) = true ↔ ∃ e ∈ rows types, e.name = name ∧ e.kind = kind := by
  rw [OrderedMap.contains_iff, OrderedMap.keys, List.mem_map]
  constructor
  · rintro ⟨e, he, heq⟩
    exact ⟨_, List.mem_map_of_mem he, congrArg Prod.fst heq, congrArg Prod.snd heq⟩
  · rintro ⟨r, hr, rfl, rfl⟩
    obtain ⟨e, he, rfl⟩ := List.mem_map.mp hr
    exact ⟨e, he, rfl⟩

/-- A new name comes last. -/
theorem rows_insert (h : types.contains (d.name, d.kind) = false) :
    rows (types.insert (d.name, d.kind) d.decl) = rows types ++ [d] := by
  have hkey : (d.name, d.kind) ∉ types.keys := by
    rw [← OrderedMap.contains_iff, h]
    exact Bool.false_ne_true
  rw [rows, OrderedMap.entries_insert hkey, List.map_append]
  rfl

/-- Without the kind of a name, nothing of the name is left if it had no other. -/
theorem rows_erase {name : String} {kind : DeclarationKind}
    (h : ∀ e ∈ rows types, e.name = name → e.kind = kind) :
    rows (types.erase (name, kind)) = (rows types).filter (·.name ≠ name) := by
  rw [rows, OrderedMap.entries_erase, rows, List.filter_map]
  refine congrArg (List.map _) (List.filter_congr fun e he => ?_)
  have hkind := h _ (List.mem_map_of_mem he)
  refine decide_eq_decide.mpr (not_congr ⟨congrArg Prod.fst, fun hn => ?_⟩)
  exact Prod.ext hn (hkind hn)

theorem kind_ne_of_contains_eq_false {name : String} {kind : DeclarationKind}
    (h : types.contains (name, kind) = false) :
    ∀ e ∈ rows types, e.name = name → e.kind ≠ kind := by
  intro e he hn hk
  rw [contains_iff.mpr ⟨e, he, hn, hk⟩] at h
  cases h

theorem name_ne_of_contains_eq_false {name : String}
    (hc : types.contains (name, .classKind) = false)
    (hi : types.contains (name, .interfaceKind) = false) : ∀ e ∈ rows types, e.name ≠ name := by
  intro e he hn
  cases hk : e.kind with
  | classKind => exact kind_ne_of_contains_eq_false hc e he hn hk
  | interfaceKind => exact kind_ne_of_contains_eq_false hi e he hn hk

theorem isBlocked_of_contains {kind : DeclarationKind}
    (h : types.contains (d.name, kind) = true)
    (hk : kind = .classKind ∨ d.kind = .interfaceKind) : isBlocked (rows types) d = true := by
  obtain ⟨e, he, hn, hk'⟩ := contains_iff.mp h
  exact isBlocked_iff.mpr ⟨e, he, blocks_iff.mpr ⟨hn, hk.imp_left hk'.trans⟩⟩

/-- A package takes in declarations by the rule. -/
theorem rows_take (types : OrderedMap (String × DeclarationKind) DeclId) (d : Declared) :
    rows (take types d) = enter (rows types) d := by
  obtain ⟨name, kind, decl⟩ := d
  cases hc : types.contains (name, .classKind) with
  | true =>
    -- a class stays, whatever comes
    rw [enter_of_isBlocked (isBlocked_of_contains hc (.inl rfl)), take]
    cases kind with
    | classKind => rw [registerName, if_pos hc]
    | interfaceKind =>
      rw [registerName]
      split <;> rfl
  | false =>
    cases hi : types.contains (name, .interfaceKind) with
    | true =>
      cases kind with
      | classKind =>
        have hfree : ¬ isBlocked (rows types) ⟨name, .classKind, decl⟩ = true := by
          intro h
          obtain ⟨e, he, hb⟩ := isBlocked_iff.mp h
          obtain ⟨hn, hk⟩ := blocks_iff.mp hb
          exact kind_ne_of_contains_eq_false hc e he hn
            (hk.resolve_right DeclarationKind.noConfusion)
        have herased :
            (types.erase (name, .interfaceKind)).contains (name, .classKind) = false := by
          rw [OrderedMap.contains, OrderedMap.get?_erase, if_neg (by simp)]
          exact hc
        rw [enter_of_not_isBlocked hfree, ← rows_erase, ← rows_insert herased]
        · simp only [take, registerName, hc, hi, if_true, Bool.false_eq_true, if_false]
        · intro e he hn
          cases hk : e.kind with
          | classKind => exact absurd hk (kind_ne_of_contains_eq_false hc e he hn)
          | interfaceKind => rfl
      | interfaceKind =>
        rw [enter_of_isBlocked (isBlocked_of_contains hi (.inr rfl)), take, registerName,
          if_pos hi]
    | false =>
      rw [enter_of_absent (name_ne_of_contains_eq_false hc hi)]
      cases kind with
      | classKind =>
        rw [← rows_insert hc]
        simp only [take, registerName, hc, hi, Bool.false_eq_true, if_false]
      | interfaceKind =>
        rw [← rows_insert hi]
        simp only [take, registerName, hc, hi, Bool.false_eq_true, if_false]

theorem rows_registered (ss : List Statement) :
    rows (registered ss) = (named ss).foldl enter [] := by
  have h : ∀ (ds : List Declared) types,
      rows (ds.foldl take types) = ds.foldl enter (rows types) := by
    intro ds
    induction ds with
    | nil => exact fun _ => rfl
    | cons d rest ih =>
      intro types
      rw [List.foldl_cons, ih, rows_take]
      rfl
  exact h (named ss) .empty

/-- What is left in a package is declared by a statement. -/
theorem mem_named_of_mem_registered {ss : List Statement}
    {e : (String × DeclarationKind) × DeclId} (he : e ∈ (registered ss).entries) :
    (⟨e.1.1, e.1.2, e.2⟩ : Declared) ∈ named ss := by
  have hrow : (⟨e.1.1, e.1.2, e.2⟩ : Declared) ∈ rows (registered ss) := List.mem_map_of_mem he
  rw [rows_registered] at hrow
  exact (mem_of_mem_foldl_enter hrow).resolve_left List.not_mem_nil

end Package

/-! ### The names of a directory -/

namespace Directory

variable {declared : OrderedMap DeclId SlotId} {d : Directory} {keys : List String}
  {under : String → List Declared} {key : String} {r : Declared} {slot : SlotId}

/-- A directory has some keys, and under each of them the slots of some declarations. -/
structure Lists (declared : OrderedMap DeclId SlotId) (d : Directory) (keys : List String)
    (under : String → List Declared) : Prop where
  keys : d.packages.keys = keys
  slots : ∀ key, (d.names key).entries.map (fun e => (e.1, some e.2))
    = (under key).map fun r => (r.name, declared.get? r.decl)
  kinds : ∀ key name,
    d.kinds.get? (key, name) = ((under key).find? (·.name = name)).map Declared.kind

theorem lists_empty (declared : OrderedMap DeclId SlotId) :
    empty.Lists declared [] fun _ => [] :=
  ⟨rfl, fun _ => rfl, fun _ _ => rfl⟩

theorem Lists.keys_names (h : d.Lists declared keys under) (key : String) :
    (d.names key).keys = (under key).map Declared.name := by
  have := congrArg (List.map Prod.fst) (h.slots key)
  rwa [List.map_map, List.map_map] at this

/-- Under one key a name is listed once. -/
theorem Lists.eq_of_name_eq (h : d.Lists declared keys under) {e e' : Declared}
    (he : e ∈ under key) (he' : e' ∈ under key) (hn : e.name = e'.name) : e = e' := by
  have hnodup : ((under key).map Declared.name).Nodup := h.keys_names key ▸ (d.names key).nodup_keys
  exact List.inj_on_of_nodup_map hnodup he he' hn

theorem names_insert (packages : OrderedMap String PackageTable) (names : PackageTable)
    (kinds : OrderedMap (String × String) DeclarationKind) (reports : List Diagnostic)
    (key key' : String) :
    Directory.names ⟨packages.insert key names, kinds, reports⟩ key'
      = if key = key' then names else (packages.get? key').getD .empty := by
  rw [Directory.names, OrderedMap.get?_insert]
  split <;> rfl

theorem Lists.openKey (h : d.Lists declared keys under) (key : String) :
    (d.openKey key).Lists declared (if key ∈ keys then keys else keys ++ [key]) under := by
  have hnames : ∀ key', (d.openKey key).names key' = d.names key' := by
    intro key'
    rw [Directory.openKey, names_insert]
    split
    · rename_i hk
      rw [hk]
    · rfl
  refine ⟨?_, fun key' => ?_, h.kinds⟩
  · rw [Directory.openKey, OrderedMap.keys_insert, h.keys]
  · rw [hnames]
    exact h.slots key'

theorem find?_replaced (ds : List Declared) (r : Declared) (name : String) :
    (ds.filter (·.name ≠ r.name) ++ [r]).find? (·.name = name)
      = if r.name = name then some r else ds.find? (·.name = name) := by
  induction ds with
  | nil => by_cases hn : r.name = name <;> simp [hn]
  | cons e rest ih =>
    by_cases he : e.name = r.name
    · rw [List.filter_cons_of_neg (by simp [he]), ih, List.find?_cons, he]
      by_cases hn : r.name = name <;> simp [hn]
    · rw [List.filter_cons_of_pos (by simp [he]), List.cons_append, List.find?_cons, ih,
        List.find?_cons]
      by_cases hn : e.name = name
      · have hr : ¬ r.name = name := fun h => he (hn.trans h.symm)
        simp [hn, hr]
      · simp [hn]

/-- A declaration that drives out what has its name, and comes last. -/
theorem Lists.replace (h : d.Lists declared keys under) (hk : key ∈ keys)
    (hr : declared.get? r.decl = some slot) (reports : List Diagnostic) :
    Lists declared ⟨d.packages.insert key (((d.names key).erase r.name).insert r.name slot),
        d.kinds.insert (key, r.name) r.kind, reports⟩ keys
      fun key' => if key = key' then (under key).filter (·.name ≠ r.name) ++ [r]
        else under key' := by
  have hentries : (((d.names key).erase r.name).insert r.name slot).entries
      = (d.names key).entries.filter (·.1 ≠ r.name) ++ [(r.name, slot)] := by
    rw [OrderedMap.entries_insert, OrderedMap.entries_erase]
    simp [OrderedMap.keys_erase]
  refine ⟨?_, fun key' => ?_, fun key' name => ?_⟩
  · rw [OrderedMap.keys_insert, h.keys, if_pos hk]
  · rw [names_insert]
    split
    · have hslots := congrArg (List.filter (·.1 ≠ r.name)) (h.slots key)
      rw [List.filter_map, List.filter_map] at hslots
      rw [hentries, List.map_append, List.map_append]
      refine congrArg₂ _ hslots ?_
      rw [List.map_singleton, List.map_singleton, hr]
    · exact h.slots key'
  · rw [OrderedMap.get?_insert, h.kinds key' name]
    by_cases hkey : key = key'
    · subst hkey
      rw [if_pos rfl, find?_replaced]
      by_cases hn : r.name = name
      · simp [hn]
      · simp [hn]
    · simp [hkey]

/-- A declaration that something stands in the way of. -/
theorem Lists.refuse (h : d.Lists declared keys under) (hb : isBlocked (under key) r = true)
    (reports : List Diagnostic) :
    Lists declared { d with reports := reports } keys
      fun key' => if key = key' then enter (under key) r else under key' := by
  have hsame : (fun key' => if key = key' then enter (under key) r else under key') = under := by
    funext key'
    split
    · rename_i hk
      rw [enter_of_isBlocked hb, hk]
    · rfl
  rw [hsame]
  exact ⟨h.keys, h.slots, h.kinds⟩

/-- A declaration that nothing has the name of comes last. -/
theorem Lists.add (h : d.Lists declared keys under) (hk : key ∈ keys)
    (hr : declared.get? r.decl = some slot) (habsent : ∀ e ∈ under key, e.name ≠ r.name)
    (reports : List Diagnostic) :
    Lists declared ⟨d.packages.insert key ((d.names key).insert r.name slot),
        d.kinds.insert (key, r.name) r.kind, reports⟩ keys
      fun key' => if key = key' then enter (under key) r else under key' := by
  have hkey : r.name ∉ (d.names key).keys := by
    rw [h.keys_names, List.mem_map]
    rintro ⟨e, he, hn⟩
    exact habsent e he hn
  have herase : (d.names key).erase r.name = d.names key := by
    refine OrderedMap.ext_entries (List.filter_eq_self.mpr fun e he => ?_)
    exact decide_eq_true fun hn => hkey (hn ▸ List.mem_map_of_mem he)
  have hnew := h.replace hk hr reports
  rw [herase, List.filter_eq_self.mpr fun e he => by simpa using habsent e he] at hnew
  rw [enter_of_absent habsent]
  exact hnew

/-- Only what is found under its name can stand in the way of a declaration. -/
theorem Lists.isBlocked_iff_of_find? (h : d.Lists declared keys under) {e : Declared}
    (hfind : (under key).find? (·.name = r.name) = some e) :
    isBlocked (under key) r = true ↔ e.kind = .classKind ∨ r.kind = .interfaceKind := by
  have he := List.mem_of_find?_eq_some hfind
  have hn : e.name = r.name := by simpa using List.find?_some hfind
  rw [isBlocked_iff]
  constructor
  · rintro ⟨e', he', hb⟩
    obtain ⟨hn', hkinds⟩ := blocks_iff.mp hb
    rwa [h.eq_of_name_eq he' he (hn'.trans hn.symm)] at hkinds
  · intro hkinds
    exact ⟨e, he, blocks_iff.mpr ⟨hn, hkinds⟩⟩

/-- A directory takes in declarations by the rule. -/
theorem Lists.publish (h : d.Lists declared keys under) (hk : key ∈ keys)
    (hr : declared.get? r.decl = some slot) :
    (d.publish key r.name r.kind slot).Lists declared keys
      fun key' => if key = key' then enter (under key) r else under key' := by
  have hkinds := h.kinds key r.name
  unfold Directory.publish
  cases hfind : (under key).find? (·.name = r.name) with
  | none =>
    rw [hfind] at hkinds
    rw [hkinds]
    exact h.add hk hr (by simpa using List.find?_eq_none.mp hfind) d.reports
  | some e =>
    have hblocked := h.isBlocked_iff_of_find? hfind
    rw [hfind, Option.map_some] at hkinds
    rw [hkinds]
    cases hek : e.kind with
    | classKind =>
      have hrefuse := h.refuse (hblocked.mpr (.inl hek))
      cases hrk : r.kind <;> exact hrefuse _
    | interfaceKind =>
      cases hrk : r.kind with
      | interfaceKind => exact h.refuse (hblocked.mpr (.inr hrk)) _
      | classKind =>
        have hfree : ¬ isBlocked (under key) r = true := by simp [hblocked, hek, hrk]
        have hreplace := h.replace hk hr (d.reports ++ [.shadowed key r.name])
        rw [hrk] at hreplace
        rw [enter_of_not_isBlocked hfree]
        exact hreplace

/-- A directory takes in those names of a package that have slots, one after the other. -/
theorem Lists.publishAll (h : d.Lists declared keys under) (hk : key ∈ keys)
    (rename : String → String) (es : List ((String × DeclarationKind) × DeclId)) :
    (es.foldl (fun d e => match declared.get? e.2 with
        | some slot => d.publish key (rename e.1.1) e.1.2 slot
        | none => d) d).Lists declared keys
      fun key' => if key = key' then
        ((es.map fun e => (⟨rename e.1.1, e.1.2, e.2⟩ : Declared)).filter fun r =>
          declared.contains r.decl).foldl enter (under key)
        else under key' := by
  induction es generalizing d under with
  | nil =>
    have hsame : (fun key' => if key = key' then under key else under key') = under := by
      funext key'
      split
      · rename_i hk
        rw [hk]
      · rfl
    rw [← hsame] at h
    exact h
  | cons e rest ih =>
    rw [List.foldl_cons, List.map_cons, List.filter_cons, OrderedMap.contains]
    cases hslot : declared.get? e.2 with
    | none => exact ih h
    | some slot =>
      have hnext := ih (h.publish (r := ⟨rename e.1.1, e.1.2, e.2⟩) hk hslot)
      refine cast (congrArg (Lists _ _ _) (funext fun key' => ?_)) hnext
      by_cases hkey : key = key'
      · simp only [if_pos hkey, if_true, Option.isSome_some, List.foldl_cons]
      · simp only [if_neg hkey]

end Directory

/-! ### Scope by scope -/

namespace Listing

open Directory

variable {listings : List Listing} {l : Listing} {key : String}

theorem keys_concat (listings : List Listing) (l : Listing) :
    keys (listings ++ [l])
      = if l.key ∈ keys listings then keys listings else keys listings ++ [l.key] := by
  rw [keys, List.map_append, List.map_singleton, eraseDups_concat]
  simp only [keys, List.mem_eraseDups]

theorem declaredUnder_concat (listings : List Listing) (l : Listing) (key : String) :
    declaredUnder (listings ++ [l]) key
      = if l.key = key then declaredUnder listings key ++ l.declared
        else declaredUnder listings key := by
  rw [declaredUnder, List.filter_append, List.flatMap_append]
  split
  · rename_i hk
    simp [hk, declaredUnder]
  · rename_i hk
    simp [hk, declaredUnder]

/-- A directory lists the names of some listings, with what they stand for. -/
def Settled (declared : OrderedMap DeclId SlotId) (d : Directory) (listings : List Listing) :
    Prop :=
  d.Lists declared (keys listings) fun key => winners (declaredUnder listings key)

variable {declared : OrderedMap DeclId SlotId} {d : Directory} {layout : PackageLayout}
  {file : FilePackage} {node : PackageNode} {s : PackageScope}

theorem key_eq (layout : PackageLayout) (file : FilePackage) (hn : node.fullName = s.fullName) :
    layout.key file node = (layout.listing file.packageName s).key := by
  cases layout with
  | nested => simp only [PackageLayout.key, PackageLayout.listing, PackageLayout.scopeKey, hn]
  | flat => rfl

theorem entryName_eq (hn : node.fullName = s.fullName) (r : Declared) :
    ⟨layout.entryName node r.name, r.kind, r.decl⟩ = layout.publishedAs s r := by
  cases layout with
  | nested => rfl
  | flat =>
    simp only [PackageLayout.entryName, PackageLayout.publishedAs, PackageNode.qualified,
      PackageScope.qualified, hn]

/-- Names inside one scope stay different. -/
theorem publishedAs_name_inj (layout : PackageLayout) (s : PackageScope) (r r' : Declared) :
    (layout.publishedAs s r).name = (layout.publishedAs s r').name ↔ r.name = r'.name := by
  cases layout with
  | nested => exact Iff.rfl
  | flat =>
    show s.qualified r.name = s.qualified r'.name ↔ _
    unfold PackageScope.qualified
    split
    · exact Iff.rfl
    · exact String.append_right_inj _

/-- The names of a package stand for the winners of its scope. -/
theorem map_rows_registered (layout : PackageLayout) (packageName : String) (s : PackageScope) :
    (Package.rows (Package.registered s.statements)).map (layout.publishedAs s)
      = winners (layout.listing packageName s).declared := by
  have hkind : ∀ r, (layout.publishedAs s r).kind = r.kind := by
    intro r
    cases layout <;> rfl
  rw [Package.rows_registered, map_foldl_enter hkind (publishedAs_name_inj layout s), ← foldl_enter]
  rfl

theorem Settled.publishNode (h : Settled declared d listings)
    (hn : node.fullName = s.fullName) (ht : node.types = Package.registered s.statements) :
    Settled declared (Directory.publishNode layout declared file d node)
      (listings ++ [(layout.listing file.packageName s).published declared]) := by
  have hkey : layout.key file node
      = ((layout.listing file.packageName s).published declared).key := key_eq layout file hn
  have hrows : (node.types.entries.map fun e =>
      (⟨layout.entryName node e.1.1, e.1.2, e.2⟩ : Declared))
        = winners (layout.listing file.packageName s).declared := by
    rw [← map_rows_registered, ← ht, Package.rows, List.map_map]
    exact List.map_congr_left fun e _ => entryName_eq hn ⟨e.1.1, e.1.2, e.2⟩
  have hopen := h.openKey (layout.key file node)
  have hmem : layout.key file node ∈ (if layout.key file node ∈ keys listings then keys listings
      else keys listings ++ [layout.key file node]) := by
    split
    · assumption
    · exact List.mem_append_right _ (List.mem_singleton.mpr rfl)
  have hall := hopen.publishAll hmem (layout.entryName node) node.types.entries
  -- the names of the package were settled before, and are settled again among all others
  have hunder : (fun key' => if layout.key file node = key' then
      ((node.types.entries.map fun e =>
        (⟨layout.entryName node e.1.1, e.1.2, e.2⟩ : Declared)).filter fun r =>
          declared.contains r.decl).foldl enter
          (winners (declaredUnder listings (layout.key file node)))
      else winners (declaredUnder listings key')) = fun key =>
        winners (declaredUnder
          (listings ++ [(layout.listing file.packageName s).published declared]) key) := by
    funext key
    rw [hrows, hkey, declaredUnder_concat]
    split
    · rename_i hk
      rw [hk, ← foldl_enter (declaredUnder listings key), ← List.foldl_append, foldl_enter]
      rfl
    · rfl
  rw [hunder] at hall
  rw [Settled, keys_concat, ← hkey]
  exact hall

/-- The packages of a file, scope by scope. -/
theorem Settled.publishNodes (layout : PackageLayout) (file : FilePackage) {t : PackageTree}
    {ids : List PackageId} {scopes : List PackageScope}
    (hshows : List.Forall₂ t.Shows ids scopes) (h : Settled declared d listings) :
    Settled declared
      (ids.foldl (fun d id => Directory.publishNode layout declared file d (t.node id)) d)
      (listings ++ (scopes.map (layout.listing file.packageName)).map (published declared)) := by
  induction hshows generalizing d listings with
  | nil => exact (List.append_nil listings).symm ▸ h
  | @cons id s ids scopes hs _ ih =>
    have hfirst : Settled declared (Directory.publishNode layout declared file d (t.node id)) _ :=
      h.publishNode hs.1 hs.2
    have hrest := ih hfirst
    rw [List.append_assoc] at hrest
    exact hrest

/-- The packages of files, file by file. -/
theorem Settled.publishFiles {t : PackageTree} {rootDir : Option String} (hf : t.IsForest)
    {ps : List FilePackage} {files : List SourceFile}
    (hroots : List.Forall₂ (t.IsRootOf rootDir) ps files) (hps : ∀ p ∈ ps, p ∈ t.files)
    (h : Settled declared d listings) :
    Settled declared (ps.foldl (fun d file => (t.depthFirst file.root).foldl (fun d id =>
        Directory.publishNode layout declared file d (t.node id)) d) d)
      (listings ++ (files.flatMap fun file => (PackageScope.ofFile file).within.map
        (layout.listing (Package.name file.fileName rootDir))).map (published declared)) := by
  induction hroots generalizing d listings with
  | nil => exact (List.append_nil listings).symm ▸ h
  | @cons p file ps files hroot _ ih =>
    have hwalk := hroot.walk hf (hps p List.mem_cons_self)
    have hfile := h.publishNodes layout p hwalk.shows
    rw [hroot.packageName] at hfile
    rw [List.flatMap_cons, List.map_append, ← List.append_assoc]
    exact ih (fun q hq => hps q (List.mem_cons_of_mem p hq)) hfile

/-- The directory of a tree settles what the scopes of its files publish. -/
theorem settled_ofTree {t : PackageTree} {rootDir : Option String} {files : List SourceFile}
    (h : t.Represents rootDir files) :
    Settled declared (Directory.ofTree layout t declared)
      ((files.flatMap fun file => (PackageScope.ofFile file).within.map
        (layout.listing (Package.name file.fileName rootDir))).map (published declared)) := by
  have hempty : Settled declared Directory.empty [] := Directory.lists_empty declared
  exact hempty.publishFiles h.forest h.files fun _ hp => hp

/-- What a directory publishes is the resolution, with the slots of declarations. -/
theorem Settled.entries_eq (h : Settled declared d listings) :
    d.packages.entries.map (fun e => (e.1, e.2.entries.map fun n => (n.1, some n.2)))
      = (resolution listings).map fun l =>
        (l.key, l.declared.map fun r => (r.name, declared.get? r.decl)) := by
  have hentries : d.packages.entries.map
      (fun e => (e.1, e.2.entries.map fun n => (n.1, some n.2)))
        = d.packages.keys.map fun key =>
          (key, (d.names key).entries.map fun n => (n.1, some n.2)) := by
    rw [OrderedMap.keys, List.map_map]
    refine List.map_congr_left fun e he => ?_
    have hnames : d.names e.1 = e.2 := by
      rw [Directory.names, OrderedMap.get?_eq_some_iff.mpr he]
      rfl
    simp only [Function.comp_apply, hnames]
  rw [hentries, h.keys, resolution, List.map_map]
  refine List.map_congr_left fun key _ => ?_
  rw [h.slots key]
  rfl

/-- What a name stands for has a slot. -/
theorem Settled.exists_slot (h : Settled declared d listings) {r : Declared}
    (hl : l ∈ resolution listings) (hr : r ∈ l.declared) :
    ∃ slot, declared.get? r.decl = some slot := by
  obtain ⟨key, -, rfl⟩ := List.mem_map.mp hl
  have hmem : (r.name, declared.get? r.decl) ∈
      (winners (declaredUnder listings key)).map fun r => (r.name, declared.get? r.decl) :=
    List.mem_map_of_mem hr
  rw [← h.slots key] at hmem
  obtain ⟨e, -, he⟩ := List.mem_map.mp hmem
  exact ⟨e.2, (congrArg Prod.snd he).symm⟩

/-- The slot of a name is that of the declaration that the name stands for. -/
theorem Settled.lookup_eq_some_iff (h : Settled declared d listings) {name : String}
    {slot : SlotId} : (d.packages.get? key >>= fun names => names.get? name) = some slot ↔
      ∃ r ∈ winners (declaredUnder listings key), r.name = name ∧
        declared.get? r.decl = some slot := by
  have hnames : (d.packages.get? key >>= fun names => names.get? name)
      = (d.names key).get? name := by
    rw [Directory.names]
    cases d.packages.get? key <;> rfl
  have hmem : (name, slot) ∈ (d.names key).entries ↔
      (name, some slot) ∈ (d.names key).entries.map fun e => (e.1, some e.2) := by
    simp
  rw [hnames, OrderedMap.get?_eq_some_iff, hmem, h.slots key, List.mem_map]
  simp only [Prod.mk.injEq]

/-! ### Scopes that leave nothing out -/

theorem foldl_enter_flatMap_winners (listings : List Listing) (ds : List Declared) :
    (listings.flatMap fun l => winners l.declared).foldl enter ds
      = (listings.flatMap Listing.declared).foldl enter ds := by
  induction listings generalizing ds with
  | nil => rfl
  | cons l rest ih =>
    rw [List.flatMap_cons, List.flatMap_cons, List.foldl_append, List.foldl_append, ih,
      ← foldl_enter, foldl_enter_foldl_enter]

/-- If all that names stand for has slots, then nothing is left out. -/
theorem resolution_published
    (hall : ∀ l ∈ listings, ∀ r ∈ winners l.declared, declared.contains r.decl = true) :
    resolution (listings.map (published declared)) = resolution listings := by
  have hkeys : keys (listings.map (published declared)) = keys listings := by
    rw [keys, List.map_map]
    rfl
  have hunder : ∀ key, winners (declaredUnder (listings.map (published declared)) key)
      = winners (declaredUnder listings key) := by
    intro key
    have hpublished : declaredUnder (listings.map (published declared)) key
        = (listings.filter (·.key = key)).flatMap fun l => winners l.declared := by
      rw [declaredUnder, List.filter_map, List.flatMap_map]
      refine List.flatMap_congr fun l hl => ?_
      exact List.filter_eq_self.mpr (hall l (List.mem_filter.mp hl).1)
    rw [← foldl_enter, hpublished, foldl_enter_flatMap_winners, foldl_enter, declaredUnder]
  rw [resolution, hkeys, resolution]
  exact List.map_congr_left fun key _ => by rw [hunder]

end Listing

end TypeCatalog
