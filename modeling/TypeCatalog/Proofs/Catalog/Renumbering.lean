/-
Directories under other slots.

When slots of one registry go to slots of another so that every edge goes to the
edge to the same type (`TypeHost.Carries`), records go to records
(`TypeHost.image_renumber`), and directories to directories
(`Directory.ofTree_renumber`).  What a table publishes is read off the slots of the
declared types (`Pass.get?_declared`).
-/
import TypeCatalog.Proofs.Catalog.Sight

namespace TypeCatalog

/-! ### Edges under two registries -/

namespace TypeHost

variable {host host' : TypeHost} {r r' : Registry} {f : SlotId → SlotId}

/-- An edge to a type goes to the edge to the same type, where the type has a slot. -/
def Carries (host host' : TypeHost) (r r' : Registry) (f : SlotId → SlotId) : Prop :=
  ∀ t, host.IsLinked r t → host'.edge? r' t = (host.edge? r t).map (TypeRef.renumber f)

theorem Carries.slot? (hc : host.Carries host' r r' f) {t : TypeHandle}
    (hl : host.IsLinked r t) : host'.slot? r' t = (host.slot? r t).map f := by
  rw [← bind_slot?_edge?, ← bind_slot?_edge?, hc t hl]
  cases host.edge? r t with
  | none => rfl
  | some edge => cases edge <;> rfl

end TypeHost

/-! ### Other slots in directories -/

namespace OrderedMap

universe u v

variable {κ : Type u} {α β : Type v} {m : OrderedMap κ α} {g : α → β} {k : κ} {a : α}

/-- The map with other values for its keys. -/
def mapValues (g : α → β) (m : OrderedMap κ α) : OrderedMap κ β where
  entries := m.entries.map fun e => (e.1, g e.2)
  nodup_keys := by
    rw [List.map_map]
    exact m.nodup_keys

variable [DecidableEq κ]

theorem get?_mapValues (g : α → β) (m : OrderedMap κ α) (k : κ) :
    (m.mapValues g).get? k = (m.get? k).map g := by
  show find k (m.entries.map fun e => (e.1, g e.2)) = (find k m.entries).map g
  induction m.entries with
  | nil => rfl
  | cons e rest ih =>
    rw [List.map_cons, find, find, ih]
    split <;> rfl

theorem mapValues_insert (g : α → β) (m : OrderedMap κ α) (k : κ) (a : α) :
    (m.insert k a).mapValues g = (m.mapValues g).insert k (g a) := by
  refine ext_entries ?_
  show (place k a m.entries).map (fun e => (e.1, g e.2))
    = place k (g a) (m.entries.map fun e => (e.1, g e.2))
  induction m.entries with
  | nil => rfl
  | cons e rest ih =>
    rw [List.map_cons, place, place, ← ih]
    split <;> rfl

theorem mapValues_erase (g : α → β) (m : OrderedMap κ α) (k : κ) :
    (m.erase k).mapValues g = (m.mapValues g).erase k := by
  refine ext_entries ?_
  show (m.entries.filter _).map _ = (m.entries.map _).filter _
  rw [List.filter_map]
  rfl

end OrderedMap

namespace Directory

variable {f : SlotId → SlotId} {d : Directory} {layout : PackageLayout}
  {declared declared' : OrderedMap DeclId SlotId}

/-- A directory with other slots for its names. -/
def renumber (f : SlotId → SlotId) (d : Directory) : Directory :=
  { d with packages := d.packages.mapValues (OrderedMap.mapValues f) }

theorem names_renumber (f : SlotId → SlotId) (d : Directory) (key : String) :
    (d.renumber f).names key = (d.names key).mapValues f := by
  rw [names, names, renumber, OrderedMap.get?_mapValues]
  cases d.packages.get? key <;> rfl

theorem openKey_renumber (f : SlotId → SlotId) (d : Directory) (key : String) :
    (d.openKey key).renumber f = (d.renumber f).openKey key := by
  rw [openKey, openKey, names_renumber, renumber, OrderedMap.mapValues_insert]
  rfl

theorem publish_renumber (f : SlotId → SlotId) (d : Directory) (key name : String)
    (kind : DeclarationKind) (slot : SlotId) :
    (d.publish key name kind slot).renumber f = (d.renumber f).publish key name kind (f slot) := by
  have hkinds : (d.renumber f).kinds = d.kinds := rfl
  unfold publish
  rw [hkinds, names_renumber, ← OrderedMap.mapValues_erase, ← OrderedMap.mapValues_insert,
    ← OrderedMap.mapValues_insert]
  cases d.kinds.get? (key, name) with
  | none =>
    rw [renumber, OrderedMap.mapValues_insert]
    rfl
  | some existing =>
    cases existing with
    | classKind => cases kind <;> rfl
    | interfaceKind =>
      cases kind with
      | classKind =>
        rw [renumber, OrderedMap.mapValues_insert]
        rfl
      | interfaceKind => rfl

/-- What every step keeps to, all steps together keep to. -/
theorem foldl_renumber {α : Type} {step step' : Directory → α → Directory} {as : List α}
    (hstep : ∀ a ∈ as, ∀ d, (step d a).renumber f = step' (d.renumber f) a) (d : Directory) :
    (as.foldl step d).renumber f = as.foldl step' (d.renumber f) := by
  induction as generalizing d with
  | nil => rfl
  | cons a rest ih =>
    rw [List.foldl_cons, List.foldl_cons, ih fun a ha => hstep a (List.mem_cons_of_mem _ ha),
      hstep a List.mem_cons_self]

theorem publishNode_renumber {node : PackageNode}
    (hd : ∀ e ∈ node.types.entries, declared'.get? e.2 = (declared.get? e.2).map f)
    (file : FilePackage) (d : Directory) :
    (publishNode layout declared file d node).renumber f
      = publishNode layout declared' file (d.renumber f) node := by
  unfold publishNode
  dsimp only
  rw [← openKey_renumber]
  refine foldl_renumber (fun e he d => ?_) _
  rw [hd e he]
  cases declared.get? e.2 with
  | none => rfl
  | some slot => exact publish_renumber f d _ _ _ slot

/-- Directories go to directories when the slots of what is declared go to each other. -/
theorem ofTree_renumber (tree : PackageTree)
    (hd : ∀ e ∈ tree.registeredBelow (tree.files.map FilePackage.root),
      declared'.get? e.2 = (declared.get? e.2).map f) :
    (ofTree layout tree declared).renumber f = ofTree layout tree declared' := by
  unfold ofTree
  refine foldl_renumber ?_ empty
  intro file hfile d
  refine foldl_renumber ?_ d
  intro id hid d
  refine publishNode_renumber (fun e he => hd e ?_) file d
  refine List.mem_flatMap.mpr ⟨id, ?_, he⟩
  exact List.mem_flatMap.mpr ⟨file.root, List.mem_map_of_mem hfile, hid⟩

end Directory

/-- A declaration has the slot of its type. -/
theorem Pass.get?_declared {host : TypeHost} {p : Pass} {log : Log} {rootDir : Option String}
    {done : List SourceFile} (ho : p.Orderly host log []) (ha : p.Accounts host rootDir done)
    {e : (String × DeclarationKind) × DeclId} (he : e ∈ done.flatMap SourceFile.registered) :
    p.declared.get? e.2 = host.slot? p.registry (host.resolve e.2) ∧
      host.IsLinked p.registry (host.resolve e.2) := by
  have hcontains := contains_declared_eq ho ha he
  cases hd : p.declared.get? e.2 with
  | none =>
    rw [OrderedMap.contains, hd] at hcontains
    have hno : ∀ h name shape, host.classify (host.resolve e.2) ≠ .shape h name shape := by
      intro h name shape hc
      rw [TypeHost.reflects_iff.mpr ⟨h, name, shape, hc⟩] at hcontains
      cases hcontains
    rw [TypeHost.slot?, TypeHost.handle?_eq_none hno]
    exact ⟨rfl, fun h name shape hc => absurd hc (hno h name shape)⟩
  | some slot =>
    obtain ⟨h, name, shape, hc, hl⟩ := ho.declared e.2 slot hd
    rw [TypeHost.slot?, TypeHost.handle?_of_classify hc]
    refine ⟨hl.symm, fun h' name' shape' hc' => ⟨slot, ?_⟩⟩
    rw [hc] at hc'
    cases hc'
    exact hl

end TypeCatalog
