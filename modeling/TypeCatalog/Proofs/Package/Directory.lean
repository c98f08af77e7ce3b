/-
What a directory publishes.

Every slot under every key of a directory is the slot of a declaration
(`get?_of_mem_ofTree`), and a directory reports on names alone
(`reportsNames_ofTree`).
-/
import TypeCatalog.Package.Directory
import TypeCatalog.Proofs.OrderedMap

namespace TypeCatalog

namespace Directory

variable {P : SlotId → Prop} {d : Directory}

/-- All published slots have a property. -/
def Slots (P : SlotId → Prop) (d : Directory) : Prop :=
  ∀ names ∈ d.packages.values, ∀ slot ∈ names.values, P slot

theorem Slots.names (hd : d.Slots P) (key : String) : ∀ slot ∈ (d.names key).values, P slot := by
  intro slot hslot
  rw [Directory.names] at hslot
  cases hk : d.packages.get? key with
  | none =>
    rw [hk] at hslot
    exact absurd hslot List.not_mem_nil
  | some names =>
    rw [hk] at hslot
    exact hd names (OrderedMap.mem_values_iff.mpr ⟨key, hk⟩) slot hslot

/-- Only the names under one key are exchanged, for names whose slots have the property. -/
theorem Slots.insert (hd : d.Slots P) {key : String} {names : PackageTable}
    (hn : ∀ slot ∈ names.values, P slot) (kinds : OrderedMap (String × String) DeclarationKind)
    (reports : List Diagnostic) : Slots P ⟨d.packages.insert key names, kinds, reports⟩ := by
  intro names' hn' slot hslot
  rcases OrderedMap.mem_values_insert hn' with rfl | hn'
  · exact hn slot hslot
  · exact hd names' hn' slot hslot

theorem Slots.publish (hd : d.Slots P) (key name : String) (kind : DeclarationKind) {slot : SlotId}
    (hslot : P slot) : (d.publish key name kind slot).Slots P := by
  have hput : ∀ names : PackageTable, (∀ s ∈ names.values, P s) →
      ∀ s ∈ (names.insert name slot).values, P s := by
    intro names hn s hs
    rcases OrderedMap.mem_values_insert hs with rfl | hs
    · exact hslot
    · exact hn s hs
  unfold Directory.publish
  split
  · exact hd.insert (hput _ (hd.names key)) _ _
  · exact hd.insert (hput _ fun s hs => hd.names key s (OrderedMap.mem_values_erase hs)) _ _
  · exact hd
  · exact hd

theorem Slots.publishNode (hd : d.Slots P) (layout : PackageLayout)
    {declared : OrderedMap DeclId SlotId}
    (hdecl : ∀ decl slot, declared.get? decl = some slot → P slot)
    (file : FilePackage) (node : PackageNode) :
    (publishNode layout declared file d node).Slots P := by
  unfold Directory.publishNode
  refine List.foldlRecOn _ _ (hd.insert (hd.names _) _ _) fun d hd e _ => ?_
  split
  · exact hd.publish _ _ _ (hdecl _ _ ‹_›)
  · exact hd

/-- Every published slot is that of a declaration. -/
theorem get?_of_mem_ofTree (layout : PackageLayout) (tree : PackageTree)
    (declared : OrderedMap DeclId SlotId) :
    (ofTree layout tree declared).Slots fun slot => ∃ decl, declared.get? decl = some slot := by
  have hempty : empty.Slots fun slot => ∃ decl, declared.get? decl = some slot :=
    fun _ hn => absurd hn List.not_mem_nil
  unfold ofTree
  refine List.foldlRecOn _ _ hempty fun d hd file _ => ?_
  exact List.foldlRecOn _ _ hd fun d hd id _ =>
    hd.publishNode layout (fun decl slot h => ⟨decl, h⟩) file (tree.node id)

/-- What a directory reports is about names that meet, and not about child types. -/
def ReportsNames (d : Directory) : Prop := ∀ r ∈ d.reports, 9004 < r.code

theorem ReportsNames.publish (hd : d.ReportsNames) (key name : String) (kind : DeclarationKind)
    (slot : SlotId) : (d.publish key name kind slot).ReportsNames := by
  have hduplicate : 9004 < Notice.duplicateDeclaration.code := by decide
  have hshadowed : 9004 < Notice.shadowedInterface.code := by decide
  have hput : ∀ r : Diagnostic, 9004 < r.code → ∀ r' ∈ d.reports ++ [r], 9004 < r'.code :=
    fun r hr => List.forall_mem_append.mpr ⟨hd, List.forall_mem_singleton.mpr hr⟩
  unfold Directory.publish
  split
  · exact hd
  · exact hput _ hshadowed
  · exact hput _ hshadowed
  · exact hput _ hduplicate

theorem reportsNames_ofTree (layout : PackageLayout) (tree : PackageTree)
    (declared : OrderedMap DeclId SlotId) : (ofTree layout tree declared).ReportsNames := by
  have hempty : empty.ReportsNames := fun _ hr => absurd hr List.not_mem_nil
  unfold ofTree
  refine List.foldlRecOn _ _ hempty fun d hd file _ => ?_
  refine List.foldlRecOn _ _ hd fun d hd id _ => ?_
  unfold publishNode
  refine List.foldlRecOn (motive := ReportsNames) _ _ hd fun d hd e _ => ?_
  split
  · exact hd.publish _ _ _ _
  · exact hd

end Directory

end TypeCatalog
