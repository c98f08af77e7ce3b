/-
Walks through a library do not leave it.

A view offers references of many sorts (`TypeView.Offers`): those of members and
of static members, of bases and of type parameters, what a record of a type
expression is made of, and all of what signatures mention.  Each of them is an
edge of the record (`TypeView.mem_edges_of_offers`), and edges are what is
looked at when a table is taken in.

A loaded library keeps every record at its own slot, and neither edges nor names
lead beyond the slots (`Library.IsWhole`).  Binding classes changes none of
this, so that it holds of all libraries of a shelf, whatever has been done to
the shelf (`Shelf.HoldsLoaded.run`).  Hence each reference that is offered
anywhere along a walk leads to the record of its slot, from whatever view the
walk started (`TypeView.resolves_of_walk`).
-/
import Mathlib.Logic.Relation
import TypeCatalog.Proofs.Catalog.Emission
import TypeCatalog.Proofs.Shelf.History

namespace TypeCatalog

/-! ### What a view offers -/

/-- The references that can be read off a signature. -/
inductive Signature.Offers (s : Signature) : TypeRef → Prop
  | parameter {p : Parameter} : p ∈ s.parameters → Offers s p.type
  | returns : Offers s s.returns
  | typeParameter {r : TypeRef} : r ∈ s.typeParameters → Offers s r

theorem Signature.mem_edges_of_offers {s : Signature} {r : TypeRef} (hr : s.Offers r) :
    r ∈ s.edges := by
  cases hr with
  | parameter hp => exact List.mem_append_left _ (List.mem_map_of_mem hp)
  | returns => exact List.mem_append_right _ List.mem_cons_self
  | typeParameter hr => exact List.mem_append_right _ (List.mem_cons_of_mem _ hr)

namespace TypeView

variable {v w : TypeView} {r : TypeRef} {s : Signature} {body : ObjectBody}

/-- The references that can be read off a view. -/
inductive Offers (v : TypeView) : TypeRef → Prop
  | member {m : Member} : m ∈ v.members → Offers v m.type
  | namedMember {name : String} {m : Member} : v.member? name = some m → Offers v m.type
  | static {m : Member} : m ∈ v.statics → Offers v m.type
  | base {r : TypeRef} : v.base? = some r → Offers v r
  | implemented {r : TypeRef} : r ∈ v.implemented → Offers v r
  | interfaceBase {r : TypeRef} : r ∈ v.bases → Offers v r
  | typeParameter {r : TypeRef} : r ∈ v.typeParameters → Offers v r
  | constructSignature {s : Signature} {r : TypeRef} :
    s ∈ v.constructSignatures → s.Offers r → Offers v r
  | callSignature {s : Signature} {r : TypeRef} :
    s ∈ v.callSignatures → s.Offers r → Offers v r
  | indexSignature {s : Signature} {r : TypeRef} :
    s ∈ v.indexSignatures → s.Offers r → Offers v r
  | element {r : TypeRef} : v.node.kind = .array r → Offers v r
  | target {r : TypeRef} {arguments : List TypeRef} :
    v.node.kind = .reference r arguments → Offers v r
  | argument {target r : TypeRef} {arguments : List TypeRef} :
    v.node.kind = .reference target arguments → r ∈ arguments → Offers v r
  | unionConstituent {r : TypeRef} {types : List TypeRef} :
    v.node.kind = .union types → r ∈ types → Offers v r
  | intersectionConstituent {r : TypeRef} {types : List TypeRef} :
    v.node.kind = .intersection types → r ∈ types → Offers v r
  | tupleElement {r : TypeRef} {elements : List TypeRef} :
    v.node.kind = .tuple elements → r ∈ elements → Offers v r
  | constraint {r : TypeRef} : v.node.kind = .typeParameter (some r) → Offers v r
  | expressionTarget {r : TypeRef} : v.node.kind = .expression r → Offers v r

theorem mem_edges_of_body? (hb : v.node.kind.body? = some body) (hr : r ∈ body.edges) :
    r ∈ v.node.edges := by
  show r ∈ v.node.kind.edges
  cases hk : v.node.kind <;> rw [hk] at hb <;> cases hb <;> simp [NodeKind.edges, hr]

theorem mem_edges_of_member {m : Member} (hm : m ∈ v.members) : m.type ∈ v.node.edges := by
  rw [members] at hm
  split at hm
  · rename_i body hb
    refine mem_edges_of_body? hb ?_
    simp only [ObjectBody.edges, List.mem_append, List.mem_map]
    exact .inl (.inr ⟨m, hm, rfl⟩)
  · cases hm

theorem mem_edges_of_static {m : Member} (hm : m ∈ v.statics) : m.type ∈ v.node.edges := by
  rw [statics] at hm
  split at hm
  · rename_i hk
    show m.type ∈ v.node.kind.edges
    simp only [hk, NodeKind.edges, List.mem_append, List.mem_map]
    exact .inl (.inl (.inr ⟨m, hm, rfl⟩))
  · cases hm

theorem mem_edges_of_base? (hr : v.base? = some r) : r ∈ v.node.edges := by
  rw [base?] at hr
  split at hr
  · rename_i hk
    show r ∈ v.node.kind.edges
    simp [hk, NodeKind.edges, hr]
  · cases hr

theorem mem_edges_of_implemented (hr : r ∈ v.implemented) : r ∈ v.node.edges := by
  rw [implemented] at hr
  split at hr
  · rename_i hk
    show r ∈ v.node.kind.edges
    simp [hk, NodeKind.edges, hr]
  · cases hr

theorem mem_edges_of_interfaceBase (hr : r ∈ v.bases) : r ∈ v.node.edges := by
  rw [bases] at hr
  split at hr
  · rename_i hk
    show r ∈ v.node.kind.edges
    simp [hk, NodeKind.edges, hr]
  · cases hr

theorem mem_edges_of_typeParameter (hr : r ∈ v.typeParameters) : r ∈ v.node.edges := by
  rw [typeParameters] at hr
  split at hr
  · rename_i body hb
    exact mem_edges_of_body? hb (by simp [ObjectBody.edges, hr])
  · cases hr

/-- What a signature of a body offers is among the edges. -/
theorem mem_edges_of_bodySignature (hb : v.node.kind.body? = some body)
    (hs : s ∈ body.construct ++ body.call ++ body.index) (hr : s.Offers r) :
    r ∈ v.node.edges := by
  refine mem_edges_of_body? hb (List.mem_append_right _ ?_)
  exact List.mem_flatMap.mpr ⟨s, hs, s.mem_edges_of_offers hr⟩

theorem mem_edges_of_constructSignature (hs : s ∈ v.constructSignatures) (hr : s.Offers r) :
    r ∈ v.node.edges := by
  rw [constructSignatures] at hs
  split at hs
  · rename_i body hb
    exact mem_edges_of_bodySignature hb (by simp [hs]) hr
  · cases hs

theorem mem_edges_of_callSignature (hs : s ∈ v.callSignatures) (hr : s.Offers r) :
    r ∈ v.node.edges := by
  rw [callSignatures] at hs
  split at hs
  · -- a function has its signatures itself
    rename_i signatures hk
    show r ∈ v.node.kind.edges
    rw [hk]
    exact List.mem_flatMap.mpr ⟨s, hs, s.mem_edges_of_offers hr⟩
  · split at hs
    · rename_i body hb
      exact mem_edges_of_bodySignature hb (by simp [hs]) hr
    · cases hs

theorem mem_edges_of_indexSignature (hs : s ∈ v.indexSignatures) (hr : s.Offers r) :
    r ∈ v.node.edges := by
  rw [indexSignatures] at hs
  split at hs
  · rename_i body hb
    exact mem_edges_of_bodySignature hb (by simp [hs]) hr
  · cases hs

/-- Whatever is offered is an edge of the record. -/
theorem mem_edges_of_offers (hr : v.Offers r) : r ∈ v.node.edges := by
  cases hr with
  | member hm => exact mem_edges_of_member hm
  | namedMember hm => exact mem_edges_of_member (List.mem_of_find?_eq_some hm)
  | static hm => exact mem_edges_of_static hm
  | base hr => exact mem_edges_of_base? hr
  | implemented hr => exact mem_edges_of_implemented hr
  | interfaceBase hr => exact mem_edges_of_interfaceBase hr
  | typeParameter hr => exact mem_edges_of_typeParameter hr
  | constructSignature hs hr => exact mem_edges_of_constructSignature hs hr
  | callSignature hs hr => exact mem_edges_of_callSignature hs hr
  | indexSignature hs hr => exact mem_edges_of_indexSignature hs hr
  | element hk => simp [TypeNode.edges, hk, NodeKind.edges]
  | target hk => simp [TypeNode.edges, hk, NodeKind.edges]
  | argument hk hr => simp [TypeNode.edges, hk, NodeKind.edges, hr]
  | unionConstituent hk hr => simpa [TypeNode.edges, hk, NodeKind.edges] using hr
  | intersectionConstituent hk hr => simpa [TypeNode.edges, hk, NodeKind.edges] using hr
  | tupleElement hk hr => simpa [TypeNode.edges, hk, NodeKind.edges] using hr
  | constraint hk => simp [TypeNode.edges, hk, NodeKind.edges]
  | expressionTarget hk => simp [TypeNode.edges, hk, NodeKind.edges]

/-- Some reference that the first view offers leads to the second. -/
def LeadsTo (v w : TypeView) : Prop := ∃ r, v.Offers r ∧ v.resolve? r = some (.type w)

end TypeView

/-! ### Loaded libraries -/

namespace Library

variable {l : Library} {t : MetadataTable} {n : TypeNode} {slot : SlotId}
  {package name : String}

/-- Every record stands at its own slot, and neither edges nor names lead beyond the slots. -/
structure IsWhole (l : Library) : Prop where
  slot_eq : ∀ {slot n}, l.node? slot = some n → n.slot = slot
  edges : ∀ {slot n}, l.node? slot = some n → ∀ s ∈ n.slotRefs, s.index < l.slots.length
  names : ∀ {package name slot}, l.slotOf package name = .ok slot → slot.index < l.slots.length

theorem length_slots_of_load (hl : load t = .ok l) : l.slots.length = t.slotCount := by
  obtain ⟨hf, rfl⟩ := eq_of_load hl
  exact length_filterMap_range fun i hi => isSome_population?_of_fault? hf hi

theorem isWhole_of_load (hl : load t = .ok l) : l.IsWhole where
  slot_eq := slot_of_node?_of_load hl
  edges {slot n} hn := by
    rw [node?_of_load hl] at hn
    split at hn
    · rw [length_slots_of_load hl]
      exact (load_ok_iff.mp ⟨l, hl⟩).2.edges n (List.mem_of_find?_eq_some hn)
    · cases hn
  names hs := by
    obtain ⟨names, hnames, hslot⟩ := Option.bind_eq_some_iff.mp ((slotOf_of_load hl).mp hs)
    rw [length_slots_of_load hl]
    exact (load_ok_iff.mp ⟨l, hl⟩).2.names names (OrderedMap.mem_values_iff.mpr ⟨_, hnames⟩) _
      (OrderedMap.mem_values_iff.mpr ⟨_, hslot⟩)

/-- A library that was loaded, and of which classes may have been bound and freed since. -/
inductive IsLoaded : Library → Prop
  | load {t : MetadataTable} {l : Library} : load t = .ok l → IsLoaded l
  | bind {l : Library} (slot : SlotId) (c : Constructor) : IsLoaded l → IsLoaded (l.bind slot c)
  | unbind {l : Library} (slot : SlotId) : IsLoaded l → IsLoaded (l.unbind slot)

theorem IsLoaded.isWhole (hl : l.IsLoaded) : l.IsWhole := by
  induction hl with
  | load hl => exact isWhole_of_load hl
  -- neither records nor names depend on the bindings
  | bind slot c _ ih => exact ⟨ih.slot_eq, ih.edges, ih.names⟩
  | unbind slot _ ih => exact ⟨ih.slot_eq, ih.edges, ih.names⟩

/-- What a reference leads to in a library: a primitive type to itself, and a slot to a
record of the library that has this slot and stands at it. -/
inductive Answers (l : Library) : TypeRef → ResolvedType → Prop
  | intrinsic (kind : Intrinsic) : Answers l (.intrinsic kind) (.intrinsic kind)
  | slot {s : SlotId} {w : TypeView} : w.library = l → w.node.slot = s → s.index < l.slots.length →
    l.node? s = some w.node → Answers l (.slot s) (.type w)

theorem IsWhole.exists_node? (hl : l.IsWhole) (hslot : slot.index < l.slots.length) :
    ∃ n, l.node? slot = some n ∧ n.slot = slot :=
  ⟨l.slots[slot.index], List.getElem?_eq_getElem hslot, hl.slot_eq (List.getElem?_eq_getElem hslot)⟩

/-- A name that has a slot is found, and what is found is the record of this slot. -/
theorem IsWhole.exists_lookup (hl : l.IsWhole) (hs : l.slotOf package name = .ok slot) :
    ∃ n, l.lookup package name = .ok n ∧ l.node? slot = some n ∧ n.slot = slot := by
  obtain ⟨n, hn, hslot⟩ := hl.exists_node? (hl.names hs)
  refine ⟨n, ?_, hn, hslot⟩
  refine (bind_of_eq_ok hs _).trans ?_
  simp only [hn, pure, Except.pure]

/-- A view of a record at its own slot has an answer for each of its edges. -/
theorem IsWhole.exists_resolve? {v : TypeView} (hl : v.library.IsWhole)
    (hv : v.library.node? v.node.slot = some v.node) {r : TypeRef} (hr : r ∈ v.node.edges) :
    ∃ target, v.resolve? r = some target ∧ v.library.Answers r target := by
  cases r with
  | intrinsic kind => exact ⟨.intrinsic kind, rfl, .intrinsic kind⟩
  | slot s =>
    have hs : s ∈ v.node.slotRefs := List.mem_filterMap.mpr ⟨.slot s, hr, rfl⟩
    have hlt := hl.edges hv s hs
    obtain ⟨n, hn, hslot⟩ := hl.exists_node? hlt
    refine ⟨.type ⟨v.library, n⟩, ?_, .slot rfl hslot hlt hn⟩
    show (v.library.typeAt? s).map ResolvedType.type = _
    rw [typeAt?, hn]
    rfl

end Library

/-! ### The libraries of a shelf -/

namespace Shelf

variable {s : Shelf} {c : Constructor} {library : String} {slot : SlotId}

/-- All libraries were loaded, and changed by bindings only. -/
def HoldsLoaded (s : Shelf) : Prop := ∀ name l, s.libraries.get? name = some l → l.IsLoaded

theorem holdsLoaded_empty : empty.HoldsLoaded := fun _ _ hl => nomatch hl

theorem HoldsLoaded.modifyLibrary (hs : s.HoldsLoaded) {f : Library → Library}
    (hf : ∀ l, l.IsLoaded → (f l).IsLoaded) (name : String) :
    (s.modifyLibrary name f).HoldsLoaded := by
  intro name' l hl
  rw [get?_modifyLibrary] at hl
  split at hl
  · obtain ⟨l', hl', rfl⟩ := Option.map_eq_some_iff.mp hl
    exact hf l' (hs name' l' hl')
  · exact hs name' l hl

theorem HoldsLoaded.vacate (hs : s.HoldsLoaded) (previous : Option (String × SlotId)) :
    (s.vacate previous).HoldsLoaded := by
  cases previous with
  | none => exact hs
  | some place => exact hs.modifyLibrary (fun l hl => hl.unbind place.2) place.1

theorem HoldsLoaded.bind (hs : s.HoldsLoaded) (c : Constructor) (library : String)
    (slot : SlotId) : (s.bind c library slot).HoldsLoaded := by
  have hinserted : ({ s with bindings := s.bindings.insert c (library, slot) }).HoldsLoaded := hs
  intro name l hl
  rw [Shelf.bind, libraries_forget] at hl
  refine (hinserted.vacate _).modifyLibrary (fun l hl => hl.bind slot c) library name l hl

theorem HoldsLoaded.registerIn (hs : s.HoldsLoaded) (c : Constructor)
    (library qualified : String) : ((Change.registerIn c library qualified).on s).2.HoldsLoaded := by
  obtain ⟨e, -, he⟩ | ⟨view, -, hok⟩ := on_registerIn s c library qualified
  · rw [he]
    exact hs
  · rw [hok]
    exact hs.bind c library view.node.slot

theorem HoldsLoaded.load (hs : s.HoldsLoaded) (t : MetadataTable) :
    ((Change.load t).on s).2.HoldsLoaded := by
  obtain ⟨e, -, he⟩ | ⟨l, hl, hok⟩ := on_load s t
  · rw [he]
    exact hs
  · rw [hok]
    intro name l' hl'
    rw [OrderedMap.get?_insert] at hl'
    split at hl'
    · cases hl'
      exact .load hl
    · exact hs name l' hl'

theorem conclude_snd {ε α : Type} (failure : ε → Failure) (result : Except ε α × Shelf) :
    (conclude failure result).2 = result.2 := by
  obtain ⟨_ | _, _⟩ := result <;> rfl

theorem HoldsLoaded.perform (hs : s.HoldsLoaded) (step : Step) :
    (step.perform s).2.HoldsLoaded := by
  cases step with
  | load t =>
    rw [Step.perform, conclude_snd]
    exact hs.load t
  | register c qualified =>
    rw [Step.perform, conclude_snd]
    exact hs.registerIn c defaultLibrary qualified
  | registerIn c library qualified =>
    rw [Step.perform, conclude_snd]
    exact hs.registerIn c library qualified

theorem HoldsLoaded.run (hs : s.HoldsLoaded) (steps : List Step) :
    (s.run steps).HoldsLoaded := by
  induction steps generalizing s with
  | nil => exact hs
  | cons step rest ih => exact ih (hs.perform step)

end Shelf

/-! ### Walks -/

namespace TypeView

variable {v w : TypeView}

/-- The views that are handed out: by name or by slot from a loaded library, and as the
class of a constructor from a shelf of any history. -/
inductive IsHandedOut : TypeView → Prop
  | lookup {l : Library} {package name : String} {n : TypeNode} :
    l.IsLoaded → l.lookup package name = .ok n → IsHandedOut ⟨l, n⟩
  | typeAt {l : Library} {slot : SlotId} {v : TypeView} :
    l.IsLoaded → l.typeAt? slot = some v → IsHandedOut v
  | classForConstructor {steps : List Shelf.Step} {c : Constructor} {v : TypeView} :
    (Shelf.empty.run steps).classForConstructor c = .ok v → IsHandedOut v

/-- A view of a loaded library whose record stands at its own slot. -/
structure IsPlaced (v : TypeView) : Prop where
  loaded : v.library.IsLoaded
  node : v.library.node? v.node.slot = some v.node

theorem isPlaced_of_typeAt? {l : Library} {slot : SlotId} (hl : l.IsLoaded)
    (hv : l.typeAt? slot = some v) : v.IsPlaced := by
  obtain ⟨n, hn, rfl⟩ := Option.map_eq_some_iff.mp hv
  refine ⟨hl, ?_⟩
  show l.node? n.slot = some n
  rw [hl.isWhole.slot_eq hn]
  exact hn

theorem IsHandedOut.isPlaced (hv : v.IsHandedOut) : v.IsPlaced := by
  cases hv with
  | lookup hl hn =>
    rename_i l _ _ n
    obtain ⟨slot, hslot⟩ := Library.node?_of_lookup hn
    have hview : l.typeAt? slot = some ⟨l, n⟩ := by rw [Library.typeAt?, hslot]; rfl
    exact isPlaced_of_typeAt? hl hview
  | typeAt hl hv => exact isPlaced_of_typeAt? hl hv
  | classForConstructor hv =>
    rename_i steps c
    have hs := Shelf.represents_run Shelf.represents_empty steps
    have hloaded : (Shelf.empty.run steps).HoldsLoaded := Shelf.holdsLoaded_empty.run steps
    obtain ⟨-, he⟩ | ⟨place, view, -, hview, hl, hslot, -⟩ := hs.classForConstructor_cases c
    · rw [he] at hv
      cases hv
    · rw [hview] at hv
      cases hv
      exact isPlaced_of_typeAt? (hloaded _ _ hl) hslot

theorem IsPlaced.leadsTo (hv : v.IsPlaced) (hw : v.LeadsTo w) :
    w.IsPlaced ∧ w.library = v.library := by
  obtain ⟨r, hr, htarget⟩ := hw
  obtain ⟨target, htarget', ha⟩ :=
    hv.loaded.isWhole.exists_resolve? hv.node (mem_edges_of_offers hr)
  rw [htarget] at htarget'
  cases htarget'
  cases ha with
  | slot hlibrary hslot hlt hnode =>
    refine ⟨⟨hlibrary ▸ hv.loaded, ?_⟩, hlibrary⟩
    rw [hlibrary, hslot]
    exact hnode

theorem IsPlaced.walk (hv : v.IsPlaced) (hw : Relation.ReflTransGen LeadsTo v w) :
    w.IsPlaced ∧ w.library = v.library := by
  induction hw with
  | refl => exact ⟨hv, rfl⟩
  | tail _ hstep ih =>
    obtain ⟨hplaced, hlibrary⟩ := ih
    obtain ⟨hplaced', hlibrary'⟩ := hplaced.leadsTo hstep
    exact ⟨hplaced', hlibrary'.trans hlibrary⟩

/-- In a loaded library a name that has a slot gives the record of this slot.  Wherever
a walk comes that starts at a view that is handed out, it stays in the library of the
view, the record reached stands at its own slot, and all references that are offered
there have their answers, whatever sort they are of. -/
theorem resolves_of_walk :
    (∀ l : Library, l.IsLoaded → ∀ package name slot, l.slotOf package name = .ok slot →
      slot.index < l.slots.length ∧
      ∃ n, l.lookup package name = .ok n ∧ l.node? slot = some n ∧ n.slot = slot) ∧
    ∀ v w : TypeView, v.IsHandedOut → Relation.ReflTransGen LeadsTo v w →
      w.library = v.library ∧ w.library.node? w.node.slot = some w.node ∧
      ∀ r, w.Offers r → ∃ target, w.resolve? r = some target ∧ w.library.Answers r target := by
  refine ⟨fun l hl package name slot hs => ?_, fun v w hv hw => ?_⟩
  · exact ⟨hl.isWhole.names hs, hl.isWhole.exists_lookup hs⟩
  · obtain ⟨hplaced, hlibrary⟩ := hv.isPlaced.walk hw
    refine ⟨hlibrary, hplaced.node, fun r hr => ?_⟩
    exact hplaced.loaded.isWhole.exists_resolve? hplaced.node (mem_edges_of_offers hr)

/-- A class whose member is an array of instances of the class; the records stand in the
wrong order. -/
def grove : MetadataTable where
  library := defaultLibrary
  slotCount := 2
  intrinsics := Intrinsic.all
  packages := .ofList [("p", .ofList [("Tree", ⟨1⟩)])]
  populations := [
    ⟨⟨1⟩, some "Tree",
      .classNode { ObjectBody.empty with members := [⟨"branches", .slot ⟨0⟩, false⟩] } [] none []⟩,
    ⟨⟨0⟩, none, .array (.slot ⟨1⟩)⟩]

/-- From the class of a constructor to the array, and from there back to the class. -/
theorem resolves_of_walk_grove :
    (∃ l : Library, l.IsLoaded ∧ l.slotOf "p" "Tree" = .ok ⟨1⟩ ∧
      ∃ n, l.lookup "p" "Tree" = .ok n ∧ n.slot = ⟨1⟩) ∧
    ∃ v w : TypeView,
      (Shelf.empty.run [.load grove, .register ⟨"T"⟩ "p#Tree"]).classForConstructor ⟨"T"⟩ = .ok v ∧
      v.node.slot = ⟨1⟩ ∧ w.node.slot = ⟨0⟩ ∧ Relation.ReflTransGen LeadsTo v w ∧
      w.Offers (.slot ⟨1⟩) ∧
      ∃ target, w.resolve? (.slot ⟨1⟩) = some target ∧ w.library.Answers (.slot ⟨1⟩) target := by
  obtain ⟨hnames, hwalks⟩ := resolves_of_walk
  constructor
  · obtain ⟨l, hl⟩ := Library.load_ok_iff.mpr
      (show grove.slotCount ≤ greatestSlotCount ∧ grove.IsComplete from
        ⟨by decide, by decide, by decide, by decide⟩)
    have hs : l.slotOf "p" "Tree" = .ok ⟨1⟩ := (Library.slotOf_of_load hl).mpr rfl
    obtain ⟨-, n, hn, -, hslot⟩ := hnames l (.load hl) "p" "Tree" ⟨1⟩ hs
    exact ⟨l, .load hl, hs, n, hn, hslot⟩
  · have hview : ((Shelf.empty.run [.load grove, .register ⟨"T"⟩ "p#Tree"]).classForConstructor
        ⟨"T"⟩).toOption.map (fun v => (v.node.slot, v.members, v.library.node? ⟨0⟩)) =
          some (⟨1⟩, [⟨"branches", .slot ⟨0⟩, false⟩],
            some ⟨⟨0⟩, none, .array (.slot ⟨1⟩)⟩) := by
      decide +kernel
    cases hv : (Shelf.empty.run [.load grove, .register ⟨"T"⟩ "p#Tree"]).classForConstructor
        ⟨"T"⟩ with
    | error e =>
      rw [hv] at hview
      cases hview
    | ok v =>
      rw [hv] at hview
      obtain ⟨hslot, hmembers, harray⟩ : v.node.slot = ⟨1⟩ ∧
          v.members = [⟨"branches", .slot ⟨0⟩, false⟩] ∧
          v.library.node? ⟨0⟩ = some ⟨⟨0⟩, none, .array (.slot ⟨1⟩)⟩ := by
        simpa [Except.toOption] using hview
      have hout : v.IsHandedOut := .classForConstructor hv
      have hoffered : v.Offers (.slot ⟨0⟩) :=
        .member (m := ⟨"branches", .slot ⟨0⟩, false⟩) (by simp [hmembers])
      obtain ⟨-, -, hfirst⟩ := hwalks v v hout .refl
      obtain ⟨target, htarget, ha⟩ := hfirst _ hoffered
      obtain _ | ⟨hlibrary, hwslot, -, hnode⟩ := ha
      rename_i w
      -- the record that is reached is the array
      have hw : w.node = ⟨⟨0⟩, none, .array (.slot ⟨1⟩)⟩ :=
        Option.some.inj (hnode.symm.trans harray)
      have hwalk : Relation.ReflTransGen LeadsTo v w := .single ⟨_, hoffered, htarget⟩
      have hback : w.Offers (.slot ⟨1⟩) := .element (by rw [hw])
      exact ⟨v, w, rfl, hslot, hwslot, hwalk, hback, (hwalks v w hout hwalk).2.2 _ hback⟩

end TypeView

end TypeCatalog
