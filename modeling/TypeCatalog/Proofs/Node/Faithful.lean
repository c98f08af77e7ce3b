/-
Different records are different data.

Every part of a record is told by the fields that are written for it: lists,
flags and names that are left out are told by their absence.  So a record is
known from its slot, its name and the fields of its kind
(`TypeNode.eq_of_details_eq`), and a kind is known from its tag and its fields
(`NodeKind.eq_of_toFields_eq`).

Nothing is said about the size of numbers; a record whose numbers do not fit
into words is data as well, though it cannot be read back.
-/
import Mathlib.Data.List.Basic
import TypeCatalog.Proofs.Table.Codec

namespace TypeCatalog

open Json

/-! ### Fields that may be left out -/

namespace Field

variable {α : Type} {f : α → Json}

theorem whenAny_inj (name : String) (hf : Function.Injective f) {as as' : List α}
    (h : (whenAny name f as).lookup name = (whenAny name f as').lookup name) : as = as' := by
  cases as with
  | nil =>
    cases as' with
    | nil => rfl
    | cons a' rest' => simp [whenAny] at h
  | cons a rest =>
    cases as' with
    | nil => simp [whenAny] at h
    | cons a' rest' =>
      simp only [whenAny, List.lookup_cons_self, Option.some.injEq, Json.ofList,
        Json.array.injEq] at h
      exact List.map_injective_iff.mpr hf h

theorem whenSome_inj (name : String) (hf : Function.Injective f) {o o' : Option α}
    (h : (whenSome name f o).lookup name = (whenSome name f o').lookup name) : o = o' := by
  cases o with
  | none =>
    cases o' with
    | none => rfl
    | some a' => simp [whenSome] at h
  | some a =>
    cases o' with
    | none => simp [whenSome] at h
    | some a' =>
      simp only [whenSome, List.lookup_cons_self, Option.some.injEq] at h
      rw [hf h]

theorem whenTrue_inj (name : String) {flag flag' : Bool}
    (h : (whenTrue name flag).lookup name = (whenTrue name flag').lookup name) :
    flag = flag' := by
  cases flag <;> cases flag' <;> simp [whenTrue] at h ⊢

end Field

/-! ### Parts of records -/

theorem Json.nat_injective : Function.Injective Json.nat :=
  fun _ _ h => Int.ofNat_inj.mp (Json.integer.inj h)

theorem Json.ofList_injective {α : Type} {f : α → Json} (hf : Function.Injective f) :
    Function.Injective (Json.ofList f) :=
  fun _ _ h => List.map_injective_iff.mpr hf (Json.array.inj h)

theorem SlotId.toJson_injective : Function.Injective SlotId.toJson := by
  intro s s' h
  cases s
  cases s'
  exact congrArg SlotId.mk (Json.nat_injective h)

theorem Intrinsic.name_injective : Function.Injective Intrinsic.name := by
  intro k k' h
  cases k <;> cases k' <;> simp [name] at h ⊢

theorem TypeRef.toJson_injective : Function.Injective TypeRef.toJson := by
  intro r r' h
  cases r with
  | intrinsic k =>
    cases r' with
    | intrinsic k' =>
      have hname : k.name = k'.name := by simpa [toJson] using h
      rw [Intrinsic.name_injective hname]
    | slot s' => simp [toJson] at h
  | slot s =>
    cases r' with
    | intrinsic k' => simp [toJson] at h
    | slot s' =>
      have hslot : s.toJson = s'.toJson := by simpa [toJson] using h
      rw [SlotId.toJson_injective hslot]

theorem Member.toJson_injective : Function.Injective Member.toJson := by
  intro m m' h
  have hfield := fun key => congrArg (List.lookup key) (Json.object.inj h)
  have hname : m.name = m'.name := by simpa [List.lookup_append] using hfield "name"
  have htype : m.type.toJson = m'.type.toJson := by
    simpa [List.lookup_append] using hfield "type"
  have hoptional : m.isOptional = m'.isOptional :=
    Field.whenTrue_inj "optional" (by simpa [List.lookup_append] using hfield "optional")
  have htype := TypeRef.toJson_injective htype
  cases m
  cases m'
  simp_all

theorem Parameter.toJson_injective : Function.Injective Parameter.toJson := by
  intro p p' h
  obtain ⟨hname, htype⟩ : p.name = p'.name ∧ p.type.toJson = p'.type.toJson := by
    simpa [toJson] using h
  have htype := TypeRef.toJson_injective htype
  cases p
  cases p'
  simp_all

theorem Signature.toJson_injective : Function.Injective Signature.toJson := by
  intro s s' h
  have hfield := fun key => congrArg (List.lookup key) (Json.object.inj h)
  have hlength : Json.nat s.length = .nat s'.length := by
    simpa [List.lookup_append] using hfield "length"
  have hparameters : Json.ofList Parameter.toJson s.parameters
      = .ofList Parameter.toJson s'.parameters := by
    simpa [List.lookup_append] using hfield "parameters"
  have hrest : s.hasRest = s'.hasRest :=
    Field.whenTrue_inj "rest" (by simpa [List.lookup_append] using hfield "rest")
  have hreturns : s.returns.toJson = s'.returns.toJson := by
    simpa [List.lookup_append] using hfield "returns"
  have htypes : s.typeParameters = s'.typeParameters :=
    Field.whenAny_inj "typeParameters" TypeRef.toJson_injective
      (by simpa [List.lookup_append] using hfield "typeParameters")
  have hlength := Json.nat_injective hlength
  have hparameters := Json.ofList_injective Parameter.toJson_injective hparameters
  have hreturns := TypeRef.toJson_injective hreturns
  cases s
  cases s'
  simp_all

/-- A body is told by what its fields have under their names. -/
theorem ObjectBody.eq_of_lookup_eq {b b' : ObjectBody}
    (h : ∀ key ∈ fieldNames, b.toFields.lookup key = b'.toFields.lookup key) : b = b' := by
  have htypes : b.typeParameters = b'.typeParameters :=
    Field.whenAny_inj "typeParameters" TypeRef.toJson_injective
      (by simpa [toFields, List.lookup_append] using h "typeParameters" (by decide))
  have hmembers : b.members = b'.members :=
    Field.whenAny_inj "members" Member.toJson_injective
      (by simpa [toFields, List.lookup_append] using h "members" (by decide))
  have hconstruct : b.construct = b'.construct :=
    Field.whenAny_inj "construct" Signature.toJson_injective
      (by simpa [toFields, List.lookup_append] using h "construct" (by decide))
  have hcall : b.call = b'.call :=
    Field.whenAny_inj "call" Signature.toJson_injective
      (by simpa [toFields, List.lookup_append] using h "call" (by decide))
  have hindex : b.index = b'.index :=
    Field.whenAny_inj "index" Signature.toJson_injective
      (by simpa [toFields, List.lookup_append] using h "index" (by decide))
  cases b
  cases b'
  simp_all

/-! ### Records -/

namespace NodeKind

theorem eq_of_toFields_eq_class {body body' : ObjectBody} {statics statics' : List Member}
    {base base' : Option TypeRef} {implemented implemented' : List TypeRef}
    (h : (classNode body statics base implemented).toFields
      = (classNode body' statics' base' implemented').toFields) :
    classNode body statics base implemented = classNode body' statics' base' implemented' := by
  have hfield := fun key => congrArg (List.lookup key) h
  have hbody : body = body' := by
    refine ObjectBody.eq_of_lookup_eq fun key hkey => ?_
    rw [← lookup_toFields_class key hkey, h, lookup_toFields_class key hkey]
  have hstatics : statics = statics' :=
    Field.whenAny_inj "statics" Member.toJson_injective
      (by simpa [toFields, ObjectBody.toFields, List.lookup_append] using hfield "statics")
  have hbase : base = base' :=
    Field.whenSome_inj "extends" TypeRef.toJson_injective
      (by simpa [toFields, ObjectBody.toFields, List.lookup_append] using hfield "extends")
  have himplemented : implemented = implemented' :=
    Field.whenAny_inj "implements" TypeRef.toJson_injective
      (by simpa [toFields, ObjectBody.toFields, List.lookup_append] using hfield "implements")
  rw [hbody, hstatics, hbase, himplemented]

theorem eq_of_toFields_eq_interface {body body' : ObjectBody} {bases bases' : List TypeRef}
    (h : (interfaceNode body bases).toFields = (interfaceNode body' bases').toFields) :
    interfaceNode body bases = interfaceNode body' bases' := by
  have hfield := fun key => congrArg (List.lookup key) h
  have hbody : body = body' := by
    refine ObjectBody.eq_of_lookup_eq fun key hkey => ?_
    rw [← lookup_toFields_interface key hkey, h, lookup_toFields_interface key hkey]
  have hbases : bases = bases' :=
    Field.whenAny_inj "extends" TypeRef.toJson_injective
      (by simpa [toFields, ObjectBody.toFields, List.lookup_append] using hfield "extends")
  rw [hbody, hbases]

/-- A kind with one list of edges is told by the list. -/
theorem edges_eq_of_field_eq {key : String} {rs rs' : List TypeRef}
    (h : [(key, Json.ofList TypeRef.toJson rs)] = [(key, Json.ofList TypeRef.toJson rs')]) :
    rs = rs' := by
  have hvalue : Json.ofList TypeRef.toJson rs = .ofList TypeRef.toJson rs' := by simpa using h
  exact Json.ofList_injective TypeRef.toJson_injective hvalue

/-- A kind is told by its tag and its fields. -/
theorem eq_of_toFields_eq {k k' : NodeKind} (htag : k.tag = k'.tag)
    (h : k.toFields = k'.toFields) : k = k' := by
  have hfield := fun key => congrArg (List.lookup key) h
  cases k with
  | classNode body statics base implemented =>
    cases k' with
    | classNode body' statics' base' implemented' => exact eq_of_toFields_eq_class h
    | _ => simp [tag] at htag
  | interfaceNode body bases =>
    cases k' with
    | interfaceNode body' bases' => exact eq_of_toFields_eq_interface h
    | _ => simp [tag] at htag
  | array elementType =>
    cases k' with
    | array elementType' =>
      have helement : elementType.toJson = elementType'.toJson := by simpa [toFields] using h
      rw [TypeRef.toJson_injective helement]
    | _ => simp [tag] at htag
  | reference target typeArguments =>
    cases k' with
    | reference target' typeArguments' =>
      obtain ⟨htarget, harguments⟩ : target.toJson = target'.toJson ∧
          Json.ofList TypeRef.toJson typeArguments = .ofList TypeRef.toJson typeArguments' := by
        simpa [toFields] using h
      rw [TypeRef.toJson_injective htarget,
        Json.ofList_injective TypeRef.toJson_injective harguments]
    | _ => simp [tag] at htag
  | union types =>
    cases k' with
    | union types' => rw [edges_eq_of_field_eq h]
    | _ => simp [tag] at htag
  | intersection types =>
    cases k' with
    | intersection types' => rw [edges_eq_of_field_eq h]
    | _ => simp [tag] at htag
  | tuple elements =>
    cases k' with
    | tuple elements' => rw [edges_eq_of_field_eq h]
    | _ => simp [tag] at htag
  | function signatures =>
    cases k' with
    | function signatures' =>
      have hsignatures : Json.ofList Signature.toJson signatures
          = .ofList Signature.toJson signatures' := by
        simpa [toFields] using h
      rw [Json.ofList_injective Signature.toJson_injective hsignatures]
    | _ => simp [tag] at htag
  | typeLiteral body =>
    cases k' with
    | typeLiteral body' =>
      rw [ObjectBody.eq_of_lookup_eq fun key _ => hfield key]
    | _ => simp [tag] at htag
  | typeParameter constraint =>
    cases k' with
    | typeParameter constraint' =>
      rw [Field.whenSome_inj "constraint" TypeRef.toJson_injective (hfield "constraint")]
    | _ => simp [tag] at htag
  | expression target =>
    cases k' with
    | expression target' =>
      have htarget : target.toJson = target'.toJson := by simpa [toFields] using h
      rw [TypeRef.toJson_injective htarget]
    | _ => simp [tag] at htag

end NodeKind

namespace TypeNode

/-- The fields of a record beside its slot. -/
def details (n : TypeNode) : List (String × Json) :=
  Field.whenSome "name" .string n.name ++ ("kind", .string n.kind.tag) :: n.kind.toFields

/-- A record is told by its slot and its other fields. -/
theorem eq_of_details_eq {n n' : TypeNode} (hslot : n.slot = n'.slot)
    (h : n.details = n'.details) : n = n' := by
  obtain ⟨hname, htag, hfields⟩ :
      n.name = n'.name ∧ n.kind.tag = n'.kind.tag ∧ n.kind.toFields = n'.kind.toFields := by
    unfold details at h
    cases hn : n.name with
    | none =>
      cases hn' : n'.name with
      | none =>
        rw [hn, hn'] at h
        simpa [Field.whenSome] using h
      | some name' =>
        rw [hn, hn'] at h
        simp [Field.whenSome] at h
    | some name =>
      cases hn' : n'.name with
      | none =>
        rw [hn, hn'] at h
        simp [Field.whenSome] at h
      | some name' =>
        rw [hn, hn'] at h
        simpa [Field.whenSome] using h
  have hkind := NodeKind.eq_of_toFields_eq htag hfields
  cases n
  cases n'
  simp_all

end TypeNode

end TypeCatalog
