/-
Tables are read back from their texts.

A table fits words if its counts, its slots and the lengths of its signatures
have at most 32 bits (`MetadataTable.FitsWords`).  The text of such a table is
read to the table, with the order of its packages, of their names and of its
records (`MetadataTable.read_toText`).

Two things are shown for every part of a table: that its value can be read from
a text (`isReadable_toJson`), and that its decoder gives the part for the value
(`reads_toJson`).
-/
import TypeCatalog.Proofs.Json.Records
import TypeCatalog.Table.Codec

namespace TypeCatalog

open Json

/-- The signatures of a body. -/
def ObjectBody.signatures (b : ObjectBody) : List Signature := b.construct ++ b.call ++ b.index

/-- The signatures of a record. -/
def NodeKind.signatures : NodeKind → List Signature
  | classNode body _ _ _ => body.signatures
  | interfaceNode body _ => body.signatures
  | function signatures => signatures
  | typeLiteral body => body.signatures
  | _ => []

/-- A slot whose number has at most 32 bits. -/
def SlotId.FitsWord (s : SlotId) : Prop := s.index < Nat.pow 2 32

/-- An edge that does not lead to a slot beyond 32 bits. -/
def TypeRef.FitsWord (r : TypeRef) : Prop := ∀ s ∈ r.slot?, s.FitsWord

/-- Counts, slots and lengths of signatures have at most 32 bits. -/
structure MetadataTable.FitsWords (t : MetadataTable) : Prop where
  slotCount : t.slotCount < Nat.pow 2 32
  names : ∀ names ∈ t.packages.values, ∀ s ∈ names.values, s.index < Nat.pow 2 32
  slots : ∀ n ∈ t.populations, n.slot.index < Nat.pow 2 32
  edges : ∀ n ∈ t.populations, ∀ s ∈ n.slotRefs, s.index < Nat.pow 2 32
  lengths : ∀ n ∈ t.populations, ∀ s ∈ n.kind.signatures, s.length < Nat.pow 2 32

/-! ### Edges -/

namespace SlotId

variable {s : SlotId}

theorem isReadable_toJson {n : Nat} (h : s.FitsWord) : IsReadable n s.toJson :=
  isReadable_nat (Nat.lt_trans h (by decide))

theorem reads_toJson (h : s.FitsWord) : SlotId.decode.Reads s.toJson s :=
  (Decoder.reads_natural32 h).map SlotId.mk

end SlotId

theorem Intrinsic.reads_name (k : Intrinsic) : Intrinsic.decode.Reads (.string k.name) k := by
  refine Decoder.reads_oneOf ?_
  cases k <;> rfl

namespace TypeRef

variable {r : TypeRef}

theorem isReadable_toJson (h : r.FitsWord) : IsReadable 1 r.toJson := by
  cases r with
  | intrinsic k => exact .object (List.forall_mem_singleton.mpr (.string k.name))
  | slot s => exact .object (List.forall_mem_singleton.mpr (SlotId.isReadable_toJson (h s rfl)))

theorem reads_toJson (h : r.FitsWord) : TypeRef.decode.Reads r.toJson r := by
  intro source
  cases r with
  | intrinsic k =>
    rw [toJson, Draft.ofJson, Draft.ofFields, Draft.ofFields, decode, if_pos rfl,
      Intrinsic.reads_name k source]
    rfl
  | slot s =>
    rw [toJson, Draft.ofJson, Draft.ofFields, Draft.ofFields, decode, if_neg (by decide),
      if_pos rfl, SlotId.reads_toJson (h s rfl) source]
    rfl

theorem toJson_ne_null (r : TypeRef) : r.toJson ≠ .null := by cases r <;> exact nofun

end TypeRef

/-! ### Members and signatures -/

namespace Member

variable {m : Member}

theorem isReadable_toJson (h : m.type.FitsWord) : IsReadable 2 m.toJson := by
  refine .object (List.forall_mem_append.mpr ⟨List.forall_mem_append.mpr ⟨?_, ?_⟩, ?_⟩)
  · exact Field.readable_always (.string m.name)
  · exact Field.readable_always (TypeRef.isReadable_toJson h)
  · exact Field.readable_whenTrue

theorem reads_toJson (h : m.type.FitsWord) : Member.fields.decode.Reads m.toJson m := by
  refine Fields.reads_record ?_ fun hn => ?_
  · exact ((Field.within_always.append Field.within_always).append
      Field.within_whenTrue).nodup (by decide)
  refine ((Fields.Reads.map ?_ Member.mk).seq (by decide) ?_).seq (by decide) ?_
  · exact Fields.reads_field hn rfl (Decoder.reads_text m.name)
  · exact Fields.reads_field hn rfl (TypeRef.reads_toJson h)
  · exact Fields.reads_flag hn rfl

end Member

namespace Parameter

variable {p : Parameter}

theorem isReadable_toJson (h : p.type.FitsWord) : IsReadable 2 p.toJson := by
  refine .object (List.forall_mem_cons.mpr ⟨.string p.name, List.forall_mem_singleton.mpr ?_⟩)
  exact TypeRef.isReadable_toJson h

theorem reads_toJson (h : p.type.FitsWord) : Parameter.fields.decode.Reads p.toJson p := by
  refine Fields.reads_record (show ["name", "type"].Nodup by decide) fun hn => ?_
  refine (Fields.Reads.map ?_ Parameter.mk).seq (by decide) ?_
  · exact Fields.reads_field hn rfl (Decoder.reads_text p.name)
  · exact Fields.reads_field hn rfl (TypeRef.reads_toJson h)

end Parameter

namespace Signature

variable {s : Signature}

theorem forall_mem_edges {P : TypeRef → Prop} (s : Signature) :
    (∀ r ∈ s.edges, P r) ↔
      (∀ p ∈ s.parameters, P p.type) ∧ P s.returns ∧ ∀ r ∈ s.typeParameters, P r := by
  rw [edges, List.forall_mem_append, List.forall_mem_map, List.forall_mem_cons]

theorem isReadable_toJson (h : ∀ r ∈ s.edges, r.FitsWord) (hl : s.length < Nat.pow 2 32) :
    IsReadable 4 s.toJson := by
  obtain ⟨hparameters, hreturns, htypes⟩ := s.forall_mem_edges.mp h
  refine .object (List.forall_mem_append.mpr ⟨List.forall_mem_append.mpr
    ⟨List.forall_mem_append.mpr ⟨List.forall_mem_append.mpr ⟨?_, ?_⟩, ?_⟩, ?_⟩, ?_⟩)
  · exact Field.readable_always (isReadable_nat (Nat.lt_trans hl (by decide)))
  · exact Field.readable_always (isReadable_ofList fun p hp =>
      Parameter.isReadable_toJson (hparameters p hp))
  · exact Field.readable_whenTrue
  · exact Field.readable_always ((TypeRef.isReadable_toJson hreturns).mono (by decide))
  · exact Field.readable_whenAny fun r hr =>
      (TypeRef.isReadable_toJson (htypes r hr)).mono (by decide)

theorem reads_toJson (h : ∀ r ∈ s.edges, r.FitsWord) (hl : s.length < Nat.pow 2 32) :
    Signature.fields.decode.Reads s.toJson s := by
  obtain ⟨hparameters, hreturns, htypes⟩ := s.forall_mem_edges.mp h
  refine Fields.reads_record ?_ fun hn => ?_
  · exact ((((Field.within_always.append Field.within_always).append
      Field.within_whenTrue).append Field.within_always).append
        Field.within_whenAny).nodup (by decide)
  refine ((((Fields.Reads.map ?_ Signature.mk).seq (by decide) ?_).seq (by decide) ?_).seq
    (by decide) ?_).seq (by decide) ?_
  · exact Fields.reads_field hn rfl (Decoder.reads_natural32 hl)
  · exact Fields.reads_field hn rfl (Decoder.reads_list fun p hp =>
      Parameter.reads_toJson (hparameters p hp))
  · exact Fields.reads_flag hn (by simp [List.lookup_append])
  · refine Fields.reads_field hn ?_ (TypeRef.reads_toJson hreturns)
    simp [List.lookup_append]
  · exact Fields.reads_many hn (by simp [List.lookup_append]) fun r hr =>
      TypeRef.reads_toJson (htypes r hr)

end Signature

/-! ### Kinds of record -/

namespace ObjectBody

variable {b : ObjectBody} {fs : List (String × Json)}

/-- The edges and the signatures of a body have at most 32 bits. -/
structure FitsWords (b : ObjectBody) : Prop where
  edges : ∀ r ∈ b.edges, r.FitsWord
  lengths : ∀ s ∈ b.signatures, s.length < Nat.pow 2 32

theorem forall_mem_edges {P : TypeRef → Prop} (b : ObjectBody) :
    (∀ r ∈ b.edges, P r) ↔
      (∀ r ∈ b.typeParameters, P r) ∧ (∀ m ∈ b.members, P m.type) ∧
        ∀ s ∈ b.signatures, ∀ r ∈ s.edges, P r := by
  rw [edges, List.forall_mem_append, List.forall_mem_append, List.forall_mem_map,
    List.forall_mem_flatMap, and_assoc]
  rfl

theorem forall_mem_signatures {P : Signature → Prop} (b : ObjectBody) :
    (∀ s ∈ b.signatures, P s) ↔
      (∀ s ∈ b.construct, P s) ∧ (∀ s ∈ b.call, P s) ∧ ∀ s ∈ b.index, P s := by
  rw [signatures, List.forall_mem_append, List.forall_mem_append, and_assoc]

/-- The names of the fields that bodies have. -/
def fieldNames : List String := ["typeParameters", "members", "construct", "call", "index"]

theorem within_toFields (b : ObjectBody) : Field.Within fieldNames b.toFields :=
  (((Field.within_whenAny.append Field.within_whenAny).append Field.within_whenAny).append
    Field.within_whenAny).append Field.within_whenAny

theorem isReadable_toFields (h : b.FitsWords) : ∀ f ∈ b.toFields, IsReadable 5 f.2 := by
  obtain ⟨htypes, hmembers, hedges⟩ := b.forall_mem_edges.mp h.edges
  have hsignature : ∀ s ∈ b.signatures, IsReadable 4 s.toJson :=
    fun s hs => Signature.isReadable_toJson (hedges s hs) (h.lengths s hs)
  obtain ⟨hconstruct, hcall, hindex⟩ := b.forall_mem_signatures.mp hsignature
  refine List.forall_mem_append.mpr ⟨List.forall_mem_append.mpr ⟨List.forall_mem_append.mpr
    ⟨List.forall_mem_append.mpr ⟨?_, ?_⟩, ?_⟩, ?_⟩, ?_⟩
  · exact Field.readable_whenAny fun r hr =>
      (TypeRef.isReadable_toJson (htypes r hr)).mono (by decide)
  · exact Field.readable_whenAny fun m hm =>
      (Member.isReadable_toJson (hmembers m hm)).mono (by decide)
  · exact Field.readable_whenAny hconstruct
  · exact Field.readable_whenAny hcall
  · exact Field.readable_whenAny hindex

/-- A body is read from all fields that have what its own fields have. -/
theorem reads_fields (h : b.FitsWords) (hn : (fs.map Prod.fst).Nodup)
    (hfs : ∀ key ∈ fieldNames, fs.lookup key = b.toFields.lookup key) :
    ObjectBody.fields.Reads fs b := by
  obtain ⟨htypes, hmembers, hedges⟩ := b.forall_mem_edges.mp h.edges
  have hsignature : ∀ s ∈ b.signatures, Signature.fields.decode.Reads s.toJson s :=
    fun s hs => Signature.reads_toJson (hedges s hs) (h.lengths s hs)
  obtain ⟨hconstruct, hcall, hindex⟩ := b.forall_mem_signatures.mp hsignature
  refine ((((Fields.Reads.map ?_ ObjectBody.mk).seq (by decide) ?_).seq (by decide) ?_).seq
    (by decide) ?_).seq (by decide) ?_
  · refine Fields.reads_many hn ((hfs _ (by decide)).trans ?_) fun r hr =>
      TypeRef.reads_toJson (htypes r hr)
    simp [toFields, List.lookup_append]
  · refine Fields.reads_many hn ((hfs _ (by decide)).trans ?_) fun m hm =>
      Member.reads_toJson (hmembers m hm)
    simp [toFields, List.lookup_append]
  · refine Fields.reads_many hn ((hfs _ (by decide)).trans ?_) hconstruct
    simp [toFields, List.lookup_append]
  · refine Fields.reads_many hn ((hfs _ (by decide)).trans ?_) hcall
    simp [toFields, List.lookup_append]
  · refine Fields.reads_many hn ((hfs _ (by decide)).trans ?_) hindex
    simp [toFields, List.lookup_append]

end ObjectBody

namespace NodeKind

/-- The edges and the signatures of a record have at most 32 bits. -/
structure FitsWords (k : NodeKind) : Prop where
  edges : ∀ r ∈ k.edges, r.FitsWord
  lengths : ∀ s ∈ k.signatures, s.length < Nat.pow 2 32

/-- The names of all fields that kinds have beside their tags. -/
def fieldNames : List String :=
  ObjectBody.fieldNames ++ ["statics", "extends", "implements", "elementType", "type",
    "typeArguments", "types", "elements", "signatures", "constraint"]

theorem within_toFields (k : NodeKind) : Field.Within fieldNames k.toFields := by
  have hbody := fun b : ObjectBody => b.within_toFields
  cases k with
  | classNode body statics base implemented =>
    have h : Field.Within (ObjectBody.fieldNames ++ ["statics"] ++ ["extends"] ++ ["implements"])
        (classNode body statics base implemented).toFields :=
      (((hbody body).append Field.within_whenAny).append Field.within_whenSome).append
        Field.within_whenAny
    exact h.trans (by decide)
  | interfaceNode body bases =>
    have h : Field.Within (ObjectBody.fieldNames ++ ["extends"])
        (interfaceNode body bases).toFields :=
      (hbody body).append Field.within_whenAny
    exact h.trans (by decide)
  | typeLiteral body => exact (hbody body).trans (by decide)
  | typeParameter constraint =>
    have h : Field.Within ["constraint"] (typeParameter constraint).toFields :=
      Field.within_whenSome
    exact h.trans (by decide)
  | array elementType => exact (by decide : List.Sublist ["elementType"] fieldNames)
  | reference target typeArguments =>
    exact (by decide : List.Sublist ["type", "typeArguments"] fieldNames)
  | union types => exact (by decide : List.Sublist ["types"] fieldNames)
  | intersection types => exact (by decide : List.Sublist ["types"] fieldNames)
  | tuple elements => exact (by decide : List.Sublist ["elements"] fieldNames)
  | function signatures => exact (by decide : List.Sublist ["signatures"] fieldNames)
  | expression target => exact (by decide : List.Sublist ["type"] fieldNames)

variable {k : NodeKind}

/-- What a class refers to, part by part. -/
theorem FitsWords.ofClass {body : ObjectBody} {statics : List Member} {base : Option TypeRef}
    {implemented : List TypeRef} (h : (classNode body statics base implemented).FitsWords) :
    body.FitsWords ∧ (∀ m ∈ statics, m.type.FitsWord) ∧ (∀ r ∈ base, r.FitsWord) ∧
      ∀ r ∈ implemented, r.FitsWord := by
  obtain ⟨hedges, hlengths⟩ := h
  rw [NodeKind.edges, List.forall_mem_append, List.forall_mem_append, List.forall_mem_append,
    List.forall_mem_map] at hedges
  obtain ⟨⟨⟨hbody, hstatics⟩, hbase⟩, himplemented⟩ := hedges
  exact ⟨⟨hbody, hlengths⟩, hstatics, fun r hr => hbase r (Option.mem_toList.mpr hr), himplemented⟩

theorem FitsWords.ofInterface {body : ObjectBody} {bases : List TypeRef}
    (h : (interfaceNode body bases).FitsWords) :
    body.FitsWords ∧ ∀ r ∈ bases, r.FitsWord := by
  obtain ⟨hedges, hlengths⟩ := h
  rw [NodeKind.edges, List.forall_mem_append] at hedges
  exact ⟨⟨hedges.1, hlengths⟩, hedges.2⟩

theorem FitsWords.ofFunction {signatures : List Signature} (h : (function signatures).FitsWords) :
    ∀ s ∈ signatures, (∀ r ∈ s.edges, r.FitsWord) ∧ s.length < Nat.pow 2 32 := by
  obtain ⟨hedges, hlengths⟩ := h
  rw [NodeKind.edges, List.forall_mem_flatMap] at hedges
  exact fun s hs => ⟨hedges s hs, hlengths s hs⟩

theorem isReadable_toFields (h : k.FitsWords) : ∀ f ∈ k.toFields, IsReadable 5 f.2 := by
  have hmono : ∀ {r : TypeRef} {n}, r.FitsWord → 1 ≤ n → IsReadable n r.toJson :=
    fun hr hn => (TypeRef.isReadable_toJson hr).mono hn
  have hrefs : ∀ {rs : List TypeRef}, (∀ r ∈ rs, r.FitsWord) →
      IsReadable 5 (.ofList TypeRef.toJson rs) :=
    fun hrs => isReadable_ofList fun r hr => hmono (hrs r hr) (by decide)
  cases k with
  | classNode body statics base implemented =>
    obtain ⟨hbody, hstatics, hbase, himplemented⟩ := h.ofClass
    refine List.forall_mem_append.mpr ⟨List.forall_mem_append.mpr ⟨List.forall_mem_append.mpr
      ⟨body.isReadable_toFields hbody, ?_⟩, ?_⟩, ?_⟩
    · exact Field.readable_whenAny fun m hm =>
        (Member.isReadable_toJson (hstatics m hm)).mono (by decide)
    · exact Field.readable_whenSome fun r hr => hmono (hbase r hr) (by decide)
    · exact Field.readable_whenAny fun r hr => hmono (himplemented r hr) (by decide)
  | interfaceNode body bases =>
    obtain ⟨hbody, hbases⟩ := h.ofInterface
    refine List.forall_mem_append.mpr ⟨body.isReadable_toFields hbody, ?_⟩
    exact Field.readable_whenAny fun r hr => hmono (hbases r hr) (by decide)
  | array elementType =>
    exact List.forall_mem_singleton.mpr (hmono (h.edges _ List.mem_cons_self) (by decide))
  | reference target typeArguments =>
    obtain ⟨htarget, harguments⟩ := List.forall_mem_cons.mp h.edges
    exact List.forall_mem_cons.mpr
      ⟨hmono htarget (by decide), List.forall_mem_singleton.mpr (hrefs harguments)⟩
  | union types => exact List.forall_mem_singleton.mpr (hrefs h.edges)
  | intersection types => exact List.forall_mem_singleton.mpr (hrefs h.edges)
  | tuple elements => exact List.forall_mem_singleton.mpr (hrefs h.edges)
  | function signatures =>
    refine List.forall_mem_singleton.mpr (isReadable_ofList fun s hs => ?_)
    exact Signature.isReadable_toJson (h.ofFunction s hs).1 (h.ofFunction s hs).2
  | typeLiteral body => exact body.isReadable_toFields ⟨h.edges, h.lengths⟩
  | typeParameter constraint =>
    refine Field.readable_whenSome fun r hr => hmono (h.edges r ?_) (by decide)
    exact Option.mem_toList.mpr hr
  | expression target =>
    exact List.forall_mem_singleton.mpr (hmono (h.edges _ List.mem_cons_self) (by decide))

section

variable {body : ObjectBody} {statics : List Member} {base : Option TypeRef}
  {implemented bases : List TypeRef}

theorem reads_classFields (h : (classNode body statics base implemented).FitsWords)
    (hn : ((classNode body statics base implemented).toFields.map Prod.fst).Nodup) :
    classFields.Reads (classNode body statics base implemented).toFields
      (statics, base, implemented) := by
  obtain ⟨-, hstatics, hbase, himplemented⟩ := h.ofClass
  refine ((Fields.Reads.map ?_ _).seq (by decide) ?_).seq (by decide) ?_
  · refine Fields.reads_many hn ?_ fun m hm => Member.reads_toJson (hstatics m hm)
    simp [toFields, ObjectBody.toFields, List.lookup_append]
  · refine Fields.reads_maybe hn ?_ fun r hr =>
      ⟨TypeRef.reads_toJson (hbase r hr), r.toJson_ne_null⟩
    simp [toFields, ObjectBody.toFields, List.lookup_append]
  · refine Fields.reads_many hn ?_ fun r hr => TypeRef.reads_toJson (himplemented r hr)
    simp [toFields, ObjectBody.toFields, List.lookup_append]

/-- The other fields of a class have other names than those of its body. -/
theorem lookup_toFields_class : ∀ key ∈ ObjectBody.fieldNames,
    (classNode body statics base implemented).toFields.lookup key = body.toFields.lookup key := by
  simp [ObjectBody.fieldNames, toFields, List.lookup_append]

theorem lookup_toFields_interface : ∀ key ∈ ObjectBody.fieldNames,
    (interfaceNode body bases).toFields.lookup key = body.toFields.lookup key := by
  simp [ObjectBody.fieldNames, toFields, List.lookup_append]

/-- The body of a class is read as if its other fields were not there. -/
theorem reads_body_of_class (h : body.FitsWords)
    (hn : ((classNode body statics base implemented).toFields.map Prod.fst).Nodup) :
    ObjectBody.fields.Reads (classNode body statics base implemented).toFields body :=
  ObjectBody.reads_fields h hn lookup_toFields_class

theorem reads_body_of_interface (h : body.FitsWords)
    (hn : ((interfaceNode body bases).toFields.map Prod.fst).Nodup) :
    ObjectBody.fields.Reads (interfaceNode body bases).toFields body :=
  ObjectBody.reads_fields h hn lookup_toFields_interface

end

theorem tag_mem_kinds (k : NodeKind) : k.tag ∈ kinds := by
  cases k <;> simp [kinds, tag]

/-- A kind is read from its fields by its tag. -/
theorem decode_toFields (h : k.FitsWords) :
    decode k.tag (Draft.ofFields k.toFields) = .ok k := by
  have hn : (k.toFields.map Prod.fst).Nodup := k.within_toFields.nodup (by decide)
  have hrefs : ∀ {rs : List TypeRef}, (∀ r ∈ rs, r.FitsWord) →
      (Decoder.list TypeRef.decode).Reads (.ofList TypeRef.toJson rs) rs :=
    fun hrs => Decoder.reads_list fun r hr => TypeRef.reads_toJson (hrs r hr)
  cases k with
  | classNode body statics base implemented =>
    -- one list is read twice, each time skipping what the other reading is for
    have hclass := (reads_classFields h hn).readNamed hn .held
    have hbody := (reads_body_of_class h.ofClass.1 hn).readNamed hn .held
    exact (bind_of_eq_ok hclass _).trans (bind_of_eq_ok hbody _)
  | interfaceNode body bases =>
    obtain ⟨hbody, hbases⟩ := h.ofInterface
    have hlist : interfaceFields.Reads (interfaceNode body bases).toFields bases := by
      refine Fields.reads_many hn ?_ fun r hr => TypeRef.reads_toJson (hbases r hr)
      simp [toFields, ObjectBody.toFields, List.lookup_append]
    have hbases := hlist.readNamed hn .held
    have hbody := (reads_body_of_interface hbody hn).readNamed hn .held
    exact (bind_of_eq_ok hbases _).trans (bind_of_eq_ok hbody _)
  | array elementType =>
    have hd : (array <$> Fields.required "elementType" TypeRef.decode).Reads _ _ :=
      (Fields.reads_field hn rfl (TypeRef.reads_toJson (h.edges _ List.mem_cons_self))).map array
    exact hd.readNamed hn .held
  | reference target typeArguments =>
    obtain ⟨htarget, harguments⟩ := List.forall_mem_cons.mp h.edges
    have hd : (reference <$> Fields.required "type" TypeRef.decode
        <*> Fields.required "typeArguments" (.list TypeRef.decode)).Reads _ _ :=
      ((Fields.reads_field hn rfl (TypeRef.reads_toJson htarget)).map reference).seq (by decide)
        (Fields.reads_field hn rfl (hrefs harguments))
    exact hd.readNamed hn .held
  | union types =>
    have hd : (union <$> Fields.required "types" (.list TypeRef.decode)).Reads _ _ :=
      (Fields.reads_field hn rfl (hrefs h.edges)).map union
    exact hd.readNamed hn .held
  | intersection types =>
    have hd : (intersection <$> Fields.required "types" (.list TypeRef.decode)).Reads _ _ :=
      (Fields.reads_field hn rfl (hrefs h.edges)).map intersection
    exact hd.readNamed hn .held
  | tuple elements =>
    have hd : (tuple <$> Fields.required "elements" (.list TypeRef.decode)).Reads _ _ :=
      (Fields.reads_field hn rfl (hrefs h.edges)).map tuple
    exact hd.readNamed hn .held
  | function signatures =>
    have hsignatures : (Decoder.list Signature.fields.decode).Reads
        (.ofList Signature.toJson signatures) signatures :=
      Decoder.reads_list fun s hs =>
        Signature.reads_toJson (h.ofFunction s hs).1 (h.ofFunction s hs).2
    have hd : (function <$> Fields.required "signatures"
        (.list Signature.fields.decode)).Reads _ _ :=
      (Fields.reads_field hn rfl hsignatures).map function
    exact hd.readNamed hn .held
  | typeLiteral body =>
    have hd : ObjectBody.fields.Reads (typeLiteral body).toFields body :=
      ObjectBody.reads_fields ⟨h.edges, h.lengths⟩ hn fun _ _ => rfl
    exact bind_of_eq_ok (hd.readNamed hn .held) _
  | typeParameter constraint =>
    have hd : (typeParameter <$> Fields.maybe "constraint" TypeRef.decode).Reads
        (typeParameter constraint).toFields (typeParameter constraint) := by
      refine (Fields.reads_maybe hn rfl fun r hr => ⟨?_, r.toJson_ne_null⟩).map typeParameter
      exact TypeRef.reads_toJson (h.edges r (Option.mem_toList.mpr hr))
    exact hd.readNamed hn .held
  | expression target =>
    have hd : (expression <$> Fields.required "type" TypeRef.decode).Reads _ _ :=
      (Fields.reads_field hn rfl (TypeRef.reads_toJson
        (h.edges _ List.mem_cons_self))).map expression
    exact hd.readNamed hn .held

end NodeKind

/-! ### Records -/

namespace TypeNode

variable {n : TypeNode} {source : Source} {fs : List (String × Json)}

theorem readHead_of_forall_ne (head : Head) (h : ∀ f ∈ fs, f.1 ≠ "slot" ∧ f.1 ≠ "name") :
    readHead source head (Draft.ofFields fs) = .ok (head, Draft.ofFields fs) := by
  induction fs with
  | nil =>
    rw [Draft.ofFields, readHead]
  | cons f rest ih =>
    obtain ⟨hslot, hname⟩ := h f List.mem_cons_self
    rw [Draft.ofFields, readHead, if_neg hslot, if_neg hname, Draft.hold_ofJson,
      ih fun g hg => h g (List.mem_cons_of_mem f hg)]
    rfl

/-- The slot and the name of a record are taken, and what says its kind is held. -/
theorem readHead_toJson (h : n.slot.FitsWord) (hfs : ∀ f ∈ fs, f.1 ≠ "slot" ∧ f.1 ≠ "name") :
    readHead source ⟨none, none⟩
        (Draft.ofFields (("slot", n.slot.toJson) :: (Field.whenSome "name" .string n.name ++ fs)))
      = .ok (⟨some n.slot, n.name.map some⟩, Draft.ofFields fs) := by
  have hslot := SlotId.reads_toJson h source
  rw [Draft.ofFields, readHead, if_pos rfl, if_neg (by decide)]
  refine (bind_of_eq_ok hslot _).trans ?_
  cases n.name with
  | none => exact readHead_of_forall_ne _ hfs
  | some name =>
    have hname : Decoder.text.optional source (Draft.ofJson (.string name)) = .ok (some name) :=
      (Decoder.reads_text name).optional (by simp) source
    rw [Field.whenSome, List.singleton_append, Draft.ofFields, readHead, if_neg (by decide),
      if_pos rfl]
    refine (if_neg Bool.false_ne_true).trans ((bind_of_eq_ok hname _).trans ?_)
    exact readHead_of_forall_ne _ hfs

/-- The fields that say the kind of a record do not have the names of others. -/
theorem ne_of_mem_toFields {f : String × Json} (hf : f ∈ n.kind.toFields) :
    f.1 ≠ "slot" ∧ f.1 ≠ "name" ∧ f.1 ≠ "kind" := by
  have hall : ∀ name ∈ NodeKind.fieldNames, name ≠ "slot" ∧ name ≠ "name" ∧ name ≠ "kind" := by
    decide
  exact hall f.1 (n.kind.within_toFields.mem hf)

theorem isReadable_toJson (h : n.slot.FitsWord) (hk : n.kind.FitsWords) :
    IsReadable 6 n.toJson := by
  refine .object (List.forall_mem_cons.mpr ⟨SlotId.isReadable_toJson h,
    List.forall_mem_append.mpr ⟨?_, List.forall_mem_cons.mpr ⟨.string n.kind.tag, ?_⟩⟩⟩)
  · exact Field.readable_whenSome fun name _ => .string name
  · exact NodeKind.isReadable_toFields hk

theorem reads_toJson (h : n.slot.FitsWord) (hk : n.kind.FitsWords) :
    TypeNode.decode.Reads n.toJson n := by
  intro source
  have hfs : ∀ f ∈ ("kind", Json.string n.kind.tag) :: n.kind.toFields,
      f.1 ≠ "slot" ∧ f.1 ≠ "name" := by
    refine List.forall_mem_cons.mpr ⟨?_, fun f hf => ?_⟩
    · show "kind" ≠ "slot" ∧ "kind" ≠ "name"
      decide
    · exact ⟨(ne_of_mem_toFields hf).1, (ne_of_mem_toFields hf).2.1⟩
  have hhead : readHead source ⟨none, none⟩ _ = .ok (_, _) := readHead_toJson h hfs
  have hkind : readTagNamed "kind" NodeKind.kinds .held
      (Draft.ofFields (("kind", .string n.kind.tag) :: n.kind.toFields)) none
        = .ok (n.kind.tag, .named (Draft.ofFields n.kind.toFields)) :=
    readTagNamed_cons n.kind.tag_mem_kinds fun f hf => (ne_of_mem_toFields hf).2.2
  have hdecode := NodeKind.decode_toFields hk
  have hname : (n.name.map some).getD none = n.name := by cases n.name <;> rfl
  have hrecord : TypeNode.mk n.slot ((n.name.map some).getD none) n.kind = n := by rw [hname]
  -- the slot and the name are taken where they stand, and the tag leads what is held
  rw [toJson, Draft.ofJson, decode, List.cons_append]
  refine (bind_of_eq_ok hhead _).trans ((bind_of_eq_ok hkind _).trans ?_)
  exact (bind_of_eq_ok hdecode _).trans (congrArg Except.ok hrecord)

end TypeNode

/-! ### Tables -/

namespace MetadataTable

variable {t : MetadataTable}

theorem FitsWords.kind (h : t.FitsWords) {n : TypeNode} (hn : n ∈ t.populations) :
    n.kind.FitsWords where
  edges r hr s hs := h.edges n hn s (List.mem_filterMap.mpr ⟨r, hr, hs⟩)
  lengths := h.lengths n hn

theorem isReadable_packages (h : t.FitsWords) :
    IsReadable 2 (.object (t.packages.entries.map fun e => (e.1, PackageTable.toJson e.2))) := by
  refine .object (List.forall_mem_map.mpr fun e he => .object (List.forall_mem_map.mpr ?_))
  have hslots := h.names e.2 (List.mem_map_of_mem he)
  exact fun e' he' => SlotId.isReadable_toJson (hslots e'.2 (List.mem_map_of_mem he'))

theorem isReadable_toJson (h : t.FitsWords) : IsReadable 8 t.toJson := by
  refine .object (List.forall_mem_cons.mpr ⟨.string t.library, List.forall_mem_cons.mpr
    ⟨?_, List.forall_mem_cons.mpr ⟨?_, List.forall_mem_cons.mpr ⟨?_,
      List.forall_mem_singleton.mpr ?_⟩⟩⟩⟩)
  · exact isReadable_nat (Nat.lt_trans h.slotCount (by decide))
  · exact isReadable_ofList fun k _ => .string k.name
  · exact (isReadable_packages h).mono (by decide)
  · exact isReadable_ofList fun n hn => TypeNode.isReadable_toJson (h.slots n hn) (h.kind hn)

theorem reads_toJson (h : t.FitsWords) : MetadataTable.fields.decode.Reads t.toJson t := by
  refine Fields.reads_record
    (show ["library", "slotCount", "intrinsics", "packages", "populations"].Nodup by decide)
    fun hn => ?_
  refine ((((Fields.Reads.map ?_ MetadataTable.mk).seq (by decide) ?_).seq (by decide) ?_).seq
    (by decide) ?_).seq (by decide) ?_
  · exact Fields.reads_field hn rfl (Decoder.reads_text t.library)
  · exact Fields.reads_field hn rfl (Decoder.reads_natural32 h.slotCount)
  · exact Fields.reads_field hn rfl (Decoder.reads_list fun k _ => k.reads_name)
  · refine Fields.reads_field hn rfl (Decoder.reads_dictionary fun names hnames => ?_)
    exact Decoder.reads_dictionary fun s hs => SlotId.reads_toJson (h.names names hnames s hs)
  · refine Fields.reads_field hn rfl (Decoder.reads_list fun n hmem => ?_)
    exact TypeNode.reads_toJson (h.slots n hmem) (h.kind hmem)

/-- The text of a table is read to the table. -/
theorem read_toText (t : MetadataTable) (h : t.FitsWords) :
    MetadataTable.read t.toText = .ok t := by
  have hdecode : MetadataTable.read t.toText = fields.decode .streamed (Draft.ofJson t.toJson) :=
    decodeText_pretty fields.decode (isReadable_toJson h) (by decide)
  rw [hdecode, reads_toJson h .streamed]

/-- A signature with something in each of its fields. -/
def spread : Signature where
  length := 1
  parameters := [⟨"first", .slot ⟨3⟩⟩, ⟨"…", .slot ⟨2⟩⟩]
  hasRest := true
  returns := .intrinsic .void
  typeParameters := [.slot ⟨9⟩]

/-- A record of every kind, and names that a text has to escape. -/
def everyKind : MetadataTable where
  library := "every \"kind\"\n"
  slotCount := 12
  intrinsics := Intrinsic.all
  packages := .ofList [("b", .ofList [("Z", ⟨1⟩), ("A\\", ⟨0⟩)]), ("", .ofList []),
    ("a\u0001", .ofList [("π", ⟨0⟩)])]
  populations :=
    [⟨⟨1⟩, some "Z", .interfaceNode ⟨[], [], [spread], [], []⟩ [.slot ⟨3⟩, .slot ⟨1⟩]⟩,
      ⟨⟨0⟩, some "A\\", .classNode ⟨[.slot ⟨9⟩], [⟨"m\t", .slot ⟨1⟩, true⟩], [], [spread], [spread]⟩
        [⟨"s", .intrinsic .string, false⟩] (some (.slot ⟨1⟩)) [.slot ⟨1⟩]⟩,
      ⟨⟨2⟩, none, .array (.intrinsic .number)⟩, ⟨⟨3⟩, none, .reference (.slot ⟨1⟩) []⟩,
      ⟨⟨4⟩, none, .union [.slot ⟨2⟩, .intrinsic .undefined]⟩, ⟨⟨5⟩, none, .intersection []⟩,
      ⟨⟨6⟩, some "", .tuple [.slot ⟨4⟩]⟩, ⟨⟨7⟩, none, .function [spread]⟩,
      ⟨⟨8⟩, none, .typeLiteral .empty⟩, ⟨⟨9⟩, some "T", .typeParameter none⟩,
      ⟨⟨10⟩, some "U", .typeParameter (some (.slot ⟨8⟩))⟩, ⟨⟨11⟩, none, .expression (.slot ⟨0⟩)⟩]

theorem read_toText_everyKind :
    everyKind.FitsWords ∧ MetadataTable.read everyKind.toText = .ok everyKind := by
  have h : everyKind.FitsWords :=
    { slotCount := by decide, names := by decide, slots := by decide, edges := by decide,
      lengths := by decide }
  exact ⟨h, read_toText everyKind h⟩

end MetadataTable

end TypeCatalog
