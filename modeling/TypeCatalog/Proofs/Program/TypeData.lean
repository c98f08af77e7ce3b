/-
Types of a program are read back from their values.

A type can be written (`TypeData.IsWritable`) if the handles in it have numbers of
at most 32 bits and its number, if it is a literal, is read back from what is printed
of it.  Two things are shown for every part of a type, and for types themselves: that
its value can be read from a text (`isReadable_toJson`), and that its decoder gives
the part for the value (`reads_toJson`).
-/
import TypeCatalog.Program.Codec
import TypeCatalog.Proofs.Json.Numerals
import TypeCatalog.Proofs.Table.Codec

namespace TypeCatalog

open Json

/-! ### What can be written -/

/-- A handle whose number has at most 32 bits. -/
def TypeHandle.FitsWord (h : TypeHandle) : Prop := h.index < Nat.pow 2 32

/-- A number that is read back from what is printed of it.  A numeral may be rounded
more than once when it is read, so not all numbers are. -/
def Binary64.ReadsBack (x : Binary64) : Prop :=
  scanNumber (x.render .data) = .found (.real x) []

/-- Whether a scanner found the number and nothing behind it. -/
def Json.Scan.isReal (x : Binary64) : Scan Json → Bool
  | .found (.real y) [] => y == x
  | _ => false

theorem Json.Scan.isReal_iff {x : Binary64} {found : Scan Json} :
    found.isReal x = true ↔ found = .found (.real x) [] := by
  constructor
  · intro h
    unfold Scan.isReal at h
    split at h
    · rw [eq_of_beq h]
    · cases h
  · rintro rfl
    exact beq_self_eq_true x

instance (h : TypeHandle) : Decidable h.FitsWord := inferInstanceAs (Decidable (_ < _))

instance (x : Binary64) : Decidable x.ReadsBack := decidable_of_iff _ Scan.isReal_iff

/-- The number of a literal type. -/
def TypeData.number? : TypeData → Option Binary64
  | literal (.number x) => some x
  | _ => none

/-- The handles of a type have at most 32 bits, and its number is read back. -/
structure TypeData.IsWritable (data : TypeData) : Prop where
  handles : ∀ h ∈ data.handles, h.FitsWord
  number : ∀ x ∈ data.number?, x.ReadsBack

instance (data : TypeData) : Decidable data.IsWritable :=
  decidable_of_iff ((∀ h ∈ data.handles, h.FitsWord) ∧ ∀ x ∈ data.number?, x.ReadsBack)
    ⟨fun h => ⟨h.1, h.2⟩, fun h => ⟨h.handles, h.number⟩⟩

/-! ### Handles and names -/

namespace TypeHandle

variable {h : TypeHandle}

theorem isReadable_toJson {n : Nat} (hh : h.FitsWord) : IsReadable n h.toJson :=
  isReadable_nat (Nat.lt_trans hh (by decide))

theorem reads_toJson (hh : h.FitsWord) : TypeHandle.decode.Reads h.toJson h :=
  (Decoder.reads_natural32 hh).map TypeHandle.mk

theorem isReadable_list {n : Nat} {hs : List TypeHandle} (hh : ∀ h ∈ hs, h.FitsWord) :
    IsReadable (n + 1) (.ofList TypeHandle.toJson hs) :=
  isReadable_ofList fun h hmem => isReadable_toJson (hh h hmem)

theorem reads_list {hs : List TypeHandle} (hh : ∀ h ∈ hs, h.FitsWord) :
    (Decoder.list TypeHandle.decode).Reads (.ofList TypeHandle.toJson hs) hs :=
  Decoder.reads_list fun h hmem => reads_toJson (hh h hmem)

end TypeHandle

/-- A name that may be absent. -/
theorem reads_optionalName {fs : List (String × Json)} {key : String} {o : Option String}
    (hn : (fs.map Prod.fst).Nodup) (hv : fs.lookup key = some (.ofOption .string o)) :
    (Fields.maybe key Decoder.text).Reads fs o :=
  Fields.reads_nullable hn hv fun s _ => ⟨Decoder.reads_text s, nofun⟩

/-! ### Members and signatures -/

theorem MemberKind.reads_name (k : MemberKind) :
    (Decoder.oneOf MemberKind.names).Reads (.string k.name) k := by
  refine Decoder.reads_oneOf ?_
  cases k <;> rfl

namespace HostMember

variable {m : HostMember}

theorem isReadable_toJson (h : m.valueType.FitsWord) : IsReadable 1 m.toJson := by
  refine .object (List.forall_mem_append.mpr ⟨List.forall_mem_append.mpr
    ⟨List.forall_mem_append.mpr ⟨?_, ?_⟩, ?_⟩, ?_⟩)
  · exact Field.readable_always (.string m.name)
  · exact Field.readable_always (.string m.kind.name)
  · exact Field.readable_always (TypeHandle.isReadable_toJson h)
  · exact Field.readable_whenTrue

theorem reads_toJson (h : m.valueType.FitsWord) : HostMember.fields.decode.Reads m.toJson m := by
  refine Fields.reads_record ?_ fun hn => ?_
  · exact (((Field.within_always.append Field.within_always).append
      Field.within_always).append Field.within_whenTrue).nodup (by decide)
  refine (((Fields.Reads.map ?_ HostMember.mk).seq (by decide) ?_).seq (by decide) ?_).seq
    (by decide) ?_
  · exact Fields.reads_field hn rfl (Decoder.reads_text m.name)
  · exact Fields.reads_field hn rfl m.kind.reads_name
  · exact Fields.reads_field hn rfl (TypeHandle.reads_toJson h)
  · exact Fields.reads_flag hn rfl

end HostMember

namespace HostParameter

variable {p : HostParameter}

theorem isReadable_toJson (h : p.type.FitsWord) : IsReadable 1 p.toJson := by
  refine .object (List.forall_mem_append.mpr ⟨List.forall_mem_append.mpr
    ⟨List.forall_mem_append.mpr ⟨?_, ?_⟩, ?_⟩, ?_⟩)
  · exact Field.readable_always (.string p.name)
  · exact Field.readable_always (TypeHandle.isReadable_toJson h)
  · exact Field.readable_whenTrue
  · exact Field.readable_whenTrue

theorem reads_toJson (h : p.type.FitsWord) : HostParameter.fields.decode.Reads p.toJson p := by
  refine Fields.reads_record ?_ fun hn => ?_
  · exact (((Field.within_always.append Field.within_always).append
      Field.within_whenTrue).append Field.within_whenTrue).nodup (by decide)
  refine (((Fields.Reads.map ?_ HostParameter.mk).seq (by decide) ?_).seq (by decide) ?_).seq
    (by decide) ?_
  · exact Fields.reads_field hn rfl (Decoder.reads_text p.name)
  · exact Fields.reads_field hn rfl (TypeHandle.reads_toJson h)
  · exact Fields.reads_flag hn (by simp [List.lookup_append])
  · exact Fields.reads_flag hn (by simp [List.lookup_append])

end HostParameter

namespace HostSignature

variable {s : HostSignature}

theorem forall_mem_handles {P : TypeHandle → Prop} (s : HostSignature) :
    (∀ h ∈ s.handles, P h) ↔
      (∀ p ∈ s.parameters, P p.type) ∧ P s.returns ∧ ∀ h ∈ s.typeParameters, P h := by
  rw [handles, List.forall_mem_append, List.forall_mem_map, List.forall_mem_cons]

theorem isReadable_toJson (h : ∀ h ∈ s.handles, h.FitsWord) : IsReadable 3 s.toJson := by
  obtain ⟨hparameters, hreturns, htypes⟩ := s.forall_mem_handles.mp h
  refine .object (List.forall_mem_append.mpr ⟨List.forall_mem_append.mpr ⟨?_, ?_⟩, ?_⟩)
  · exact Field.readable_always (isReadable_ofList fun p hp =>
      HostParameter.isReadable_toJson (hparameters p hp))
  · exact Field.readable_always (TypeHandle.isReadable_toJson hreturns)
  · exact Field.readable_whenAny fun h hh => TypeHandle.isReadable_toJson (htypes h hh)

theorem reads_toJson (h : ∀ h ∈ s.handles, h.FitsWord) :
    HostSignature.fields.decode.Reads s.toJson s := by
  obtain ⟨hparameters, hreturns, htypes⟩ := s.forall_mem_handles.mp h
  refine Fields.reads_record ?_ fun hn => ?_
  · exact ((Field.within_always.append Field.within_always).append
      Field.within_whenAny).nodup (by decide)
  refine ((Fields.Reads.map ?_ HostSignature.mk).seq (by decide) ?_).seq (by decide) ?_
  · exact Fields.reads_field hn rfl (Decoder.reads_list fun p hp =>
      HostParameter.reads_toJson (hparameters p hp))
  · exact Fields.reads_field hn rfl (TypeHandle.reads_toJson hreturns)
  · exact Fields.reads_many hn rfl fun h hh => TypeHandle.reads_toJson (htypes h hh)

/-- The signatures of a function. -/
theorem reads_list {ss : List HostSignature}
    (h : ∀ s ∈ ss, ∀ h ∈ s.handles, h.FitsWord) :
    (Decoder.list HostSignature.fields.decode).Reads (.ofList HostSignature.toJson ss) ss :=
  Decoder.reads_list fun s hs => reads_toJson (h s hs)

end HostSignature

/-! ### Types -/

namespace ObjectShape

variable {shape : ObjectShape}

theorem forall_mem_handles {P : TypeHandle → Prop} (shape : ObjectShape) :
    (∀ h ∈ shape.handles, P h) ↔
      (∀ h ∈ shape.typeParameters, P h) ∧
      ((∀ m ∈ shape.members, P m.valueType) ∧ ∀ m ∈ shape.statics, P m.valueType) ∧
      ((∀ s ∈ shape.call, ∀ h ∈ s.handles, P h) ∧ (∀ s ∈ shape.construct, ∀ h ∈ s.handles, P h) ∧
        ∀ s ∈ shape.index, ∀ h ∈ s.handles, P h) ∧
      (∀ h ∈ shape.bases, P h) ∧ ∀ h ∈ shape.implemented, P h := by
  simp only [handles, List.forall_mem_append, List.forall_mem_map, List.forall_mem_flatMap,
    and_assoc]

/-- The names of the fields that shapes have. -/
def fieldNames : List String :=
  ["name", "typeParameters", "members", "statics", "call", "construct", "index", "extends",
    "implements", "arrayLike"]

theorem within_toFields (shape : ObjectShape) : Field.Within fieldNames shape.toFields :=
  ((((((((Field.within_whenSome.append Field.within_whenAny).append Field.within_whenAny).append
    Field.within_whenAny).append Field.within_whenAny).append Field.within_whenAny).append
    Field.within_whenAny).append Field.within_whenAny).append Field.within_whenAny).append
    Field.within_whenSome

theorem isReadable_toFields (h : ∀ h ∈ shape.handles, h.FitsWord) :
    ∀ f ∈ shape.toFields, IsReadable 4 f.2 := by
  obtain ⟨htypes, ⟨hmembers, hstatics⟩, ⟨hcall, hconstruct, hindex⟩, hbases, himplemented⟩ :=
    shape.forall_mem_handles.mp h
  have hhandles : ∀ {hs : List TypeHandle}, (∀ h ∈ hs, h.FitsWord) →
      ∀ h ∈ hs, IsReadable 3 h.toJson := fun hs h hh => TypeHandle.isReadable_toJson (hs h hh)
  have hmember : ∀ {ms : List HostMember}, (∀ m ∈ ms, m.valueType.FitsWord) →
      ∀ m ∈ ms, IsReadable 3 m.toJson :=
    fun hms m hm => (HostMember.isReadable_toJson (hms m hm)).mono (by decide)
  have hsignature : ∀ {ss : List HostSignature}, (∀ s ∈ ss, ∀ h ∈ s.handles, h.FitsWord) →
      ∀ s ∈ ss, IsReadable 3 s.toJson := fun hss s hs => HostSignature.isReadable_toJson (hss s hs)
  simp only [toFields, List.forall_mem_append]
  refine ⟨⟨⟨⟨⟨⟨⟨⟨⟨?_, ?_⟩, ?_⟩, ?_⟩, ?_⟩, ?_⟩, ?_⟩, ?_⟩, ?_⟩, ?_⟩
  · exact Field.readable_whenSome fun name _ => .string name
  · exact Field.readable_whenAny (hhandles htypes)
  · exact Field.readable_whenAny (hmember hmembers)
  · exact Field.readable_whenAny (hmember hstatics)
  · exact Field.readable_whenAny (hsignature hcall)
  · exact Field.readable_whenAny (hsignature hconstruct)
  · exact Field.readable_whenAny (hsignature hindex)
  · exact Field.readable_whenAny (hhandles hbases)
  · exact Field.readable_whenAny (hhandles himplemented)
  · exact Field.readable_whenSome fun b _ => .bool b

theorem reads_toFields (h : ∀ h ∈ shape.handles, h.FitsWord) :
    ObjectShape.fields.Reads shape.toFields shape := by
  have hn : (shape.toFields.map Prod.fst).Nodup := shape.within_toFields.nodup (by decide)
  obtain ⟨htypes, ⟨hmembers, hstatics⟩, ⟨hcall, hconstruct, hindex⟩, hbases, himplemented⟩ :=
    shape.forall_mem_handles.mp h
  have hhandles : ∀ {name : String} {hs : List TypeHandle}, (∀ h ∈ hs, h.FitsWord) →
      shape.toFields.lookup name = (Field.whenAny name TypeHandle.toJson hs).lookup name →
      (Fields.many name TypeHandle.decode).Reads shape.toFields hs :=
    fun hs hv => Fields.reads_many hn hv fun h hh => TypeHandle.reads_toJson (hs h hh)
  have hmember : ∀ {name : String} {ms : List HostMember}, (∀ m ∈ ms, m.valueType.FitsWord) →
      shape.toFields.lookup name = (Field.whenAny name HostMember.toJson ms).lookup name →
      (Fields.many name HostMember.fields.decode).Reads shape.toFields ms :=
    fun hms hv => Fields.reads_many hn hv fun m hm => HostMember.reads_toJson (hms m hm)
  have hsignature : ∀ {name : String} {ss : List HostSignature},
      (∀ s ∈ ss, ∀ h ∈ s.handles, h.FitsWord) →
      shape.toFields.lookup name = (Field.whenAny name HostSignature.toJson ss).lookup name →
      (Fields.many name HostSignature.fields.decode).Reads shape.toFields ss :=
    fun hss hv => Fields.reads_many hn hv fun s hs => HostSignature.reads_toJson (hss s hs)
  have hname : (Fields.maybe "name" Decoder.text).Reads shape.toFields shape.name := by
    refine Fields.reads_maybe (f := Json.string) hn ?_ fun s _ => ⟨Decoder.reads_text s, nofun⟩
    simp [toFields, List.lookup_append]
  have harrayLike : (Fields.maybe "arrayLike" Decoder.flag).Reads shape.toFields
      shape.arrayLike := by
    refine Fields.reads_maybe (f := Json.bool) hn ?_ fun b _ => ⟨Decoder.reads_flag b, nofun⟩
    simp [toFields, List.lookup_append]
  refine hname.map ObjectShape.mk
    |>.seq (by decide) (hhandles htypes ?_)
    |>.seq (by decide) (hmember hmembers ?_)
    |>.seq (by decide) (hmember hstatics ?_)
    |>.seq (by decide) (hsignature hcall ?_)
    |>.seq (by decide) (hsignature hconstruct ?_)
    |>.seq (by decide) (hsignature hindex ?_)
    |>.seq (by decide) (hhandles hbases ?_)
    |>.seq (by decide) (hhandles himplemented ?_)
    |>.seq (by decide) harrayLike
  all_goals simp [toFields, List.lookup_append]

end ObjectShape

theorem Literal.isReadable_toJson {n : Nat} {value : Literal}
    (h : ∀ x ∈ (TypeData.literal value).number?, x.ReadsBack) : IsReadable n value.toJson := by
  cases value with
  | string s => exact .string s
  | number x => exact .real (isNumeral_of_scanNumber (h x rfl))
  | boolean b => exact .bool b

theorem Literal.reads_toJson (value : Literal) : Literal.decode.Reads value.toJson value := by
  intro source
  cases value with
  | string s => rw [toJson, Draft.ofJson, decode]
  | number x => rw [toJson, Draft.ofJson, decode]
  | boolean b => rw [toJson, Draft.ofJson, decode]

namespace TypeData

variable {data : TypeData}

/-- The names of all fields that types have beside their tags. -/
def fieldNames : List String :=
  ObjectShape.fieldNames ++ ["intrinsic", "value", "target", "typeArguments", "types", "elements",
    "signatures", "instance", "constraint", "description"]

theorem within_toFields (data : TypeData) : Field.Within fieldNames data.toFields := by
  cases data with
  | object form shape => exact shape.within_toFields.trans (by decide)
  | intrinsic k => exact (by decide : List.Sublist ["intrinsic"] fieldNames)
  | literal value => exact (by decide : List.Sublist ["value"] fieldNames)
  | reference target typeArguments =>
    exact (by decide : List.Sublist ["target", "typeArguments"] fieldNames)
  | union types => exact (by decide : List.Sublist ["types"] fieldNames)
  | intersection types => exact (by decide : List.Sublist ["types"] fieldNames)
  | tuple elements => exact (by decide : List.Sublist ["elements"] fieldNames)
  | function name signatures => exact (by decide : List.Sublist ["name", "signatures"] fieldNames)
  | classExpression name instanceType =>
    exact (by decide : List.Sublist ["name", "instance"] fieldNames)
  | typeParameter name constraint =>
    exact (by decide : List.Sublist ["name", "constraint"] fieldNames)
  | unmodelled description => exact (by decide : List.Sublist ["description"] fieldNames)

theorem isReadable_toFields (h : data.IsWritable) : ∀ f ∈ data.toFields, IsReadable 4 f.2 := by
  have hname : ∀ {o : Option String}, IsReadable 4 (.ofOption .string o) :=
    isReadable_ofOption fun s _ => .string s
  obtain ⟨hhandles, hnumber⟩ := h
  cases data with
  | intrinsic k => exact List.forall_mem_singleton.mpr (.string k.name)
  | literal value => exact List.forall_mem_singleton.mpr (Literal.isReadable_toJson hnumber)
  | object form shape => exact shape.isReadable_toFields hhandles
  | reference target typeArguments =>
    obtain ⟨htarget, harguments⟩ := List.forall_mem_cons.mp hhandles
    exact List.forall_mem_cons.mpr ⟨TypeHandle.isReadable_toJson htarget,
      List.forall_mem_singleton.mpr (TypeHandle.isReadable_list harguments)⟩
  | union types => exact List.forall_mem_singleton.mpr (TypeHandle.isReadable_list hhandles)
  | intersection types =>
    exact List.forall_mem_singleton.mpr (TypeHandle.isReadable_list hhandles)
  | tuple elements => exact List.forall_mem_singleton.mpr (TypeHandle.isReadable_list hhandles)
  | function name signatures =>
    have hsignatures := List.forall_mem_flatMap.mp hhandles
    exact List.forall_mem_cons.mpr ⟨hname, List.forall_mem_singleton.mpr
      (isReadable_ofList fun s hs => HostSignature.isReadable_toJson (hsignatures s hs))⟩
  | classExpression name instanceType =>
    exact List.forall_mem_cons.mpr ⟨hname, List.forall_mem_singleton.mpr
      (TypeHandle.isReadable_toJson (hhandles _ List.mem_cons_self))⟩
  | typeParameter name constraint =>
    refine List.forall_mem_cons.mpr ⟨.string name, List.forall_mem_singleton.mpr ?_⟩
    exact isReadable_ofOption fun h hh =>
      TypeHandle.isReadable_toJson (hhandles h (Option.mem_toList.mpr hh))
  | unmodelled description => exact List.forall_mem_singleton.mpr (.string description)

theorem isReadable_toJson (h : data.IsWritable) : IsReadable 5 data.toJson :=
  .object (List.forall_mem_cons.mpr ⟨.string data.tag, isReadable_toFields h⟩)

theorem tag_mem_kinds (data : TypeData) : data.tag ∈ kinds := by
  cases data with
  | object form shape => cases form <;> simp [kinds, tag, ObjectForm.name]
  | _ => simp [kinds, tag]

/-- The tag of a type is read, and its other fields are held. -/
theorem readTag_toJson (data : TypeData) (source : Source) :
    readTag "kind" kinds source (.ofJson data.toJson)
      = .ok (data.tag, .named (Draft.ofFields data.toFields)) := by
  have hne : ∀ name ∈ fieldNames, name ≠ "kind" := by decide
  rw [toJson, Draft.ofJson]
  exact readTagNamed_cons data.tag_mem_kinds fun f hf => hne f.1 (data.within_toFields.mem hf)

theorem reads_toJson (h : data.IsWritable) : TypeData.decode.Reads data.toJson data := by
  intro source
  have hn : (data.toFields.map Prod.fst).Nodup := data.within_toFields.nodup (by decide)
  refine (bind_of_eq_ok (data.readTag_toJson source) _).trans ?_
  obtain ⟨hhandles, -⟩ := h
  cases data with
  | intrinsic k =>
    have hd : (intrinsic <$> Fields.required "intrinsic" Intrinsic.decode).Reads _ _ :=
      (Fields.reads_field hn rfl k.reads_name).map intrinsic
    exact hd.readNamed hn .held
  | literal value =>
    have hd : (literal <$> Fields.required "value" Literal.decode).Reads _ _ :=
      (Fields.reads_field hn rfl value.reads_toJson).map literal
    exact hd.readNamed hn .held
  | object form shape =>
    have hd : (object form <$> ObjectShape.fields).Reads _ _ :=
      (shape.reads_toFields hhandles).map (object form)
    cases form
    all_goals exact hd.readNamed hn .held
  | reference target typeArguments =>
    obtain ⟨htarget, harguments⟩ := List.forall_mem_cons.mp hhandles
    have hd : (reference <$> Fields.required "target" TypeHandle.decode
        <*> Fields.many "typeArguments" TypeHandle.decode).Reads _ _ :=
      ((Fields.reads_field hn rfl (TypeHandle.reads_toJson htarget)).map reference).seq (by decide)
        (Fields.reads_field hn rfl (TypeHandle.reads_list harguments))
    exact hd.readNamed hn .held
  | union types =>
    have hd : (union <$> Fields.required "types" (.list TypeHandle.decode)).Reads _ _ :=
      (Fields.reads_field hn rfl (TypeHandle.reads_list hhandles)).map union
    exact hd.readNamed hn .held
  | intersection types =>
    have hd : (intersection <$> Fields.required "types" (.list TypeHandle.decode)).Reads _ _ :=
      (Fields.reads_field hn rfl (TypeHandle.reads_list hhandles)).map intersection
    exact hd.readNamed hn .held
  | tuple elements =>
    have hd : (tuple <$> Fields.required "elements" (.list TypeHandle.decode)).Reads _ _ :=
      (Fields.reads_field hn rfl (TypeHandle.reads_list hhandles)).map tuple
    exact hd.readNamed hn .held
  | function name signatures =>
    have hsignatures := HostSignature.reads_list (List.forall_mem_flatMap.mp hhandles)
    have hd : (function <$> Fields.maybe "name" Decoder.text
        <*> Fields.many "signatures" HostSignature.fields.decode).Reads _ _ :=
      ((reads_optionalName hn rfl).map function).seq (by decide)
        (Fields.reads_field hn rfl hsignatures)
    exact hd.readNamed hn .held
  | classExpression name instanceType =>
    have hinstance := TypeHandle.reads_toJson (hhandles _ List.mem_cons_self)
    have hd : (classExpression <$> Fields.maybe "name" Decoder.text
        <*> Fields.required "instance" TypeHandle.decode).Reads _ _ :=
      ((reads_optionalName hn rfl).map classExpression).seq (by decide)
        (Fields.reads_field hn rfl hinstance)
    exact hd.readNamed hn .held
  | typeParameter name constraint =>
    have hconstraint : ∀ h ∈ constraint, TypeHandle.decode.Reads h.toJson h ∧ h.toJson ≠ .null :=
      fun h hh => ⟨TypeHandle.reads_toJson (hhandles h (Option.mem_toList.mpr hh)), nofun⟩
    have hd : (typeParameter <$> Fields.required "name" Decoder.text
        <*> Fields.maybe "constraint" TypeHandle.decode).Reads _ _ :=
      ((Fields.reads_field hn rfl (Decoder.reads_text name)).map typeParameter).seq (by decide)
        (Fields.reads_nullable hn rfl hconstraint)
    exact hd.readNamed hn .held
  | unmodelled description =>
    have hd : (unmodelled <$> Fields.required "description" Decoder.text).Reads _ _ :=
      (Fields.reads_field hn rfl (Decoder.reads_text description)).map unmodelled
    exact hd.readNamed hn .held

end TypeData

end TypeCatalog
