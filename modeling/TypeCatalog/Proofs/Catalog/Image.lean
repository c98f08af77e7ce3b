/-
What an image depends on.

`NodeKind.renumber` puts another slot in the place of every slot that a record
refers to, and leaves all else as it is.  The image of a type reads the registry
at its child types alone: where the edges to these go to one another, between
two registries or two hosts that say the same of the type, so do the images
(`TypeHost.image_renumber`).

With the same slots on both sides this says when an image stays what it is
(`image_congr`): once all child types have slots, while the registry grows
(`image_of_growsTo`).  Its edges lead to slots that the registry has given out
(`isBelow_of_mem_edges_image`).
-/
import Mathlib.Data.List.Basic
import TypeCatalog.Proofs.Catalog.Survey

namespace TypeCatalog

namespace Position

@[simp] theorem types_labelled (label : String) (types : List TypeHandle) :
    (labelled label types).map Position.type = types := by
  rw [labelled, List.map_map]
  exact List.map_id types

@[simp] theorem types_ofMembers (members : List HostMember) :
    (ofMembers members).map Position.type
      = (members.filter (·.kind.isReflected)).map HostMember.valueType := by
  rw [ofMembers, List.map_map]
  rfl

@[simp] theorem types_ofSignature (label : String) (s : HostSignature) :
    (ofSignature label s).map Position.type = s.handles := by
  rw [ofSignature, List.map_append, List.map_map, List.map_cons, types_labelled]
  rfl

@[simp] theorem types_ofSignatures (label : String) (ss : List HostSignature) :
    (ofSignatures label ss).map Position.type = ss.flatMap HostSignature.handles := by
  simp [ofSignatures, List.map_flatMap]

end Position

/-! ### Other slots in records -/

section

variable (f : SlotId → SlotId)

/-- An edge to the slot that takes the place of the old one. -/
def TypeRef.renumber : TypeRef → TypeRef
  | intrinsic k => intrinsic k
  | slot s => slot (f s)

/-- A member with other slots. -/
def Member.renumber (m : Member) : Member := { m with type := m.type.renumber f }

/-- A parameter with other slots. -/
def Parameter.renumber (p : Parameter) : Parameter := { p with type := p.type.renumber f }

/-- A signature with other slots. -/
def Signature.renumber (s : Signature) : Signature :=
  { s with
    parameters := s.parameters.map (Parameter.renumber f)
    returns := s.returns.renumber f
    typeParameters := s.typeParameters.map (TypeRef.renumber f) }

/-- A body with other slots. -/
def ObjectBody.renumber (b : ObjectBody) : ObjectBody where
  typeParameters := b.typeParameters.map (TypeRef.renumber f)
  members := b.members.map (Member.renumber f)
  construct := b.construct.map (Signature.renumber f)
  call := b.call.map (Signature.renumber f)
  index := b.index.map (Signature.renumber f)

/-- A record with other slots for those it refers to. -/
def NodeKind.renumber : NodeKind → NodeKind
  | classNode body statics base implemented =>
    classNode (body.renumber f) (statics.map (Member.renumber f)) (base.map (TypeRef.renumber f))
      (implemented.map (TypeRef.renumber f))
  | interfaceNode body bases =>
    interfaceNode (body.renumber f) (bases.map (TypeRef.renumber f))
  | array elementType => array (elementType.renumber f)
  | reference target typeArguments =>
    reference (target.renumber f) (typeArguments.map (TypeRef.renumber f))
  | union types => union (types.map (TypeRef.renumber f))
  | intersection types => intersection (types.map (TypeRef.renumber f))
  | tuple elements => tuple (elements.map (TypeRef.renumber f))
  | function signatures => function (signatures.map (Signature.renumber f))
  | typeLiteral body => typeLiteral (body.renumber f)
  | typeParameter constraint => typeParameter (constraint.map (TypeRef.renumber f))
  | expression target => expression (target.renumber f)

end

@[simp] theorem TypeRef.renumber_id : TypeRef.renumber id = id := by
  funext r
  cases r <;> rfl

@[simp] theorem Member.renumber_id : Member.renumber id = id := by
  funext m
  simp [renumber]

@[simp] theorem Signature.renumber_id : Signature.renumber id = id := by
  have hparameter : Parameter.renumber id = id := by
    funext p
    simp [Parameter.renumber]
  funext s
  simp [renumber, hparameter]

@[simp] theorem ObjectBody.renumber_id : ObjectBody.renumber id = id := by
  funext b
  simp [renumber]

/-- A record in which no slot is exchanged stays as it is. -/
theorem NodeKind.renumber_id (k : NodeKind) : k.renumber id = k := by
  cases k <;> simp [renumber]

/-! ### Child types -/

namespace TypeHost

variable {host : TypeHost} {r r' : Registry} {h : TypeHandle} {shape : Shape}

/-- The child types of a shape, in the order in which they are looked at. -/
def childTypes (host : TypeHost) (h : TypeHandle) (shape : Shape) : List TypeHandle :=
  (host.positions h shape).map Position.type

/-- The types that members of the kinds which belong to an object have. -/
def memberTypes (members : List HostMember) : List TypeHandle :=
  (members.filter (·.kind.isReflected)).map HostMember.valueType

/-- The types that occur in signatures. -/
def signatureTypes (host : TypeHost) (h : TypeHandle) (kind : SignatureKind) : List TypeHandle :=
  (host.signatures h kind).flatMap HostSignature.handles

/-- The child types of the shapes that have a body. -/
def bodyTypes (host : TypeHost) (h : TypeHandle) : List TypeHandle :=
  (host.bodyPositions h).map Position.type

theorem bodyTypes_eq : host.bodyTypes h = host.typeParameters h ++ memberTypes (host.members h)
    ++ host.signatureTypes h .construct ++ host.signatureTypes h .call
    ++ host.signatureTypes h .index := by
  simp only [bodyTypes, bodyPositions, List.map_append, Position.types_labelled,
    Position.types_ofMembers, Position.types_ofSignatures]
  rfl

@[simp] theorem childTypes_classShape : host.childTypes h .classShape =
    host.bodyTypes h ++ memberTypes (host.statics h) ++ (host.base? h).toList
      ++ host.heritage h .implementing := by
  simp only [childTypes, positions, List.map_append, Position.types_labelled,
    Position.types_ofMembers]
  rfl

@[simp] theorem childTypes_interfaceShape : host.childTypes h .interfaceShape =
    host.bodyTypes h ++ host.heritage h .extending := by
  rw [childTypes, positions, List.map_append, Position.types_labelled, bodyTypes]

@[simp] theorem childTypes_typeLiteral : host.childTypes h .typeLiteral = host.bodyTypes h :=
  rfl

@[simp] theorem childTypes_function :
    host.childTypes h .function = host.signatureTypes h .call :=
  Position.types_ofSignatures "signatures" (host.signatures h .call)

@[simp] theorem childTypes_array (element : TypeHandle) :
    host.childTypes h (.array element) = [element] :=
  rfl

@[simp] theorem childTypes_reference (target : TypeHandle) (typeArguments : List TypeHandle) :
    host.childTypes h (.reference target typeArguments) = target :: typeArguments := by
  rw [childTypes, positions, List.map_cons, Position.types_labelled]

@[simp] theorem childTypes_union (types : List TypeHandle) :
    host.childTypes h (.union types) = types :=
  Position.types_labelled "types" types

@[simp] theorem childTypes_intersection (types : List TypeHandle) :
    host.childTypes h (.intersection types) = types :=
  Position.types_labelled "types" types

@[simp] theorem childTypes_tuple (elements : List TypeHandle) :
    host.childTypes h (.tuple elements) = elements :=
  Position.types_labelled "elements" elements

@[simp] theorem childTypes_typeParameter (constraint : Option TypeHandle) :
    host.childTypes h (.typeParameter constraint) = constraint.toList :=
  Position.types_labelled "constraint" constraint.toList

@[simp] theorem childTypes_expression (instanceType : TypeHandle) :
    host.childTypes h (.expression instanceType) = [instanceType] :=
  rfl

/-! ### Registries that tell the same edges for the child types -/

/-- The hosts say the same of what a type is made of. -/
structure SaysSame (host host' : TypeHost) (h : TypeHandle) : Prop where
  members : host'.members h = host.members h
  statics : host'.statics h = host.statics h
  signatures : host'.signatures h = host.signatures h
  heritage : host'.heritage h = host.heritage h
  typeParameters : host'.typeParameters h = host.typeParameters h

/-- The edge to a type goes to the edge that another host has to it under another registry. -/
def CarriesEdge (host host' : TypeHost) (r r' : Registry) (f : SlotId → SlotId)
    (t : TypeHandle) : Prop :=
  host'.edge? r' t = (host.edge? r t).map (TypeRef.renumber f)

section

variable {host' : TypeHost} {f : SlotId → SlotId}

theorem edgeList_renumber {types : List TypeHandle}
    (hc : ∀ t ∈ types, host.CarriesEdge host' r r' f t) :
    host'.edgeList r' types = (host.edgeList r types).map (TypeRef.renumber f) := by
  rw [edgeList, edgeList, List.map_filterMap]
  exact List.filterMap_congr hc

theorem requiredEdge_renumber {t : TypeHandle} (hc : host.CarriesEdge host' r r' f t) :
    host'.requiredEdge r' t = (host.requiredEdge r t).renumber f := by
  rw [requiredEdge, requiredEdge, hc]
  cases host.edge? r t <;> rfl

theorem bind_edge?_renumber {type : Option TypeHandle}
    (hc : ∀ t ∈ type.toList, host.CarriesEdge host' r r' f t) :
    type.bind (host'.edge? r') = (type.bind (host.edge? r)).map (TypeRef.renumber f) := by
  cases type with
  | none => rfl
  | some t => exact hc t (List.mem_singleton.mpr rfl)

theorem memberImages_renumber {members : List HostMember}
    (hc : ∀ t ∈ memberTypes members, host.CarriesEdge host' r r' f t) :
    host'.memberImages r' members = (host.memberImages r members).map (Member.renumber f) := by
  rw [memberImages, memberImages, List.map_filterMap]
  refine List.filterMap_congr fun m hm => ?_
  rw [hc m.valueType (List.mem_map_of_mem hm)]
  cases host.edge? r m.valueType <;> rfl

theorem signatureImage_renumber {s : HostSignature}
    (hc : ∀ t ∈ s.handles, host.CarriesEdge host' r r' f t) :
    host'.signatureImage r' s = (host.signatureImage r s).renumber f := by
  simp only [HostSignature.handles, List.mem_append, List.mem_cons] at hc
  have hparameters : ∀ p ∈ s.parameters, (⟨p.name, host'.requiredEdge r' p.type⟩ : Parameter)
      = Parameter.renumber f ⟨p.name, host.requiredEdge r p.type⟩ := by
    intro p hp
    rw [requiredEdge_renumber (hc p.type (.inl (List.mem_map_of_mem hp)))]
    rfl
  have htypes : host'.edgeList r' s.typeParameters
      = (host.edgeList r s.typeParameters).map (TypeRef.renumber f) :=
    edgeList_renumber fun t ht => hc t (.inr (.inr ht))
  rw [signatureImage, signatureImage, Signature.renumber, List.map_map,
    List.map_congr_left hparameters, htypes,
    requiredEdge_renumber (hc s.returns (.inr (.inl rfl)))]
  rfl

theorem signatureImages_renumber (hs : host.SaysSame host' h) {kind : SignatureKind}
    (hc : ∀ t ∈ host.signatureTypes h kind, host.CarriesEdge host' r r' f t) :
    host'.signatureImages r' h kind
      = (host.signatureImages r h kind).map (Signature.renumber f) := by
  rw [signatureImages, signatureImages, hs.signatures, List.map_map]
  refine List.map_congr_left fun s hmem => signatureImage_renumber fun t ht => ?_
  exact hc t (List.mem_flatMap_of_mem hmem ht)

theorem bodyImage_renumber (hs : host.SaysSame host' h)
    (hc : ∀ t ∈ host.bodyTypes h, host.CarriesEdge host' r r' f t) :
    host'.bodyImage r' h = (host.bodyImage r h).renumber f := by
  simp only [bodyTypes_eq, List.mem_append] at hc
  have htypes := edgeList_renumber fun t ht => hc t (.inl (.inl (.inl (.inl ht))))
  have hmembers := memberImages_renumber fun t ht => hc t (.inl (.inl (.inl (.inr ht))))
  have hconstruct := signatureImages_renumber hs fun t ht => hc t (.inl (.inl (.inr ht)))
  have hcall := signatureImages_renumber hs fun t ht => hc t (.inl (.inr ht))
  have hindex := signatureImages_renumber hs fun t ht => hc t (.inr ht)
  rw [bodyImage, bodyImage, hs.typeParameters, hs.members, htypes, hmembers, hconstruct, hcall,
    hindex]
  rfl

/-- Where the edges to the child types go to one another, so do the records. -/
theorem image_renumber (hs : host.SaysSame host' h)
    (hc : ∀ t ∈ host.childTypes h shape, host.CarriesEdge host' r r' f t) :
    host'.image r' h shape = (host.image r h shape).renumber f := by
  cases shape with
  | classShape =>
    simp only [childTypes_classShape, List.mem_append] at hc
    have hbase? : host'.base? h = host.base? h := by rw [base?, base?, hs.heritage]
    have hbody := bodyImage_renumber hs fun t ht => hc t (.inl (.inl (.inl ht)))
    have hstatics := memberImages_renumber fun t ht => hc t (.inl (.inl (.inr ht)))
    have hbase := bind_edge?_renumber fun t ht => hc t (.inl (.inr ht))
    have himplemented := edgeList_renumber fun t ht => hc t (.inr ht)
    rw [image, image, hbase?, hs.statics, hs.heritage, hbody, hstatics, hbase, himplemented]
    rfl
  | interfaceShape =>
    simp only [childTypes_interfaceShape, List.mem_append] at hc
    have hbody := bodyImage_renumber hs fun t ht => hc t (.inl ht)
    have hbases := edgeList_renumber fun t ht => hc t (.inr ht)
    rw [image, image, hs.heritage, hbody, hbases]
    rfl
  | typeLiteral =>
    rw [image, image, bodyImage_renumber hs hc]
    rfl
  | function =>
    rw [childTypes_function] at hc
    rw [image, image, signatureImages_renumber hs hc]
    rfl
  | array element =>
    rw [image, image, requiredEdge_renumber (hc element (by simp))]
    rfl
  | reference target typeArguments =>
    simp only [childTypes_reference, List.mem_cons] at hc
    have harguments := edgeList_renumber fun t ht => hc t (.inr ht)
    rw [image, image, requiredEdge_renumber (hc target (.inl rfl)), harguments]
    rfl
  | union types =>
    rw [childTypes_union] at hc
    rw [image, image, edgeList_renumber hc]
    rfl
  | intersection types =>
    rw [childTypes_intersection] at hc
    rw [image, image, edgeList_renumber hc]
    rfl
  | tuple elements =>
    rw [childTypes_tuple] at hc
    rw [image, image, edgeList_renumber hc]
    rfl
  | typeParameter constraint =>
    rw [childTypes_typeParameter] at hc
    rw [image, image, bind_edge?_renumber hc]
    rfl
  | expression instanceType =>
    rw [image, image, requiredEdge_renumber (hc instanceType (by simp))]
    rfl

end

/-- An image reads the registry at the child types alone. -/
theorem image_congr (hc : ∀ t ∈ host.childTypes h shape, host.edge? r' t = host.edge? r t) :
    host.image r' h shape = host.image r h shape := by
  have hsame : host.SaysSame host h := ⟨rfl, rfl, rfl, rfl, rfl⟩
  have hcarries : ∀ t ∈ host.childTypes h shape, host.CarriesEdge host r r' id t := by
    intro t ht
    rw [CarriesEdge, hc t ht, TypeRef.renumber_id, Option.map_id, id]
  rw [image_renumber hsame hcarries, NodeKind.renumber_id]

/-! ### Growth -/

theorem edge?_of_growsTo {t : TypeHandle} (hl : host.IsLinked r t) (hg : r.GrowsTo r') :
    host.edge? r' t = host.edge? r t := by
  cases hc : host.classify t with
  | intrinsic k => rw [edge?, edge?, hc]
  | unsupported reason => rw [edge?, edge?, hc]
  | shape h name shape =>
    obtain ⟨s, hs⟩ := hl h name shape hc
    have hs' := Registry.lookup_of_growsTo hg hs
    simp only [edge?, hc, hs, hs']

/-- Once all child types have slots, an image stays as it is. -/
theorem image_of_growsTo (hl : ∀ t ∈ host.childTypes h shape, host.IsLinked r t)
    (hg : r.GrowsTo r') : host.image r' h shape = host.image r h shape :=
  image_congr fun t ht => edge?_of_growsTo (hl t ht) hg

end TypeHost

/-! ### Where edges lead -/

/-- An edge to a primitive type, or to one of the first slots. -/
def TypeRef.IsBelow (size : Nat) (edge : TypeRef) : Prop :=
  ∀ s, edge.slot? = some s → s.index < size

namespace TypeHost

variable {host : TypeHost} {r : Registry} {h : TypeHandle}

theorem isBelow_of_edge? {t : TypeHandle} {edge : TypeRef} (he : host.edge? r t = some edge) :
    edge.IsBelow r.size := by
  unfold edge? at he
  split at he
  · cases he
    intro s hs
    cases hs
  · obtain ⟨slot, hslot, rfl⟩ := Option.map_eq_some_iff.mp he
    intro s hs
    cases hs
    exact Registry.lt_size_of_lookup hslot
  · cases he

theorem requiredEdge_isBelow (t : TypeHandle) : (host.requiredEdge r t).IsBelow r.size := by
  rw [requiredEdge]
  cases he : host.edge? r t with
  | some edge => exact isBelow_of_edge? he
  | none =>
    intro s hs
    cases hs

theorem edgeList_isBelow (types : List TypeHandle) :
    ∀ edge ∈ host.edgeList r types, edge.IsBelow r.size := by
  intro edge hedge
  obtain ⟨t, -, ht⟩ := List.mem_filterMap.mp hedge
  exact isBelow_of_edge? ht

theorem bind_edge?_isBelow (type : Option TypeHandle) :
    ∀ edge ∈ (type.bind (host.edge? r)).toList, edge.IsBelow r.size := by
  intro edge hedge
  obtain ⟨t, -, ht⟩ := Option.bind_eq_some_iff.mp (Option.mem_toList.mp hedge)
  exact isBelow_of_edge? ht

theorem memberImages_isBelow (members : List HostMember) :
    ∀ edge ∈ (host.memberImages r members).map Member.type, edge.IsBelow r.size := by
  intro edge hedge
  obtain ⟨m, hm, rfl⟩ := List.mem_map.mp hedge
  obtain ⟨hm', -, hmap⟩ := List.mem_filterMap.mp hm
  obtain ⟨edge, he, rfl⟩ := Option.map_eq_some_iff.mp hmap
  exact isBelow_of_edge? he

theorem signatureImages_isBelow (kind : SignatureKind) :
    ∀ edge ∈ (host.signatureImages r h kind).flatMap Signature.edges, edge.IsBelow r.size := by
  intro edge hedge
  obtain ⟨s, hs, hedge⟩ := List.mem_flatMap.mp hedge
  obtain ⟨hs', -, rfl⟩ := List.mem_map.mp hs
  simp only [Signature.edges, signatureImage, List.mem_append, List.mem_map, List.mem_cons] at hedge
  rcases hedge with ⟨p, ⟨p', -, rfl⟩, rfl⟩ | rfl | hedge
  · exact requiredEdge_isBelow p'.type
  · exact requiredEdge_isBelow hs'.returns
  · exact edgeList_isBelow _ edge hedge

theorem bodyImage_isBelow : ∀ edge ∈ (host.bodyImage r h).edges, edge.IsBelow r.size := by
  intro edge hedge
  simp only [ObjectBody.edges, bodyImage, List.flatMap_append, List.mem_append] at hedge
  rcases hedge with (hedge | hedge) | (hedge | hedge) | hedge
  · exact edgeList_isBelow _ edge hedge
  · exact memberImages_isBelow _ edge hedge
  · exact signatureImages_isBelow _ edge hedge
  · exact signatureImages_isBelow _ edge hedge
  · exact signatureImages_isBelow _ edge hedge

/-- The edges of an image lead to slots that have been given out. -/
theorem isBelow_of_mem_edges_image (shape : Shape) :
    ∀ edge ∈ (host.image r h shape).edges, edge.IsBelow r.size := by
  intro edge hedge
  cases shape with
  | classShape =>
    simp only [image, NodeKind.edges, List.mem_append] at hedge
    rcases hedge with ((hedge | hedge) | hedge) | hedge
    · exact bodyImage_isBelow edge hedge
    · exact memberImages_isBelow _ edge hedge
    · exact bind_edge?_isBelow _ edge hedge
    · exact edgeList_isBelow _ edge hedge
  | interfaceShape =>
    rcases List.mem_append.mp hedge with hedge | hedge
    · exact bodyImage_isBelow edge hedge
    · exact edgeList_isBelow _ edge hedge
  | typeLiteral => exact bodyImage_isBelow edge hedge
  | function => exact signatureImages_isBelow _ edge hedge
  | array element =>
    rw [image, NodeKind.edges, List.mem_singleton] at hedge
    exact hedge ▸ requiredEdge_isBelow element
  | reference target typeArguments =>
    rcases List.mem_cons.mp hedge with rfl | hedge
    · exact requiredEdge_isBelow target
    · exact edgeList_isBelow _ edge hedge
  | union types => exact edgeList_isBelow _ edge hedge
  | intersection types => exact edgeList_isBelow _ edge hedge
  | tuple elements => exact edgeList_isBelow _ edge hedge
  | typeParameter constraint => exact bind_edge?_isBelow _ edge hedge
  | expression instanceType =>
    rw [image, NodeKind.edges, List.mem_singleton] at hedge
    exact hedge ▸ requiredEdge_isBelow instanceType

end TypeHost

end TypeCatalog
