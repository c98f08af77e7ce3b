/-
Cataloguing under guard.

A `GuardedHost` answers the questions of the catalogue or refuses to.  The pass under
guard (`GuardedHost.run`) is the pass step by step, but that it asks a guarded host and
fails with the first refusal; it never goes on with a substitute for an answer.

A guarded host covers a host on some types (`GuardedHost.Covers`) when on these types
it refuses nothing and gives the answers of the host, and when whatever the host answers
about them leads to such types again.  A pass whose declarations lead to covered types
asks about covered types alone, for all that have slots are covered
(`Pass.HandedOn`); so under guard it does what it does without
(`GuardedHost.Covers.run_eq`).
-/
import TypeCatalog.Proofs.Canonical.Guarded
import TypeCatalog.Proofs.Catalog.Reachable

namespace TypeCatalog

/-- Answers about checked types, each of which may be refused. -/
structure GuardedHost where
  resolve : DeclId → Except Refusal TypeHandle
  kind : TypeHandle → Except Refusal TypeKind
  members : TypeHandle → Except Refusal (List HostMember)
  statics : TypeHandle → Except Refusal (List HostMember)
  signatures : TypeHandle → SignatureKind → Except Refusal (List HostSignature)
  heritage : TypeHandle → HeritageKind → Except Refusal (List TypeHandle)
  typeParameters : TypeHandle → Except Refusal (List TypeHandle)
  canonical : TypeHandle → Except Refusal TypeHandle
  isArrayLike : TypeHandle → Except Refusal Bool
  displayName : TypeHandle → Except Refusal String

/-- The edge to a type that is catalogued like this. -/
def Classified.edge? (r : Registry) : Classified → Option TypeRef
  | .intrinsic k => some (.intrinsic k)
  | .shape h _ _ => (r.lookup h).map TypeRef.slot
  | .unsupported _ => none

/-- What a child type that is catalogued like this does to a survey. -/
def Survey.noteAs (subject : String) (s : Survey) (position : Position) : Classified → Survey
  | .intrinsic _ => s
  | .shape h name shape =>
    let (allocation, registry) := s.registry.identify h name shape
    { s with
      registry := registry
      found := if allocation.isFresh then s.found ++ [(h, allocation.slot)] else s.found }
  | .unsupported reason =>
    { s with reports := s.reports ++ [reason.report (subject ++ "." ++ position.label)] }

/-- The types that the kind of a type tells of. -/
def TypeKind.parts : TypeKind → List TypeHandle
  | reference target typeArguments => target :: typeArguments
  | union types => types
  | intersection types => types
  | tuple elements => elements
  | classExpression _ instanceType => [instanceType]
  | typeParameter _ constraint => constraint.toList
  | _ => []

namespace GuardedHost

variable (guarded : GuardedHost) (r : Registry)

/-! ### What hosts may leave to others -/

/-- The name of a type, asked for along at most as many targets as the bound allows. -/
def nameWithin (kind : TypeHandle → Except Refusal TypeKind) :
    Nat → TypeHandle → Except Refusal (Option String)
  | 0, _ => .ok none
  | bound + 1, h => do
    match (← kind h).ownName h with
    | .inl name => return some name
    | .inr target => nameWithin kind bound target

/-- Whether a type is a class or an interface with the name of arrays and one parameter. -/
def isStandardArray (kind : TypeHandle → Except Refusal TypeKind)
    (typeParameters : TypeHandle → Except Refusal (List TypeHandle)) (h : TypeHandle) :
    Except Refusal Bool := do
  match ← kind h with
  | .interfaceType (some name) =>
    return name ∈ TypeHost.arrayNames && (← typeParameters h).length == 1
  | .classType (some name) =>
    return name ∈ TypeHost.arrayNames && (← typeParameters h).length == 1
  | _ => return false

/-- The same guarded host with the default answers in place of its own. -/
def plain (bound : Nat) : GuardedHost :=
  { guarded with
    statics := fun _ => .ok []
    canonical := .ok
    isArrayLike := isStandardArray guarded.kind guarded.typeParameters
    displayName := fun h => return (← nameWithin guarded.kind bound h).getD "" }

/-! ### Records -/

/-- What a type is catalogued as, by its representative. -/
def classify (type : TypeHandle) : Except Refusal Classified := do
  let h ← guarded.canonical type
  match ← guarded.kind h with
  | .reference target [element] =>
    -- only here is it asked whether references to the target are arrays
    let isArrayLike ← guarded.isArrayLike target
    return classifyKind (fun _ => isArrayLike) h (.reference target [element])
  | kind => return classifyKind (fun _ => false) h kind

/-- The edge to a child type, if it can be catalogued. -/
def edge (type : TypeHandle) : Except Refusal (Option TypeRef) :=
  return (← guarded.classify type).edge? r

/-- The edge to a child type in a place that must not be empty. -/
def requiredEdge (type : TypeHandle) : Except Refusal TypeRef :=
  return (← guarded.edge r type).getD .any

/-- The edge to a child type in a place that may be empty. -/
def optionalEdge : Option TypeHandle → Except Refusal (Option TypeRef)
  | none => return none
  | some type => guarded.edge r type

/-- The edges to those types of a list that can be catalogued. -/
def edgeList (types : List TypeHandle) : Except Refusal (List TypeRef) :=
  types.filterMapM (guarded.edge r)

/-- The image of a member, if its type can be catalogued. -/
def memberImage (m : HostMember) : Except Refusal (Option Member) :=
  return (← guarded.edge r m.valueType).map fun type => ⟨m.name, type, m.isOptional⟩

/-- The members of an object's shape whose types can be catalogued. -/
def memberImages (members : List HostMember) : Except Refusal (List Member) :=
  (members.filter (·.kind.isReflected)).filterMapM (guarded.memberImage r)

/-- The image of a parameter. -/
def parameterImage (p : HostParameter) : Except Refusal Parameter :=
  return ⟨p.name, ← guarded.requiredEdge r p.type⟩

/-- A signature; all of its parameters are kept. -/
def signatureImage (s : HostSignature) : Except Refusal Signature :=
  return {
    length := s.parameters.length - (if s.hasRest then 1 else 0)
    parameters := ← s.parameters.mapM (guarded.parameterImage r)
    hasRest := s.hasRest
    returns := ← guarded.requiredEdge r s.returns
    typeParameters := ← guarded.edgeList r s.typeParameters }

/-- The signatures of a kind. -/
def signatureImages (h : TypeHandle) (kind : SignatureKind) : Except Refusal (List Signature) := do
  (← guarded.signatures h kind).mapM (guarded.signatureImage r)

/-- What all object types have. -/
def bodyImage (h : TypeHandle) : Except Refusal ObjectBody :=
  return {
    typeParameters := ← guarded.edgeList r (← guarded.typeParameters h)
    members := ← guarded.memberImages r (← guarded.members h)
    construct := ← guarded.signatureImages r h .construct
    call := ← guarded.signatureImages r h .call
    index := ← guarded.signatureImages r h .index }

/-- The record of a type with the given shape, but for its slot and its name. -/
def image (h : TypeHandle) : Shape → Except Refusal NodeKind
  | .classShape =>
    return .classNode (← guarded.bodyImage r h)
      (← guarded.memberImages r (← guarded.statics h))
      (← guarded.optionalEdge r (← guarded.heritage h .extending).head?)
      (← guarded.edgeList r (← guarded.heritage h .implementing))
  | .interfaceShape =>
    return .interfaceNode (← guarded.bodyImage r h)
      (← guarded.edgeList r (← guarded.heritage h .extending))
  | .typeLiteral => return .typeLiteral (← guarded.bodyImage r h)
  | .function => return .function (← guarded.signatureImages r h .call)
  | .array element => return .array (← guarded.requiredEdge r element)
  | .reference target typeArguments =>
    return .reference (← guarded.requiredEdge r target) (← guarded.edgeList r typeArguments)
  | .union types => return .union (← guarded.edgeList r types)
  | .intersection types => return .intersection (← guarded.edgeList r types)
  | .tuple elements => return .tuple (← guarded.edgeList r elements)
  | .typeParameter constraint => return .typeParameter (← guarded.optionalEdge r constraint)
  | .expression instanceType => return .expression (← guarded.requiredEdge r instanceType)

/-! ### Child types -/

open Position

/-- The child types that all object types have. -/
def bodyPositions (h : TypeHandle) : Except Refusal (List Position) :=
  return labelled "typeParameters" (← guarded.typeParameters h)
    ++ ofMembers (← guarded.members h)
    ++ ofSignatures "construct" (← guarded.signatures h .construct)
    ++ ofSignatures "call" (← guarded.signatures h .call)
    ++ ofSignatures "index" (← guarded.signatures h .index)

/-- The child types of a shape. -/
def positions (h : TypeHandle) : Shape → Except Refusal (List Position)
  | .classShape =>
    return (← guarded.bodyPositions h) ++ ofMembers (← guarded.statics h)
      ++ labelled "extends" (← guarded.heritage h .extending).head?.toList
      ++ labelled "implements" (← guarded.heritage h .implementing)
  | .interfaceShape =>
    return (← guarded.bodyPositions h) ++ labelled "extends" (← guarded.heritage h .extending)
  | .typeLiteral => guarded.bodyPositions h
  | .function => return ofSignatures "signatures" (← guarded.signatures h .call)
  | .array element => return [⟨element, "elementType"⟩]
  | .reference target typeArguments =>
    return ⟨target, "type"⟩ :: labelled "typeArguments" typeArguments
  | .union types => return labelled "types" types
  | .intersection types => return labelled "types" types
  | .tuple elements => return labelled "elements" elements
  | .typeParameter constraint => return labelled "constraint" constraint.toList
  | .expression instanceType => return [⟨instanceType, "type"⟩]

/-- Looks at all child types in order. -/
def survey (subject : String) (positions : List Position) : Except Refusal Survey :=
  positions.foldlM
    (fun s position => return s.noteAs subject position (← guarded.classify position.type))
    ⟨r, [], []⟩

/-! ### Passes -/

/-- The name under which a type is reported. -/
def subject (e : Entry) : Except Refusal String :=
  match e.name with
  | some name => .ok name
  | none => guarded.displayName e.handle

/-- Makes the record of a slot, if it has none; its new child types join the queue. -/
def settle (p : Pass) (slot : SlotId) : Except Refusal Pass := do
  if p.isPopulated slot then return p
  match p.registry.entry? slot with
  | none => return p
  | some e =>
    let survey ← guarded.survey p.registry (← guarded.subject e)
      (← guarded.positions e.handle e.shape)
    let image ← guarded.image survey.registry e.handle e.shape
    return { p with
      registry := survey.registry
      queue := p.queue.extend survey.found
      populations := p.populations ++ [⟨slot, e.name, image⟩]
      reports := p.reports ++ survey.reports }

/-- Gives the type of a declaration a slot and, if it has none yet, a record. -/
def declare (p : Pass) (decl : DeclId) (name : String) : Except Refusal Pass := do
  match ← guarded.classify (← guarded.resolve decl) with
  | .intrinsic k =>
    return { p with reports := p.reports
      ++ [Pass.unreflectable name ("intrinsic type '" ++ k.name ++ "'")] }
  | .unsupported reason =>
    return { p with reports := p.reports ++ [Pass.unreflectable name reason.describe] }
  | .shape h _ shape =>
    guarded.settle (p.assign decl name h shape) (p.registry.identify h (some name) shape).1.slot

/-- Works off the queue, taking out at most as many types as the bound allows. -/
def drain : Nat → Pass → Except Refusal (Option Pass)
  | bound, p =>
    match p.queue.pop? with
    | none => .ok (some p)
    | some ((_, slot), queue) =>
      match bound with
      | 0 => .ok none
      | bound + 1 => do drain bound (← guarded.settle { p with queue := queue } slot)

/-- Catalogues files: all into the tree, every declared type, then all that they lead to. -/
def run (options : CatalogOptions) (bound : Nat) (p : Pass) (files : List SourceFile) :
    Except Refusal (Option Pass) := do
  let declared ← (p.declarationsOf options files).foldlM
    (fun p d => guarded.declare p d.1 d.2) (p.growTree options files).2
  guarded.drain bound declared

/-! ### Covered types -/

/-- On some types and declarations nothing is refused and the answers are those of the
host, and the types that the answers tell of are among these types. -/
structure Covers (host : TypeHost) (R : TypeHandle → Prop) (D : DeclId → Prop) : Prop where
  resolve : ∀ {d}, D d → guarded.resolve d = .ok (host.resolve d)
  kind : ∀ {h}, R h → guarded.kind h = .ok (host.kind h)
  members : ∀ {h}, R h → guarded.members h = .ok (host.members h)
  statics : ∀ {h}, R h → guarded.statics h = .ok (host.statics h)
  signatures : ∀ {h} kind, R h → guarded.signatures h kind = .ok (host.signatures h kind)
  heritage : ∀ {h} kind, R h → guarded.heritage h kind = .ok (host.heritage h kind)
  typeParameters : ∀ {h}, R h → guarded.typeParameters h = .ok (host.typeParameters h)
  canonical : ∀ {h}, R h → guarded.canonical h = .ok (host.canonical h)
  isArrayLike : ∀ {h}, R h → guarded.isArrayLike h = .ok (host.isArrayLike h)
  displayName : ∀ {h}, R h → guarded.displayName h = .ok (host.displayName h)
  of_resolve : ∀ {d}, D d → R (host.resolve d)
  of_canonical : ∀ {h}, R h → R (host.canonical h)
  of_kind : ∀ {h t}, R h → t ∈ (host.kind h).parts → R t
  of_members : ∀ {h m}, R h → m ∈ host.members h → R m.valueType
  of_statics : ∀ {h m}, R h → m ∈ host.statics h → R m.valueType
  of_signatures : ∀ {h kind s t}, R h → s ∈ host.signatures h kind → s.Refers t → R t
  of_heritage : ∀ {h kind t}, R h → t ∈ host.heritage h kind → R t
  of_typeParameters : ∀ {h t}, R h → t ∈ host.typeParameters h → R t

section

variable {kind : TypeHandle → TypeKind} {guardedKind : TypeHandle → Except Refusal TypeKind}
  {R : TypeHandle → Prop} {h : TypeHandle}

theorem nameWithin_eq (hkind : ∀ {h}, R h → guardedKind h = .ok (kind h))
    (hR : ∀ {h t}, R h → t ∈ (kind h).parts → R t) (bound : Nat) (hh : R h) :
    nameWithin guardedKind bound h = .ok (TypeHost.nameWithin kind bound h) := by
  induction bound generalizing h with
  | zero => rfl
  | succ bound ih =>
    rw [nameWithin, bind_of_eq_ok (hkind hh), TypeHost.nameWithin]
    cases hk : kind h with
    | reference target typeArguments =>
      have htarget : target ∈ (kind h).parts := by
        rw [hk]
        exact List.mem_cons_self
      exact ih (hR hh htarget)
    | _ => rfl

theorem isStandardArray_eq {typeParameters : TypeHandle → List TypeHandle}
    {guardedParameters : TypeHandle → Except Refusal (List TypeHandle)}
    (hkind : guardedKind h = .ok (kind h)) (hparameters : guardedParameters h = .ok (typeParameters h)) :
    isStandardArray guardedKind guardedParameters h
      = .ok (TypeHost.isStandardArray kind typeParameters h) := by
  rw [isStandardArray, bind_of_eq_ok hkind, TypeHost.isStandardArray]
  cases kind h with
  | classType name =>
    cases name with
    | none => rfl
    | some name => exact bind_of_eq_ok hparameters _
  | interfaceType name =>
    cases name with
    | none => rfl
    | some name => exact bind_of_eq_ok hparameters _
  | _ => rfl

end

namespace Covers

variable {guarded : GuardedHost} {host : TypeHost} {R : TypeHandle → Prop} {D : DeclId → Prop}
  {r : Registry} {h t : TypeHandle} {types : List TypeHandle} {shape : Shape}

/-- Covered types refer to covered types. -/
theorem of_refers (hq : guarded.Covers host R D) (hh : R h) (hr : host.Refers h t) : R t := by
  have hpart : ∀ {k}, host.kind h = k → t ∈ k.parts → R t := fun hk ht =>
    hq.of_kind hh (hk ▸ ht)
  have hbody : host.BodyRefers h t → R t := by
    rintro (ht | ⟨hm, -⟩ | ⟨hs, ht⟩)
    · exact hq.of_typeParameters hh ht
    · exact hq.of_members hh hm
    · exact hq.of_signatures hh hs ht
  cases hr with
  | classBody _ hb => exact hbody hb
  | static _ hm _ => exact hq.of_statics hh hm
  | firstBase _ hb => exact hq.of_heritage hh (hb ▸ List.mem_cons_self)
  | implemented _ hi => exact hq.of_heritage hh hi
  | interfaceBody _ hb => exact hbody hb
  | base _ hb => exact hq.of_heritage hh hb
  | literalBody _ hb => exact hbody hb
  | signature _ hs ht => exact hq.of_signatures hh hs ht
  | element hk _ => exact hpart hk (List.mem_cons_of_mem _ (List.mem_singleton.mpr rfl))
  | target hk _ => exact hpart hk List.mem_cons_self
  | argument hk _ ht => exact hpart hk (List.mem_cons_of_mem _ ht)
  | unionPart hk ht => exact hpart hk ht
  | intersectionPart hk ht => exact hpart hk ht
  | tuplePart hk ht => exact hpart hk ht
  | constraint hk => exact hpart hk (List.mem_singleton.mpr rfl)
  | «instance» hk => exact hpart hk (List.mem_singleton.mpr rfl)

/-- With the default answers in their places, the same types are covered. -/
theorem plain (hq : guarded.Covers host R D) (bound : Nat) :
    (guarded.plain bound).Covers (host.plain bound) R D :=
  { hq with
    statics := fun _ => rfl
    canonical := fun _ => rfl
    isArrayLike := fun hh => isStandardArray_eq (hq.kind hh) (hq.typeParameters hh)
    displayName := fun hh => bind_of_eq_ok (nameWithin_eq hq.kind hq.of_kind bound hh) _
    of_canonical := id
    of_statics := nofun }

theorem classify_eq (hq : guarded.Covers host R D) (ht : R t) :
    guarded.classify t = .ok (host.classify t) := by
  have hR := hq.of_canonical ht
  rw [classify, bind_of_eq_ok (hq.canonical ht), bind_of_eq_ok (hq.kind hR)]
  rw [TypeHost.classify]
  cases hk : host.kind (host.canonical t) with
  | reference target typeArguments =>
    have htarget : target ∈ (host.kind (host.canonical t)).parts := by
      rw [hk]
      exact List.mem_cons_self
    have hlike := hq.isArrayLike (hq.of_kind hR htarget)
    -- the target is asked about if there is exactly one argument
    obtain _ | ⟨element, _ | ⟨_, _⟩⟩ := typeArguments
    · rfl
    · exact bind_of_eq_ok hlike _
    · rfl
  | classExpression name _ => cases name <;> rfl
  | _ => rfl

theorem edge_eq (hq : guarded.Covers host R D) (ht : R t) :
    guarded.edge r t = .ok (host.edge? r t) := by
  rw [edge, bind_of_eq_ok (hq.classify_eq ht), TypeHost.edge?]
  cases host.classify t <;> rfl

theorem requiredEdge_eq (hq : guarded.Covers host R D) (ht : R t) :
    guarded.requiredEdge r t = .ok (host.requiredEdge r t) := by
  rw [requiredEdge, bind_of_eq_ok (hq.edge_eq ht)]
  rfl

theorem optionalEdge_eq (hq : guarded.Covers host R D) {type : Option TypeHandle}
    (ht : ∀ t ∈ type.toList, R t) :
    guarded.optionalEdge r type = .ok (type.bind (host.edge? r)) := by
  cases type with
  | none => rfl
  | some t => exact hq.edge_eq (ht t (List.mem_singleton.mpr rfl))

theorem edgeList_eq (hq : guarded.Covers host R D) (ht : ∀ t ∈ types, R t) :
    guarded.edgeList r types = .ok (host.edgeList r types) :=
  filterMapM_eq_ok fun t hmem => hq.edge_eq (ht t hmem)

theorem memberImages_eq (hq : guarded.Covers host R D) {members : List HostMember}
    (ht : ∀ t ∈ TypeHost.memberTypes members, R t) :
    guarded.memberImages r members = .ok (host.memberImages r members) := by
  refine filterMapM_eq_ok fun m hm => ?_
  rw [memberImage, bind_of_eq_ok (hq.edge_eq (ht _ (List.mem_map_of_mem hm)))]
  rfl

theorem signatureImage_eq (hq : guarded.Covers host R D) {s : HostSignature}
    (ht : ∀ t ∈ s.handles, R t) :
    guarded.signatureImage r s = .ok (host.signatureImage r s) := by
  simp only [HostSignature.handles, List.mem_append, List.mem_cons] at ht
  have hparameters : s.parameters.mapM (guarded.parameterImage r)
      = .ok (s.parameters.map fun p => ⟨p.name, host.requiredEdge r p.type⟩) := by
    refine mapM_eq_ok fun p hp => ?_
    rw [parameterImage, bind_of_eq_ok (hq.requiredEdge_eq (ht _ (.inl (List.mem_map_of_mem hp))))]
    rfl
  have hreturns := hq.requiredEdge_eq (r := r) (ht s.returns (.inr (.inl rfl)))
  have htypes := hq.edgeList_eq (r := r) fun t hmem => ht t (.inr (.inr hmem))
  rw [signatureImage, bind_of_eq_ok hparameters, bind_of_eq_ok hreturns, bind_of_eq_ok htypes]
  rfl

theorem signatureImages_eq (hq : guarded.Covers host R D) (hh : R h) {kind : SignatureKind}
    (ht : ∀ t ∈ host.signatureTypes h kind, R t) :
    guarded.signatureImages r h kind = .ok (host.signatureImages r h kind) := by
  rw [signatureImages, bind_of_eq_ok (hq.signatures kind hh)]
  exact mapM_eq_ok fun s hs =>
    hq.signatureImage_eq fun t hmem => ht t (List.mem_flatMap_of_mem hs hmem)

theorem bodyImage_eq (hq : guarded.Covers host R D) (hh : R h) (ht : ∀ t ∈ host.bodyTypes h, R t) :
    guarded.bodyImage r h = .ok (host.bodyImage r h) := by
  simp only [TypeHost.bodyTypes_eq, List.mem_append] at ht
  have htypes := hq.edgeList_eq (r := r) fun t hmem => ht t (.inl (.inl (.inl (.inl hmem))))
  have hmembers := hq.memberImages_eq (r := r) fun t hmem => ht t (.inl (.inl (.inl (.inr hmem))))
  have hconstruct := hq.signatureImages_eq (r := r) hh fun t hmem => ht t (.inl (.inl (.inr hmem)))
  have hcall := hq.signatureImages_eq (r := r) hh fun t hmem => ht t (.inl (.inr hmem))
  have hindex := hq.signatureImages_eq (r := r) hh fun t hmem => ht t (.inr hmem)
  rw [bodyImage, bind_of_eq_ok (hq.typeParameters hh), bind_of_eq_ok htypes,
    bind_of_eq_ok (hq.members hh), bind_of_eq_ok hmembers, bind_of_eq_ok hconstruct,
    bind_of_eq_ok hcall, bind_of_eq_ok hindex]
  rfl

/-- The record of a covered type is made without a refusal. -/
theorem image_eq (hq : guarded.Covers host R D) (hh : R h)
    (ht : ∀ t ∈ host.childTypes h shape, R t) :
    guarded.image r h shape = .ok (host.image r h shape) := by
  cases shape with
  | classShape =>
    simp only [TypeHost.childTypes_classShape, List.mem_append] at ht
    have hbody := hq.bodyImage_eq (r := r) hh fun t hmem => ht t (.inl (.inl (.inl hmem)))
    have hstatics := hq.memberImages_eq (r := r) fun t hmem => ht t (.inl (.inl (.inr hmem)))
    have hbase := hq.optionalEdge_eq (r := r) fun t hmem => ht t (.inl (.inr hmem))
    have himplemented := hq.edgeList_eq (r := r) fun t hmem => ht t (.inr hmem)
    rw [image, bind_of_eq_ok hbody, bind_of_eq_ok (hq.statics hh), bind_of_eq_ok hstatics,
      bind_of_eq_ok (hq.heritage .extending hh)]
    refine (bind_of_eq_ok hbase _).trans ?_
    rw [bind_of_eq_ok (hq.heritage .implementing hh), bind_of_eq_ok himplemented]
    rfl
  | interfaceShape =>
    simp only [TypeHost.childTypes_interfaceShape, List.mem_append] at ht
    have hbody := hq.bodyImage_eq (r := r) hh fun t hmem => ht t (.inl hmem)
    have hbases := hq.edgeList_eq (r := r) fun t hmem => ht t (.inr hmem)
    rw [image, bind_of_eq_ok hbody, bind_of_eq_ok (hq.heritage .extending hh),
      bind_of_eq_ok hbases]
    rfl
  | typeLiteral =>
    rw [image, bind_of_eq_ok (hq.bodyImage_eq hh ht)]
    rfl
  | function =>
    rw [TypeHost.childTypes_function] at ht
    rw [image, bind_of_eq_ok (hq.signatureImages_eq hh ht)]
    rfl
  | array element =>
    rw [image, bind_of_eq_ok (hq.requiredEdge_eq (ht element (by simp)))]
    rfl
  | reference target typeArguments =>
    simp only [TypeHost.childTypes_reference, List.mem_cons] at ht
    have harguments := hq.edgeList_eq (r := r) fun t hmem => ht t (.inr hmem)
    rw [image, bind_of_eq_ok (hq.requiredEdge_eq (ht target (.inl rfl))),
      bind_of_eq_ok harguments]
    rfl
  | union types =>
    rw [TypeHost.childTypes_union] at ht
    rw [image, bind_of_eq_ok (hq.edgeList_eq ht)]
    rfl
  | intersection types =>
    rw [TypeHost.childTypes_intersection] at ht
    rw [image, bind_of_eq_ok (hq.edgeList_eq ht)]
    rfl
  | tuple elements =>
    rw [TypeHost.childTypes_tuple] at ht
    rw [image, bind_of_eq_ok (hq.edgeList_eq ht)]
    rfl
  | typeParameter constraint =>
    rw [TypeHost.childTypes_typeParameter] at ht
    rw [image, bind_of_eq_ok (hq.optionalEdge_eq ht)]
    rfl
  | expression instanceType =>
    rw [image, bind_of_eq_ok (hq.requiredEdge_eq (ht instanceType (by simp)))]
    rfl

theorem bodyPositions_eq (hq : guarded.Covers host R D) (hh : R h) :
    guarded.bodyPositions h = .ok (host.bodyPositions h) := by
  rw [bodyPositions, bind_of_eq_ok (hq.typeParameters hh), bind_of_eq_ok (hq.members hh),
    bind_of_eq_ok (hq.signatures .construct hh), bind_of_eq_ok (hq.signatures .call hh),
    bind_of_eq_ok (hq.signatures .index hh)]
  rfl

theorem positions_eq (hq : guarded.Covers host R D) (hh : R h) (shape : Shape) :
    guarded.positions h shape = .ok (host.positions h shape) := by
  cases shape with
  | classShape =>
    rw [positions, bind_of_eq_ok (hq.bodyPositions_eq hh), bind_of_eq_ok (hq.statics hh),
      bind_of_eq_ok (hq.heritage .extending hh), bind_of_eq_ok (hq.heritage .implementing hh)]
    rfl
  | interfaceShape =>
    rw [positions, bind_of_eq_ok (hq.bodyPositions_eq hh),
      bind_of_eq_ok (hq.heritage .extending hh)]
    rfl
  | typeLiteral => exact hq.bodyPositions_eq hh
  | function =>
    rw [positions, bind_of_eq_ok (hq.signatures .call hh)]
    rfl
  -- the other shapes hold their child types themselves
  | _ => rfl

/-- A look at covered child types is refused nothing. -/
theorem survey_eq (hq : guarded.Covers host R D) {positions : List Position}
    (ht : ∀ c ∈ positions, R c.type) (subject : String) :
    guarded.survey r subject positions = .ok (Survey.ofPositions host subject r positions) := by
  refine (foldlM_eq_ok (P := fun _ => True) (fun s c hc _ => ⟨?_, trivial⟩) trivial).1
  rw [bind_of_eq_ok (hq.classify_eq (ht c hc)), Survey.note]
  cases host.classify c.type <;> rfl

theorem subject_eq (hq : guarded.Covers host R D) {e : Entry} (hh : R e.handle) :
    guarded.subject e = .ok (Pass.subject host e) := by
  rw [subject, Pass.subject]
  cases e.name with
  | none => exact hq.displayName hh
  | some name => rfl

/-! ### Passes over covered types -/

variable {p : Pass} {log : Pass.Log} {slot : SlotId}

theorem settle_eq (hq : guarded.Covers host R D) (hs : p.registry.Serves host)
    (hR : ∀ e ∈ p.registry.entries, R e.handle) (slot : SlotId) :
    guarded.settle p slot = .ok (p.settle host slot) := by
  rw [settle, Pass.settle]
  by_cases hpop : p.isPopulated slot
  · rw [if_pos hpop, if_pos hpop]
    rfl
  · rw [if_neg hpop, if_neg hpop]
    cases he : p.registry.entry? slot with
    | none =>
      rw [Pass.populate, he]
      rfl
    | some e =>
      have hmem := Registry.mem_entries_of_entry he
      have hchildren : ∀ t ∈ host.childTypes e.handle e.shape, R t := fun t ht =>
        hq.of_refers (hR e hmem) ((TypeHost.refers_iff (hs.shaped e hmem)).mpr ht)
      have hpositions : ∀ c ∈ host.positions e.handle e.shape, R c.type := fun c hc =>
        hchildren c.type (List.mem_map_of_mem hc)
      have hsurvey := hq.survey_eq (r := p.registry) hpositions (Pass.subject host e)
      rw [Pass.populate_of_entry he]
      -- first the questions are asked, then the record is made of the answers
      refine (bind_of_eq_ok (hq.subject_eq (hR e hmem)) _).trans ?_
      rw [bind_of_eq_ok (hq.positions_eq (hR e hmem) e.shape), bind_of_eq_ok hsurvey,
        bind_of_eq_ok (hq.image_eq (hR e hmem) hchildren)]
      rfl

theorem declare_eq (hq : guarded.Covers host R D) (ho : p.Orderly host log [])
    (hR : ∀ e ∈ p.registry.entries, R e.handle) {decl : DeclId} (hd : D decl) (name : String) :
    guarded.declare p decl name = .ok (p.declare host decl name) := by
  rw [declare, bind_of_eq_ok (hq.resolve hd), bind_of_eq_ok (hq.classify_eq (hq.of_resolve hd)),
    Pass.declare]
  cases hc : host.classify (host.resolve decl) with
  | intrinsic k => rfl
  | unsupported reason => rfl
  | shape h name' shape =>
    refine hq.settle_eq (ho.assign hc name).serves ?_ _
    intro e he
    rcases Pass.mem_entries_assign he with he | rfl
    · exact hR e he
    · show R h
      rw [TypeHost.handle_of_classify hc]
      exact hq.of_canonical (hq.of_resolve hd)

/-- Being covered is handed on from entry to entry. -/
theorem handedOn (hq : guarded.Covers host R D) {declarations : List (DeclId × String)}
    (hD : ∀ d ∈ declarations, D d.1) :
    Pass.HandedOn host declarations fun e => R e.handle where
  declared hd hc := by
    rw [TypeHost.handle_of_classify hc]
    exact hq.of_canonical (hq.of_resolve (hD _ hd))
  referred hR hr hc := by
    rw [TypeHost.handle_of_classify hc]
    exact hq.of_canonical (hq.of_refers hR hr)

theorem drain_eq (hq : guarded.Covers host R D) (ho : p.Orderly host log [])
    (hR : ∀ e ∈ p.registry.entries, R e.handle) (bound : Nat) :
    guarded.drain bound p = .ok (p.drain? host bound) := by
  have hh : Pass.HandedOn host [] fun e => R e.handle := hq.handedOn (by simp)
  induction bound generalizing p log with
  | zero =>
    rw [drain, Pass.drain?]
    cases p.queue.pop? <;> rfl
  | succ bound ih =>
    cases hp : p.queue.pop? with
    | none =>
      rw [drain, hp, Pass.drain?_of_pop?_none _ hp]
    | some next =>
      obtain ⟨first, queue⟩ := next
      rw [drain, hp, Pass.drain?_of_pop?_some hp]
      have hserves := (ho.take hp).serves
      refine (bind_of_eq_ok (hq.settle_eq hserves hR first.2) _).trans ?_
      exact ih (ho.work hp) (hh.settle hserves hR first.2)

/-- Under guard, a pass over files whose declarations are covered does what it does
without, and nothing that it asks is refused. -/
theorem run_eq (hq : guarded.Covers host R D) {options : CatalogOptions}
    {files : List SourceFile} (hD : ∀ d ∈ Pass.initial.declarationsOf options files, D d.1)
    (bound : Nat) :
    guarded.run options bound .initial files
      = .ok (Pass.initial.run? host options bound files) := by
  have hh := hq.handedOn hD
  have hstart : (∃ log, (Pass.initial.growTree options files).2.Orderly host log []) ∧
      ∀ e ∈ (Pass.initial.growTree options files).2.registry.entries, R e.handle :=
    ⟨⟨[], Pass.orderly_initial.grow files⟩, fun e he => absurd he List.not_mem_nil⟩
  obtain ⟨hdeclared, ⟨log, ho⟩, hR⟩ := foldlM_eq_ok
    (f := fun (p : Pass) d => guarded.declare p d.1 d.2) (g := fun p d => p.declare host d.1 d.2)
    (P := fun p => (∃ log, p.Orderly host log []) ∧ ∀ e ∈ p.registry.entries, R e.handle)
    (fun p d hd ⟨⟨_, ho⟩, hR⟩ => ⟨hq.declare_eq ho hR (hD d hd) d.2, ⟨_, ho.declare d.1 d.2⟩,
      hh.declare ho hR hd⟩) hstart
  rw [run, bind_of_eq_ok hdeclared, Pass.run?_eq]
  exact hq.drain_eq ho hR bound

end Covers

end GuardedHost

end TypeCatalog
