/-
What a record says about its type.

`Portrait.Node` is the rule for records, told by the host's answers alone and
not by the way in which records are made.  A child type is shown by the primitive
type or by the slot of its representative; one that has neither is left out of a
list and is `any` where something must stand.

A record satisfies the rule exactly if it is the image (`Portrait.node_iff`).
Every record of a finished pass therefore satisfies it, and no other would, with
the registry as it is at the end (`Program.portrait_of_mem_populations`).
-/
import TypeCatalog.Proofs.Catalog.Termination

namespace TypeCatalog

/-! ### The rule for records -/

/-- The kinds of type that records cannot show. -/
def TypeKind.IsUnsupported : TypeKind → Prop
  | .literal _ => True
  | .objectLiteral => True
  | .classExpression none _ => True
  | .unknown _ => True
  | _ => False

/-- The kinds of type that have records. -/
def TypeKind.IsSupported (k : TypeKind) : Prop := ¬ k.IsUnsupported ∧ ∀ i, k ≠ .intrinsic i

/-- The kind of a type is that of its representative. -/
def TypeHost.kindOf (host : TypeHost) (type : TypeHandle) : TypeKind :=
  host.kind (host.canonical type)

namespace Portrait

/-- A list shows, in order, what the members of another list are to be shown by;
those that nothing shows are left out. -/
inductive Listed {α β : Type} (R : α → Option β → Prop) : List α → List β → Prop where
  | nil : Listed R [] []
  | keep {a b as bs} : R a (some b) → Listed R as bs → Listed R (a :: as) (b :: bs)
  | skip {a as bs} : R a none → Listed R as bs → Listed R (a :: as) bs

variable (host : TypeHost) (r : Registry)

/-- What shows a child type. -/
inductive Edge (type : TypeHandle) : Option TypeRef → Prop where
  | intrinsic {k} : host.kindOf type = .intrinsic k → Edge type (some (.intrinsic k))
  | slot {s} : (host.kindOf type).IsSupported → r.lookup (host.canonical type) = some s →
      Edge type (some (.slot s))
  | missing : (host.kindOf type).IsUnsupported → Edge type none

/-- What shows a child type where something must stand. -/
def Required (type : TypeHandle) (edge : TypeRef) : Prop :=
  ∃ shown, Edge host r type shown ∧ edge = shown.getD .any

/-- What shows a member: its name, its type and whether it is optional. -/
def MemberOf (m : HostMember) (shown : Option Member) : Prop :=
  ∃ edge, Edge host r m.valueType edge ∧
    shown = edge.map fun type => ⟨m.name, type, m.isOptional⟩

/-- Members of the kinds that belong to the shape of an object are shown in order. -/
def Members (ms : List HostMember) (shown : List Member) : Prop :=
  Listed (MemberOf host r) (ms.filter (·.kind.isReflected)) shown

/-- What shows a signature: all of its parameters, with the length and the mark
that tell of a last parameter which takes what is left. -/
structure SignatureOf (s : HostSignature) (shown : Signature) : Prop where
  parameters : List.Forall₂ (fun p q => q.name = p.name ∧ Required host r p.type q.type)
    s.parameters shown.parameters
  hasRest : shown.hasRest = true ↔
    ∃ front last, s.parameters = front ++ [last] ∧ last.isRest = true
  length_of_rest : shown.hasRest = true → shown.length = shown.parameters.length - 1
  length_of_no_rest : shown.hasRest = false → shown.length = shown.parameters.length
  returns : Required host r s.returns shown.returns
  typeParameters : Listed (Edge host r) s.typeParameters shown.typeParameters

/-- What all object types show. -/
structure BodyOf (h : TypeHandle) (shown : ObjectBody) : Prop where
  typeParameters : Listed (Edge host r) (host.typeParameters h) shown.typeParameters
  members : Members host r (host.members h) shown.members
  construct : List.Forall₂ (SignatureOf host r) (host.signatures h .construct) shown.construct
  call : List.Forall₂ (SignatureOf host r) (host.signatures h .call) shown.call
  index : List.Forall₂ (SignatureOf host r) (host.signatures h .index) shown.index

/-- What shows a type that may or may not be there. -/
def Optional (type : Option TypeHandle) (shown : Option TypeRef) : Prop :=
  match type with
  | some type => Edge host r type shown
  | none => shown = none

/-- A reference is an array if it has one argument and its target is array-like. -/
def IsArray (target : TypeHandle) (typeArguments : List TypeHandle) : Prop :=
  (∃ element, typeArguments = [element]) ∧ host.isArrayLike target = true

/-- What the record of a type says, but for its slot and its name. -/
def Node (h : TypeHandle) (shown : NodeKind) : Prop :=
  match host.kind h, shown with
  | .classType _, .classNode body statics base implemented =>
    BodyOf host r h body ∧ Members host r (host.statics h) statics ∧
      Optional host r (host.heritage h .extending).head? base ∧
      Listed (Edge host r) (host.heritage h .implementing) implemented
  | .interfaceType _, .interfaceNode body bases =>
    BodyOf host r h body ∧ Listed (Edge host r) (host.heritage h .extending) bases
  | .typeLiteral _, .typeLiteral body => BodyOf host r h body
  | .function _, .function signatures =>
    List.Forall₂ (SignatureOf host r) (host.signatures h .call) signatures
  | .reference target typeArguments, .array edge =>
    IsArray host target typeArguments ∧ ∀ element ∈ typeArguments, Required host r element edge
  | .reference target typeArguments, .reference edge edges =>
    ¬ IsArray host target typeArguments ∧ Required host r target edge ∧
      Listed (Edge host r) typeArguments edges
  | .union types, .union edges => Listed (Edge host r) types edges
  | .intersection types, .intersection edges => Listed (Edge host r) types edges
  | .tuple elements, .tuple edges => Listed (Edge host r) elements edges
  | .typeParameter _ constraint, .typeParameter edge => Optional host r constraint edge
  | .classExpression (some _) instanceType, .expression edge => Required host r instanceType edge
  | _, _ => False

end Portrait

/-! ### The rule and the image -/

/-- A type is primitive, cannot be shown by a record, or has the shape of its representative. -/
theorem TypeHost.classify_cases (host : TypeHost) (type : TypeHandle) :
    (∃ k, host.kindOf type = .intrinsic k ∧ host.classify type = .intrinsic k) ∨
    ((host.kindOf type).IsUnsupported ∧ ∃ reason, host.classify type = .unsupported reason) ∨
    ((host.kindOf type).IsSupported ∧
      ∃ name shape, host.classify type = .shape (host.canonical type) name shape) := by
  unfold classify
  rw [kindOf]
  generalize host.kind (host.canonical type) = k
  unfold classifyKind
  split
  all_goals simp [TypeKind.IsUnsupported, TypeKind.IsSupported]
  split <;> simp

/-- The shapes of types, by what the host answers about their kinds. -/
inductive TypeHost.ShapeByKind (host : TypeHost) (h : TypeHandle) : Shape → Prop where
  | classType {name} (hk : host.kind h = .classType name) : ShapeByKind host h .classShape
  | interfaceType {name} (hk : host.kind h = .interfaceType name) :
    ShapeByKind host h .interfaceShape
  | typeLiteral {name} (hk : host.kind h = .typeLiteral name) : ShapeByKind host h .typeLiteral
  | function {name} (hk : host.kind h = .function name) : ShapeByKind host h .function
  | array {target element} (hk : host.kind h = .reference target [element])
    (ha : Portrait.IsArray host target [element]) : ShapeByKind host h (.array element)
  | reference {target arguments} (hk : host.kind h = .reference target arguments)
    (ha : ¬ Portrait.IsArray host target arguments) :
    ShapeByKind host h (.reference target arguments)
  | union {types} (hk : host.kind h = .union types) : ShapeByKind host h (.union types)
  | intersection {types} (hk : host.kind h = .intersection types) :
    ShapeByKind host h (.intersection types)
  | tuple {elements} (hk : host.kind h = .tuple elements) : ShapeByKind host h (.tuple elements)
  | typeParameter {name constraint} (hk : host.kind h = .typeParameter name constraint) :
    ShapeByKind host h (.typeParameter constraint)
  | classExpression {name instanceType}
    (hk : host.kind h = .classExpression (some name) instanceType) :
    ShapeByKind host h (.expression instanceType)

theorem TypeHost.ShapeByKind.ofReference {host : TypeHost} {h target : TypeHandle}
    {arguments : List TypeHandle} {name : Option String} {shape : Shape}
    (hk : host.kind h = .reference target arguments)
    (hc : classifyKind host.isArrayLike h (.reference target arguments) = .shape h name shape) :
    host.ShapeByKind h shape := by
  rcases arguments with _ | ⟨element, _ | ⟨second, rest⟩⟩
  · cases hc
    exact .reference hk (by simp [Portrait.IsArray])
  · rw [classifyKind] at hc
    split at hc
    · rename_i hlike
      cases hc
      exact .array hk ⟨⟨element, rfl⟩, hlike⟩
    · rename_i hlike
      cases hc
      exact .reference hk fun h => hlike h.2
  · cases hc
    exact .reference hk (by simp [Portrait.IsArray])

/-- A type has no shape but the one of its kind. -/
theorem TypeHost.HasShape.byKind {host : TypeHost} {h : TypeHandle} {shape : Shape}
    (hs : host.HasShape h shape) : host.ShapeByKind h shape := by
  obtain ⟨name, hc⟩ := hs
  cases hk : host.kind h with
  | reference target arguments => exact .ofReference hk (hk ▸ hc)
  | classExpression name instanceType =>
    rw [hk] at hc
    cases name with
    | none => cases hc
    | some name =>
      cases hc
      exact .classExpression hk
  | classType name =>
    rw [hk] at hc
    cases hc
    exact .classType hk
  | interfaceType name =>
    rw [hk] at hc
    cases hc
    exact .interfaceType hk
  | typeLiteral name =>
    rw [hk] at hc
    cases hc
    exact .typeLiteral hk
  | function name =>
    rw [hk] at hc
    cases hc
    exact .function hk
  | union types =>
    rw [hk] at hc
    cases hc
    exact .union hk
  | intersection types =>
    rw [hk] at hc
    cases hc
    exact .intersection hk
  | tuple elements =>
    rw [hk] at hc
    cases hc
    exact .tuple hk
  | typeParameter name constraint =>
    rw [hk] at hc
    cases hc
    exact .typeParameter hk
  | _ =>
    rw [hk] at hc
    cases hc

namespace Portrait

variable {host : TypeHost} {r : Registry} {type h : TypeHandle}

theorem listed_iff {α β : Type} {R : α → Option β → Prop} {f : α → Option β} {as : List α}
    {bs : List β} (hR : ∀ a ∈ as, ∀ o, R a o ↔ o = f a) : Listed R as bs ↔ bs = as.filterMap f := by
  induction as generalizing bs with
  | nil =>
    constructor
    · rintro ⟨⟩
      rfl
    · rintro rfl
      exact .nil
  | cons a as ih =>
    have ih : ∀ bs, Listed R as bs ↔ bs = as.filterMap f := fun _ =>
      ih fun a' ha' => hR a' (List.mem_cons_of_mem a ha')
    have ha := hR a List.mem_cons_self
    constructor
    · rintro (_ | ⟨hb, hbs⟩ | ⟨hb, hbs⟩)
      · rw [List.filterMap_cons, ← (ha _).mp hb, (ih _).mp hbs]
      · rw [List.filterMap_cons, ← (ha _).mp hb, (ih _).mp hbs]
    · rintro rfl
      rw [List.filterMap_cons]
      cases hf : f a with
      | none => exact .skip ((ha none).mpr hf.symm) ((ih _).mpr rfl)
      | some b => exact .keep ((ha (some b)).mpr hf.symm) ((ih _).mpr rfl)

theorem forall₂_iff {α β : Type} {R : α → β → Prop} {f : α → β} {as : List α} {bs : List β}
    (hR : ∀ a ∈ as, ∀ b, R a b ↔ b = f a) : List.Forall₂ R as bs ↔ bs = as.map f := by
  induction as generalizing bs with
  | nil => rw [List.forall₂_nil_left_iff, List.map_nil]
  | cons a as ih =>
    have ih : ∀ bs, List.Forall₂ R as bs ↔ bs = as.map f := fun _ =>
      ih fun a' ha' => hR a' (List.mem_cons_of_mem a ha')
    simp only [List.forall₂_cons_left_iff, hR a List.mem_cons_self, ih, List.map_cons,
      exists_and_left, exists_eq_left]

theorem edge_iff (hl : host.IsLinked r type) {shown : Option TypeRef} :
    Edge host r type shown ↔ shown = host.edge? r type := by
  obtain ⟨k, hk, hc⟩ | ⟨hk, reason, hc⟩ | ⟨hk, name, shape, hc⟩ := host.classify_cases type
  · rw [TypeHost.edge?, hc]
    constructor
    · rintro (hi | ⟨hs, -⟩ | hu)
      · rw [hk] at hi
        cases hi
        rfl
      · exact absurd hk (hs.2 k)
      · rw [hk] at hu
        exact hu.elim
    · rintro rfl
      exact .intrinsic hk
  · rw [TypeHost.edge?, hc]
    constructor
    · rintro (hi | ⟨hs, -⟩ | hu)
      · rw [hi] at hk
        exact hk.elim
      · exact absurd hk hs.1
      · rfl
    · rintro rfl
      exact .missing hk
  · obtain ⟨slot, hslot⟩ := hl _ _ _ hc
    rw [TypeHost.edge?, hc]
    simp only [hslot, Option.map_some]
    constructor
    · rintro (hi | ⟨-, hs⟩ | hu)
      · exact absurd hi (hk.2 _)
      · rw [hslot] at hs
        cases hs
        rfl
      · exact absurd hu hk.1
    · rintro rfl
      exact .slot hk hslot

theorem required_iff (hl : host.IsLinked r type) {edge : TypeRef} :
    Required host r type edge ↔ edge = host.requiredEdge r type := by
  simp only [Required, edge_iff hl, exists_eq_left]
  rfl

theorem optional_iff {type : Option TypeHandle} (hl : ∀ t ∈ type, host.IsLinked r t)
    {shown : Option TypeRef} :
    Optional host r type shown ↔ shown = type.bind (host.edge? r) := by
  cases type with
  | none => exact Iff.rfl
  | some t => exact edge_iff (hl t rfl)

theorem edges_iff {types : List TypeHandle} (hl : ∀ t ∈ types, host.IsLinked r t)
    {edges : List TypeRef} :
    Listed (Edge host r) types edges ↔ edges = host.edgeList r types :=
  listed_iff fun t ht _ => edge_iff (hl t ht)

theorem members_iff {ms : List HostMember}
    (hl : ∀ t ∈ TypeHost.memberTypes ms, host.IsLinked r t)
    {shown : List Member} : Members host r ms shown ↔ shown = host.memberImages r ms := by
  refine listed_iff fun m hm o => ?_
  have hedge := hl m.valueType (List.mem_map_of_mem hm)
  simp only [MemberOf, edge_iff hedge, exists_eq_left]

theorem hasRest_iff (s : HostSignature) :
    s.hasRest = true ↔ ∃ front last, s.parameters = front ++ [last] ∧ last.isRest = true := by
  unfold HostSignature.hasRest
  constructor
  · intro h
    split at h
    · rename_i last hlast
      obtain ⟨front, hfront⟩ := List.getLast?_eq_some_iff.mp hlast
      exact ⟨front, last, hfront, h⟩
    · cases h
  · rintro ⟨front, last, hfront, hlast⟩
    simp only [hfront, List.getLast?_concat, hlast]

theorem signatureOf_iff {s : HostSignature} (hl : ∀ t ∈ s.handles, host.IsLinked r t)
    {shown : Signature} : SignatureOf host r s shown ↔ shown = host.signatureImage r s := by
  simp only [HostSignature.handles, List.mem_append, List.mem_cons] at hl
  have hparameters : ∀ p ∈ s.parameters, ∀ q : Parameter,
      (q.name = p.name ∧ Required host r p.type q.type) ↔
        q = ⟨p.name, host.requiredEdge r p.type⟩ := by
    intro p hp q
    rw [required_iff (hl p.type (.inl (List.mem_map_of_mem hp)))]
    cases q
    simp
  have hreturns : ∀ edge, Required host r s.returns edge ↔ _ := fun _ =>
    required_iff (hl s.returns (.inr (.inl rfl)))
  have htypes : ∀ edges, Listed (Edge host r) s.typeParameters edges ↔ _ := fun _ =>
    edges_iff fun t ht => hl t (.inr (.inr ht))
  constructor
  · intro hs
    obtain ⟨hps, hrest, hlen, hlen', hret, htps⟩ := hs
    rw [forall₂_iff hparameters] at hps
    rw [hreturns] at hret
    rw [htypes] at htps
    rw [← hasRest_iff] at hrest
    obtain ⟨length, parameters, hasRest, returns, typeParameters⟩ := shown
    have hsame : hasRest = s.hasRest := Bool.eq_iff_iff.mpr hrest
    subst hps hret htps hsame
    rw [TypeHost.signatureImage]
    congr 1
    cases hr : s.hasRest with
    | true => simpa using hlen hr
    | false => simpa using hlen' hr
  · rintro rfl
    refine ⟨(forall₂_iff hparameters).mpr rfl, hasRest_iff s, ?_, ?_, (hreturns _).mpr rfl,
      (htypes _).mpr rfl⟩
    · intro hr
      change s.hasRest = true at hr
      simp [TypeHost.signatureImage, hr]
    · intro hr
      change s.hasRest = false at hr
      simp [TypeHost.signatureImage, hr]

theorem signatures_iff {kind : SignatureKind}
    (hl : ∀ t ∈ host.signatureTypes h kind, host.IsLinked r t)
    {shown : List Signature} :
    List.Forall₂ (SignatureOf host r) (host.signatures h kind) shown ↔
      shown = host.signatureImages r h kind :=
  forall₂_iff fun _ hs _ => signatureOf_iff fun t ht => hl t (List.mem_flatMap_of_mem hs ht)

theorem bodyOf_iff (hl : ∀ t ∈ host.bodyTypes h, host.IsLinked r t) {shown : ObjectBody} :
    BodyOf host r h shown ↔ shown = host.bodyImage r h := by
  simp only [TypeHost.bodyTypes_eq, List.mem_append] at hl
  obtain ⟨types, members, construct, call, index⟩ := shown
  have htypes : Listed (Edge host r) (host.typeParameters h) types ↔ _ :=
    edges_iff fun t ht => hl t (.inl (.inl (.inl (.inl ht))))
  have hmembers : Members host r (host.members h) members ↔ _ :=
    members_iff fun t ht => hl t (.inl (.inl (.inl (.inr ht))))
  have hconstruct :
      List.Forall₂ (SignatureOf host r) (host.signatures h .construct) construct ↔ _ :=
    signatures_iff fun t ht => hl t (.inl (.inl (.inr ht)))
  have hcall : List.Forall₂ (SignatureOf host r) (host.signatures h .call) call ↔ _ :=
    signatures_iff fun t ht => hl t (.inl (.inr ht))
  have hindex : List.Forall₂ (SignatureOf host r) (host.signatures h .index) index ↔ _ :=
    signatures_iff fun t ht => hl t (.inr ht)
  rw [TypeHost.bodyImage, ObjectBody.mk.injEq, ← htypes, ← hmembers, ← hconstruct, ← hcall,
    ← hindex]
  constructor
  · rintro ⟨ht, hm, hcon, hca, hi⟩
    exact ⟨ht, hm, hcon, hca, hi⟩
  · rintro ⟨ht, hm, hcon, hca, hi⟩
    exact ⟨ht, hm, hcon, hca, hi⟩

/-! ### One kind of type after the other -/

section

variable {shown : NodeKind} {name : Option String}

theorem node_classType_iff (hk : host.kind h = .classType name)
    (hl : ∀ t ∈ host.childTypes h .classShape, host.IsLinked r t) :
    Node host r h shown ↔ shown = host.image r h .classShape := by
  unfold Node
  rw [hk]
  simp only [TypeHost.childTypes_classShape, List.mem_append] at hl
  cases shown with
  | classNode body statics base implemented =>
    dsimp only
    rw [TypeHost.image, NodeKind.classNode.injEq,
      bodyOf_iff fun t ht => hl t (.inl (.inl (.inl ht))),
      members_iff fun t ht => hl t (.inl (.inl (.inr ht))),
      edges_iff fun t ht => hl t (.inr ht)]
    refine and_congr_right' (and_congr_right' (and_congr_left' ?_))
    exact optional_iff fun t ht => hl t (.inl (.inr (Option.mem_toList.mpr ht)))
  | _ => simp [TypeHost.image]

theorem node_interfaceType_iff (hk : host.kind h = .interfaceType name)
    (hl : ∀ t ∈ host.childTypes h .interfaceShape, host.IsLinked r t) :
    Node host r h shown ↔ shown = host.image r h .interfaceShape := by
  unfold Node
  rw [hk]
  simp only [TypeHost.childTypes_interfaceShape, List.mem_append] at hl
  cases shown with
  | interfaceNode body bases =>
    dsimp only
    rw [TypeHost.image, NodeKind.interfaceNode.injEq, bodyOf_iff fun t ht => hl t (.inl ht),
      edges_iff fun t ht => hl t (.inr ht)]
  | _ => simp [TypeHost.image]

theorem node_typeLiteral_iff (hk : host.kind h = .typeLiteral name)
    (hl : ∀ t ∈ host.bodyTypes h, host.IsLinked r t) :
    Node host r h shown ↔ shown = host.image r h .typeLiteral := by
  unfold Node
  rw [hk]
  cases shown with
  | typeLiteral body =>
    dsimp only
    rw [TypeHost.image, NodeKind.typeLiteral.injEq, bodyOf_iff hl]
  | _ => simp [TypeHost.image]

theorem node_function_iff (hk : host.kind h = .function name)
    (hl : ∀ t ∈ host.signatureTypes h .call, host.IsLinked r t) :
    Node host r h shown ↔ shown = host.image r h .function := by
  unfold Node
  rw [hk]
  cases shown with
  | function signatures =>
    dsimp only
    rw [TypeHost.image, NodeKind.function.injEq, signatures_iff hl]
  | _ => simp [TypeHost.image]

theorem node_array_iff {target element : TypeHandle}
    (hk : host.kind h = .reference target [element]) (ha : IsArray host target [element])
    (hl : host.IsLinked r element) :
    Node host r h shown ↔ shown = host.image r h (.array element) := by
  unfold Node
  rw [hk]
  cases shown with
  | array edge => simp [TypeHost.image, ha, required_iff hl]
  | reference edge edges => simp [TypeHost.image, ha]
  | _ => simp [TypeHost.image]

theorem node_reference_iff {target : TypeHandle} {typeArguments : List TypeHandle}
    (hk : host.kind h = .reference target typeArguments)
    (ha : ¬ IsArray host target typeArguments) (ht : host.IsLinked r target)
    (hl : ∀ t ∈ typeArguments, host.IsLinked r t) :
    Node host r h shown ↔ shown = host.image r h (.reference target typeArguments) := by
  unfold Node
  rw [hk]
  cases shown with
  | array edge => simp [TypeHost.image, ha]
  | reference edge edges => simp [TypeHost.image, ha, required_iff ht, edges_iff hl]
  | _ => simp [TypeHost.image]

theorem node_union_iff {types : List TypeHandle} (hk : host.kind h = .union types)
    (hl : ∀ t ∈ types, host.IsLinked r t) :
    Node host r h shown ↔ shown = host.image r h (.union types) := by
  unfold Node
  rw [hk]
  cases shown with
  | union edges => simp [TypeHost.image, edges_iff hl]
  | _ => simp [TypeHost.image]

theorem node_intersection_iff {types : List TypeHandle} (hk : host.kind h = .intersection types)
    (hl : ∀ t ∈ types, host.IsLinked r t) :
    Node host r h shown ↔ shown = host.image r h (.intersection types) := by
  unfold Node
  rw [hk]
  cases shown with
  | intersection edges => simp [TypeHost.image, edges_iff hl]
  | _ => simp [TypeHost.image]

theorem node_tuple_iff {elements : List TypeHandle} (hk : host.kind h = .tuple elements)
    (hl : ∀ t ∈ elements, host.IsLinked r t) :
    Node host r h shown ↔ shown = host.image r h (.tuple elements) := by
  unfold Node
  rw [hk]
  cases shown with
  | tuple edges => simp [TypeHost.image, edges_iff hl]
  | _ => simp [TypeHost.image]

theorem node_typeParameter_iff {name : String} {constraint : Option TypeHandle}
    (hk : host.kind h = .typeParameter name constraint)
    (hl : ∀ t ∈ constraint, host.IsLinked r t) :
    Node host r h shown ↔ shown = host.image r h (.typeParameter constraint) := by
  unfold Node
  rw [hk]
  cases shown with
  | typeParameter edge => simp [TypeHost.image, optional_iff hl]
  | _ => simp [TypeHost.image]

theorem node_classExpression_iff {name : String} {instanceType : TypeHandle}
    (hk : host.kind h = .classExpression (some name) instanceType)
    (hl : host.IsLinked r instanceType) :
    Node host r h shown ↔ shown = host.image r h (.expression instanceType) := by
  unfold Node
  rw [hk]
  cases shown with
  | expression edge => simp [TypeHost.image, required_iff hl]
  | _ => simp [TypeHost.image]

end

/-- Whatever has a slot for every child type is shown by its image, and by nothing else. -/
theorem node_iff {shape : Shape} (hs : host.HasShape h shape)
    (hl : ∀ t ∈ host.childTypes h shape, host.IsLinked r t) {shown : NodeKind} :
    Node host r h shown ↔ shown = host.image r h shape := by
  cases hs.byKind with
  | classType hk => exact node_classType_iff hk hl
  | interfaceType hk => exact node_interfaceType_iff hk hl
  | typeLiteral hk => exact node_typeLiteral_iff hk hl
  | function hk =>
    rw [TypeHost.childTypes_function] at hl
    exact node_function_iff hk hl
  | array hk ha => exact node_array_iff hk ha (hl _ (by simp))
  | reference hk ha =>
    rw [TypeHost.childTypes_reference, List.forall_mem_cons] at hl
    exact node_reference_iff hk ha hl.1 hl.2
  | union hk =>
    rw [TypeHost.childTypes_union] at hl
    exact node_union_iff hk hl
  | intersection hk =>
    rw [TypeHost.childTypes_intersection] at hl
    exact node_intersection_iff hk hl
  | tuple hk =>
    rw [TypeHost.childTypes_tuple] at hl
    exact node_tuple_iff hk hl
  | typeParameter hk =>
    rw [TypeHost.childTypes_typeParameter] at hl
    exact node_typeParameter_iff hk fun t ht => hl t (Option.mem_toList.mpr ht)
  | classExpression hk => exact node_classExpression_iff hk (hl _ (by simp))

end Portrait

/-! ### Finished passes -/

/-- Every record of a pass shows its slot's type, as the registry has it now. -/
theorem Pass.Orderly.portrait {host : TypeHost} {p : Pass} {log : Pass.Log}
    {atHand : List SlotId} (ho : p.Orderly host log atHand) {n : TypeNode}
    (hn : n ∈ p.populations) :
    ∃ e, p.registry.entry? n.slot = some e ∧
      ∀ shown, Portrait.Node host p.registry e.handle shown ↔ shown = n.kind := by
  obtain ⟨e, he, -, hkind, hlinked⟩ := ho.drawn n hn
  have hshape := ho.serves.shaped e (Registry.mem_entries_of_entry he)
  refine ⟨e, he, fun shown => ?_⟩
  rw [hkind]
  exact Portrait.node_iff hshape hlinked

/-- Cataloguing a program comes to an end, and every record in the table then
shows the type of its slot, exactly as the rule says under the final registry. -/
theorem Program.portrait_of_mem_populations (program : Program) (options : CatalogOptions)
    (files : List SourceFile) :
    ∃ p : Pass,
      (∀ bound, program.typeCount ≤ bound →
        Pass.initial.run? program.host options bound files = some p) ∧
      ∀ n ∈ (p.finish options).table.populations, ∃ e, p.registry.entry? n.slot = some e ∧
        ∀ shown, Portrait.Node program.host p.registry e.handle shown ↔ shown = n.kind := by
  obtain ⟨p, hp⟩ := program.exists_run? (rfl : program.host.kind = _) options files
  have hkept : Pass.Kept program.host options fun log p => p.Orderly program.host log [] :=
    Pass.orderly_kept
  have ho := hkept.run Pass.orderly_initial (hp _ (Nat.le_refl _))
  exact ⟨p, hp, fun n hn => ho.portrait hn⟩

/-- An interface whose one call signature has one parameter, which takes no rest. -/
def Program.callable : Program where
  types := [.object .interfaceForm
    { ObjectShape.named "F" with call := [⟨[⟨"a", ⟨2⟩, false, false⟩], ⟨5⟩, []⟩] }]
  declarations := [⟨10⟩]
  files := [⟨"f.ts", [.interfaceDeclaration ⟨0⟩ (some "F")], false⟩]
  representatives := _
  no_problem := by decide
  representatives_eq := rfl

/-- The length of a signature is one less than the number of its parameters only
if the last of them takes the rest. -/
theorem Program.not_length_eq_pred :
    ¬ ∀ (program : Program) (options : CatalogOptions) (files : List SourceFile) (p : Pass),
      Pass.initial.run? program.host options program.typeCount files = some p →
      ∀ n ∈ p.populations, ∀ body, n.kind.body? = some body →
        ∀ s ∈ body.call, s.length = s.parameters.length - 1 := by
  intro h
  have hcalls : (Pass.initial.run? callable.host .default callable.typeCount callable.files).map
      (fun p => p.populations.map fun n => n.kind.body?.map ObjectBody.call) =
      some [some [⟨1, [⟨"a", .intrinsic .number⟩], false, .intrinsic .void, []⟩]] := by
    decide +kernel
  obtain ⟨p, hp, hcalls⟩ := Option.map_eq_some_iff.mp hcalls
  obtain ⟨n, hn, hbody⟩ : ∃ n ∈ p.populations, n.kind.body?.map ObjectBody.call =
      some [⟨1, [⟨"a", .intrinsic .number⟩], false, .intrinsic .void, []⟩] := by
    rw [← List.mem_map, hcalls]
    exact List.mem_singleton_self _
  obtain ⟨body, hbody, hcall⟩ := Option.map_eq_some_iff.mp hbody
  have hlength := h callable .default callable.files p hp n hn body hbody _
    (hcall ▸ List.mem_singleton_self _)
  cases hlength

end TypeCatalog
