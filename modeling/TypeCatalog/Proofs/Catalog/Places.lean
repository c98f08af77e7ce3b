/-
The places in which a type refers to others.

`TypeHost.childAt?` says, by the host's answers alone, which child type a type has
in a place, and under which label; a member or a parameter is counted where the host
lists it.  The positions of a type's shape go through its places, each of them once
(`TypeHost.enumerates_positions`).
-/
import TypeCatalog.Proofs.Catalog.Portrait
import TypeCatalog.Proofs.Enumeration

namespace TypeCatalog

/-! ### Places -/

/-- The places of a signature. -/
inductive SignaturePlace where
  | parameter (i : Nat)
  | returns
  | typeParameter (i : Nat)
  deriving DecidableEq

/-- The places of a type. -/
inductive TypePlace where
  | typeParameter (i : Nat)
  | member (i : Nat)
  | static (i : Nat)
  | signature (kind : SignatureKind) (i : Nat) (place : SignaturePlace)
  | base (i : Nat)
  | implemented (i : Nat)
  | element
  | target
  | argument (i : Nat)
  | constituent (i : Nat)
  | constraint
  | wrapped
  deriving DecidableEq

/-- The word for a kind of signature in the label of a place. -/
def SignatureKind.label : SignatureKind → String
  | .construct => "construct"
  | .call => "call"
  | .index => "index"

namespace Position

/-- The type at a place of a list. -/
def typeAt? (label : String) (types : List TypeHandle) (i : Nat) : Option Position :=
  types[i]?.map fun type => ⟨type, label⟩

/-- The member at a place of a list, if it belongs to the shape of an object. -/
def memberAt? (members : List HostMember) (i : Nat) : Option Position :=
  (members[i]?.filter (·.kind.isReflected)).map fun m => ⟨m.valueType, m.name⟩

/-- The type in a place of a signature. -/
def inSignature? (label : String) (s : HostSignature) : SignaturePlace → Option Position
  | .parameter i => s.parameters[i]?.map fun p => ⟨p.type, label ++ "(" ++ p.name ++ ")"⟩
  | .returns => some ⟨s.returns, label ++ ":returns"⟩
  | .typeParameter i => typeAt? "typeParameters" s.typeParameters i

/-- The type in a place of one of several signatures. -/
def inSignatures? (label : String) (ss : List HostSignature) (i : Nat) (place : SignaturePlace) :
    Option Position :=
  ss[i]?.bind fun s => inSignature? label s place

/-- The only child type of a type, if it has one. -/
def onlyAt? (only : TypePlace) (position : Option Position) (place : TypePlace) : Option Position :=
  if place = only then position else none

/-- The parts of a type that is made of others. -/
def constituentAt? (label : String) (types : List TypeHandle) : TypePlace → Option Position
  | .constituent i => typeAt? label types i
  | _ => none

end Position

namespace TypeHost

open Position

variable (host : TypeHost) (h : TypeHandle)

/-- The places that all object types have. -/
def bodyAt? : TypePlace → Option Position
  | .typeParameter i => typeAt? "typeParameters" (host.typeParameters h) i
  | .member i => memberAt? (host.members h) i
  | .signature kind i place => inSignatures? kind.label (host.signatures h kind) i place
  | _ => none

/-- The places of a class, which has no base but its first. -/
def classAt? : TypePlace → Option Position
  | .static i => memberAt? (host.statics h) i
  | .base i => typeAt? "extends" ((host.heritage h .extending).take 1) i
  | .implemented i => typeAt? "implements" (host.heritage h .implementing) i
  | place => host.bodyAt? h place

/-- The places of an interface. -/
def interfaceAt? : TypePlace → Option Position
  | .base i => typeAt? "extends" (host.heritage h .extending) i
  | place => host.bodyAt? h place

/-- The places of a function. -/
def functionAt? : TypePlace → Option Position
  | .signature .call i place => inSignatures? "signatures" (host.signatures h .call) i place
  | _ => none

/-- The places of a reference that is not an array. -/
def referenceAt? (target : TypeHandle) (typeArguments : List TypeHandle) :
    TypePlace → Option Position
  | .target => some ⟨target, "type"⟩
  | .argument i => typeAt? "typeArguments" typeArguments i
  | _ => none

/-- The child type that a type has in a place, with the label of the place. -/
def childAt? : TypePlace → Option Position :=
  match host.kind h with
  | .classType _ => host.classAt? h
  | .interfaceType _ => host.interfaceAt? h
  | .typeLiteral _ => host.bodyAt? h
  | .function _ => host.functionAt? h
  | .reference target typeArguments =>
    -- a reference with one argument to an array-like target is an array
    if typeArguments.length = 1 ∧ host.isArrayLike target = true then
      onlyAt? .element (typeAt? "elementType" typeArguments 0)
    else referenceAt? target typeArguments
  | .union types => constituentAt? "types" types
  | .intersection types => constituentAt? "types" types
  | .tuple elements => constituentAt? "elements" elements
  | .typeParameter _ constraint =>
    onlyAt? .constraint (constraint.map fun type => ⟨type, "constraint"⟩)
  | .classExpression (some _) instanceType => onlyAt? .wrapped (some ⟨instanceType, "type"⟩)
  | _ => fun _ => none

end TypeHost

/-! ### Lists of positions go through places -/

namespace Position

theorem enumerates_labelled (label : String) (types : List TypeHandle) :
    Enumerates (fun i position => typeAt? label types i = some position)
      (labelled label types) := by
  refine ((Enumerates.getElem types).map _).congr fun i position => ?_
  simp [typeAt?]

theorem enumerates_ofMembers (members : List HostMember) :
    Enumerates (fun i position => memberAt? members i = some position) (ofMembers members) := by
  have hreflected := (Enumerates.getElem members).filterMap (Option.guard (·.kind.isReflected))
  rw [List.filterMap_eq_filter] at hreflected
  refine (hreflected.map _).congr fun i position => ?_
  simp [memberAt?, Option.guard_eq_some_iff, Option.filter_eq_some_iff]

/-- A signature has its parameters, its result and its type parameters in different places. -/
theorem enumerates_ofSignature (label : String) (s : HostSignature) :
    Enumerates (fun place position => inSignature? label s place = some position)
      (ofSignature label s) := by
  have hparameters := ((Enumerates.getElem s.parameters).map fun p =>
    (⟨p.type, label ++ "(" ++ p.name ++ ")"⟩ : Position)).relabel
      (f := SignaturePlace.parameter) fun _ _ => SignaturePlace.parameter.inj
  have hreturns := hparameters.append
    (Enumerates.singleton SignaturePlace.returns ⟨s.returns, label ++ ":returns"⟩)
    (by rintro _ _ _ ⟨_, rfl, -⟩ ⟨hplace, -⟩; cases hplace)
  have hall := hreturns.appendUnder (f := SignaturePlace.typeParameter)
    (fun _ _ => SignaturePlace.typeParameter.inj)
    (enumerates_labelled "typeParameters" s.typeParameters) (by simp)
  rw [List.append_assoc] at hall
  refine hall.congr fun place position => ?_
  cases place <;> simp [inSignature?]

theorem enumerates_ofSignatures (label : String) (ss : List HostSignature) :
    Enumerates (fun (place : Nat × SignaturePlace) position =>
      inSignatures? label ss place.1 place.2 = some position) (ofSignatures label ss) := by
  refine (Enumerates.flatMap ss fun s _ => enumerates_ofSignature label s).congr ?_
  simp [inSignatures?, Option.bind_eq_some_iff]

theorem enumerates_onlyAt (only : TypePlace) (position : Option Position) :
    Enumerates (fun place p => onlyAt? only position place = some p) position.toList := by
  cases position with
  | none =>
    refine Enumerates.nil fun place p => ?_
    simp [onlyAt?]
  | some position =>
    refine (Enumerates.singleton only position).congr fun place p => ?_
    simp [onlyAt?]

theorem enumerates_constituents (label : String) (types : List TypeHandle) :
    Enumerates (fun place position => constituentAt? label types place = some position)
      (labelled label types) := by
  refine ((enumerates_labelled label types).relabel (f := TypePlace.constituent)
    fun _ _ => TypePlace.constituent.inj).congr fun place position => ?_
  cases place <;> simp [constituentAt?]

end Position

theorem TypePlace.signature_injective (kind : SignatureKind) :
    Function.Injective fun place : Nat × SignaturePlace =>
      TypePlace.signature kind place.1 place.2 := by
  rintro ⟨i, place⟩ ⟨j, place'⟩ h
  cases h
  rfl

namespace TypeHost

open Position

variable (host : TypeHost) (h : TypeHandle)

theorem enumerates_bodyPositions :
    Enumerates (fun place position => host.bodyAt? h place = some position)
      (host.bodyPositions h) := by
  have hsignatures := fun kind : SignatureKind =>
    enumerates_ofSignatures kind.label (host.signatures h kind)
  have htypes := (enumerates_labelled "typeParameters" (host.typeParameters h)).relabel
    (f := TypePlace.typeParameter) fun _ _ => TypePlace.typeParameter.inj
  have hmembers := htypes.appendUnder (f := TypePlace.member)
    (fun _ _ => TypePlace.member.inj) (enumerates_ofMembers (host.members h)) (by simp)
  have hall := hmembers
    |>.appendUnder (TypePlace.signature_injective .construct) (hsignatures .construct) (by simp)
    |>.appendUnder (TypePlace.signature_injective .call) (hsignatures .call) (by simp)
    |>.appendUnder (TypePlace.signature_injective .index) (hsignatures .index) (by simp)
  refine hall.congr fun place position => ?_
  cases place with
  | signature kind i place => cases kind <;> simp [bodyAt?]
  | _ => simp [bodyAt?]

theorem enumerates_class :
    Enumerates (fun place position => host.classAt? h place = some position)
      (host.positions h .classShape) := by
  have hfirst : (host.heritage h .extending).take 1 = (host.base? h).toList := by
    rw [base?]
    cases host.heritage h .extending <;> rfl
  have hstatics := (host.enumerates_bodyPositions h).appendUnder (f := TypePlace.static)
    (fun _ _ => TypePlace.static.inj) (enumerates_ofMembers (host.statics h)) (by simp [bodyAt?])
  have hbase := hstatics.appendUnder (f := TypePlace.base) (fun _ _ => TypePlace.base.inj)
    (enumerates_labelled "extends" (host.base? h).toList) (by simp [bodyAt?])
  have hall := hbase.appendUnder (f := TypePlace.implemented)
    (fun _ _ => TypePlace.implemented.inj)
    (enumerates_labelled "implements" (host.heritage h .implementing)) (by simp [bodyAt?])
  refine hall.congr fun place position => ?_
  cases place <;> simp [classAt?, bodyAt?, hfirst]

theorem enumerates_interface :
    Enumerates (fun place position => host.interfaceAt? h place = some position)
      (host.positions h .interfaceShape) := by
  have hall := (host.enumerates_bodyPositions h).appendUnder (f := TypePlace.base)
    (fun _ _ => TypePlace.base.inj)
    (enumerates_labelled "extends" (host.heritage h .extending)) (by simp [bodyAt?])
  refine hall.congr fun place position => ?_
  cases place <;> simp [interfaceAt?, bodyAt?]

theorem enumerates_function :
    Enumerates (fun place position => host.functionAt? h place = some position)
      (host.positions h .function) := by
  refine ((enumerates_ofSignatures "signatures" (host.signatures h .call)).relabel
    (TypePlace.signature_injective .call)).congr fun place position => ?_
  cases place with
  | signature kind i place => cases kind <;> simp [functionAt?]
  | _ => simp [functionAt?]

theorem enumerates_reference (target : TypeHandle) (typeArguments : List TypeHandle) :
    Enumerates (fun place position => referenceAt? target typeArguments place = some position)
      (host.positions h (.reference target typeArguments)) := by
  have hall := (Enumerates.singleton TypePlace.target (⟨target, "type"⟩ : Position)).appendUnder
    (f := TypePlace.argument) (fun _ _ => TypePlace.argument.inj)
    (enumerates_labelled "typeArguments" typeArguments) (by simp)
  refine hall.congr fun place position => ?_
  cases place <;> simp [referenceAt?]

variable {host h}

/-- The positions of a shape go through the places of the type, each of them once. -/
theorem enumerates_positions {shape : Shape} (hs : host.HasShape h shape) :
    Enumerates (fun place position => host.childAt? h place = some position)
      (host.positions h shape) := by
  unfold childAt?
  cases hs.byKind with
  | classType hk =>
    rw [hk]
    exact host.enumerates_class h
  | interfaceType hk =>
    rw [hk]
    exact host.enumerates_interface h
  | typeLiteral hk =>
    rw [hk]
    exact host.enumerates_bodyPositions h
  | function hk =>
    rw [hk]
    exact host.enumerates_function h
  | @array target element hk ha =>
    rw [hk]
    dsimp only
    rw [if_pos ⟨rfl, ha.2⟩]
    exact enumerates_onlyAt .element (some ⟨element, "elementType"⟩)
  | @reference target arguments hk ha =>
    have hplain : ¬ (arguments.length = 1 ∧ host.isArrayLike target = true) :=
      fun h => ha ⟨List.length_eq_one_iff.mp h.1, h.2⟩
    rw [hk]
    dsimp only
    rw [if_neg hplain]
    exact host.enumerates_reference h target arguments
  | @union types hk =>
    rw [hk]
    exact enumerates_constituents "types" types
  | @intersection types hk =>
    rw [hk]
    exact enumerates_constituents "types" types
  | @tuple elements hk =>
    rw [hk]
    exact enumerates_constituents "elements" elements
  | @typeParameter name constraint hk =>
    have hlist : host.positions h (.typeParameter constraint)
        = (constraint.map fun type => (⟨type, "constraint"⟩ : Position)).toList := by
      cases constraint <;> rfl
    rw [hk, hlist]
    exact enumerates_onlyAt .constraint _
  | @classExpression name instanceType hk =>
    rw [hk]
    exact enumerates_onlyAt .wrapped (some ⟨instanceType, "type"⟩)

end TypeHost

end TypeCatalog
