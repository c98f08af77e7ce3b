/-
Which parts make up a program.

A type may mention others in many positions (`TypeData.Mentions`), and statements
may name declarations at any depth of namespaces (`Statement.Names`).  Parts are
supplied (`Program.Supplied`) if every handle and every declaration that occurs
anywhere in them is there.  The checks that parts go through look into all of these
positions, each in its own order, and so parts make up a program exactly if they are
supplied (`Program.ofParts?_ok_iff`).
-/
import Mathlib.Data.Option.Basic
import TypeCatalog.Proofs.Catalog.Reachable
import TypeCatalog.Proofs.Program.Codec

namespace TypeCatalog

/-! ### Where handles and declarations occur -/

/-- The types that occur in the shape of an object type. -/
inductive ObjectShape.Mentions (shape : ObjectShape) : TypeHandle → Prop where
  | typeParameter {t : TypeHandle} : t ∈ shape.typeParameters → Mentions shape t
  | member {m : HostMember} : m ∈ shape.members → Mentions shape m.valueType
  | static {m : HostMember} : m ∈ shape.statics → Mentions shape m.valueType
  | signature (kind : SignatureKind) {s : HostSignature} {t : TypeHandle} :
      s ∈ shape.signatures kind → s.Refers t → Mentions shape t
  | heritage (kind : HeritageKind) {t : TypeHandle} : t ∈ shape.heritage kind → Mentions shape t

/-- The types that occur in a type, in whatever position. -/
inductive TypeData.Mentions : TypeData → TypeHandle → Prop where
  | shape {form : ObjectForm} {shape : ObjectShape} {t : TypeHandle} :
      shape.Mentions t → Mentions (.object form shape) t
  | target {target : TypeHandle} {typeArguments : List TypeHandle} :
      Mentions (.reference target typeArguments) target
  | argument {target t : TypeHandle} {typeArguments : List TypeHandle} :
      t ∈ typeArguments → Mentions (.reference target typeArguments) t
  | unionPart {t : TypeHandle} {types : List TypeHandle} : t ∈ types → Mentions (.union types) t
  | intersectionPart {t : TypeHandle} {types : List TypeHandle} :
      t ∈ types → Mentions (.intersection types) t
  | tuplePart {t : TypeHandle} {elements : List TypeHandle} :
      t ∈ elements → Mentions (.tuple elements) t
  | signature {name : Option String} {signatures : List HostSignature} {s : HostSignature}
      {t : TypeHandle} : s ∈ signatures → s.Refers t → Mentions (.function name signatures) t
  | inner {name : Option String} {instanceType : TypeHandle} :
      Mentions (.classExpression name instanceType) instanceType
  | constraint {name : String} {t : TypeHandle} : Mentions (.typeParameter name (some t)) t

/-- The declarations that a statement names, itself or in a namespace inside it. -/
inductive Statement.Names : Statement → DeclId → Prop where
  | classDeclaration {d : DeclId} {name : Option String} : Names (.classDeclaration d name) d
  | interfaceDeclaration {d : DeclId} {name : Option String} :
      Names (.interfaceDeclaration d name) d
  | typeAlias {d : DeclId} {name : String} : Names (.typeAlias d name) d
  | inside {d : DeclId} {name : String} {body : List Statement} {s : Statement} :
      s ∈ body → Names s d → Names (.nameSpace name body) d

/-- All that occurs in some parts is there. -/
structure Program.Supplied (arena : List TypeData) (declarations : List TypeHandle)
    (files : List SourceFile) : Prop where
  types : ∀ data ∈ arena, ∀ t, data.Mentions t → t.index < arena.length
  declared : ∀ t ∈ declarations, t.index < arena.length
  statements : ∀ file ∈ files, ∀ s ∈ file.statements, ∀ d, s.Names d →
    d.index < declarations.length

/-! ### What the checks look at -/

variable {t : TypeHandle} {d : DeclId}

theorem ObjectShape.mem_handles {shape : ObjectShape} : t ∈ shape.handles ↔ shape.Mentions t := by
  simp only [ObjectShape.handles, List.map_append, List.flatMap_append, List.mem_append,
    List.mem_map, List.mem_flatMap, TypeHost.mem_handles_iff]
  constructor
  · rintro ((((ht | ⟨m, hm, rfl⟩ | ⟨m, hm, rfl⟩) | (⟨s, hs, ht⟩ | ⟨s, hs, ht⟩) | ⟨s, hs, ht⟩) | ht)
      | ht)
    · exact .typeParameter ht
    · exact .member hm
    · exact .static hm
    · exact .signature .call hs ht
    · exact .signature .construct hs ht
    · exact .signature .index hs ht
    · exact .heritage .extending ht
    · exact .heritage .implementing ht
  · intro ht
    cases ht with
    | typeParameter ht => exact .inl (.inl (.inl (.inl ht)))
    | member hm => exact .inl (.inl (.inl (.inr (.inl ⟨_, hm, rfl⟩))))
    | static hm => exact .inl (.inl (.inl (.inr (.inr ⟨_, hm, rfl⟩))))
    | @signature kind s _ hs ht =>
      refine .inl (.inl (.inr ?_))
      cases kind with
      | call => exact .inl (.inl ⟨s, hs, ht⟩)
      | construct => exact .inl (.inr ⟨s, hs, ht⟩)
      | index => exact .inr ⟨s, hs, ht⟩
    | heritage kind ht =>
      cases kind with
      | extending => exact .inl (.inr ht)
      | implementing => exact .inr ht

theorem TypeData.mem_handles {data : TypeData} : t ∈ data.handles ↔ data.Mentions t := by
  constructor
  · intro ht
    cases data with
    | intrinsic k => cases ht
    | literal value => cases ht
    | object form shape => exact .shape (ObjectShape.mem_handles.mp ht)
    | reference target typeArguments =>
      rcases List.mem_cons.mp ht with rfl | ht
      · exact .target
      · exact .argument ht
    | union types => exact .unionPart ht
    | intersection types => exact .intersectionPart ht
    | tuple elements => exact .tuplePart ht
    | function name signatures =>
      obtain ⟨s, hs, ht⟩ := List.mem_flatMap.mp ht
      exact .signature hs (TypeHost.mem_handles_iff.mp ht)
    | classExpression name instanceType =>
      cases List.mem_singleton.mp ht
      exact .inner
    | typeParameter name constraint =>
      cases Option.mem_toList.mp ht
      exact .constraint
    | unmodelled description => cases ht
  · intro ht
    cases ht with
    | shape ht => exact ObjectShape.mem_handles.mpr ht
    | target => exact List.mem_cons_self
    | argument ht => exact List.mem_cons_of_mem _ ht
    | unionPart ht => exact ht
    | intersectionPart ht => exact ht
    | tuplePart ht => exact ht
    | signature hs ht => exact List.mem_flatMap.mpr ⟨_, hs, TypeHost.mem_handles_iff.mpr ht⟩
    | inner => exact List.mem_singleton.mpr rfl
    | constraint => exact List.mem_singleton.mpr rfl

namespace Statement

theorem names_of_mem_declarations : ∀ s : Statement, d ∈ s.declarations → s.Names d
  | nameSpace name body, hd => by
    rw [declarations, listDeclarations_eq_flatMap] at hd
    obtain ⟨s, hs, hd⟩ := List.mem_flatMap.mp hd
    exact .inside hs (names_of_mem_declarations s hd)
  | classDeclaration decl name, hd => by
    cases List.mem_singleton.mp hd
    exact .classDeclaration
  | interfaceDeclaration decl name, hd => by
    cases List.mem_singleton.mp hd
    exact .interfaceDeclaration
  | typeAlias decl name, hd => by
    cases List.mem_singleton.mp hd
    exact .typeAlias
  | other, hd => by cases hd

theorem Names.mem_declarations {s : Statement} (hd : s.Names d) : d ∈ s.declarations := by
  induction hd with
  | classDeclaration => exact List.mem_singleton.mpr rfl
  | interfaceDeclaration => exact List.mem_singleton.mpr rfl
  | typeAlias => exact List.mem_singleton.mpr rfl
  | inside hs _ ih =>
    rw [declarations, listDeclarations_eq_flatMap]
    exact List.mem_flatMap.mpr ⟨_, hs, ih⟩

theorem mem_listDeclarations {ss : List Statement} :
    d ∈ listDeclarations ss ↔ ∃ s ∈ ss, s.Names d := by
  rw [listDeclarations_eq_flatMap, List.mem_flatMap]
  exact exists_congr fun s => and_congr_right fun _ =>
    ⟨names_of_mem_declarations s, Names.mem_declarations⟩

end Statement

/-! ### Parts that make up a program -/

namespace Program

variable {arena types : List TypeData} {declarations : List TypeHandle} {files : List SourceFile}
  {size count : Nat}

theorem danglingType?_eq_none_iff {handle : Nat} :
    danglingType? size handle arena = none ↔
      ∀ data ∈ arena, ∀ t ∈ data.handles, t.index < size := by
  induction arena generalizing handle with
  | nil => simp [danglingType?]
  | cons data rest ih =>
    rw [danglingType?, List.forall_mem_cons]
    cases hf : data.handles.find? (size ≤ ·.index) with
    | some target =>
      have hle : size ≤ target.index := by simpa using List.find?_some hf
      refine ⟨nofun, fun h => ?_⟩
      have hlt := h.1 target (List.mem_of_find?_eq_some hf)
      omega
    | none =>
      have hhandles : ∀ t ∈ data.handles, t.index < size := by simpa using hf
      rw [ih]
      exact ⟨fun h => ⟨hhandles, h⟩, And.right⟩

theorem danglingDeclaration?_eq_none_iff {decl : Nat} :
    danglingDeclaration? size decl declarations = none ↔
      ∀ t ∈ declarations, t.index < size := by
  induction declarations generalizing decl with
  | nil => simp [danglingDeclaration?]
  | cons target rest ih =>
    rw [danglingDeclaration?, List.forall_mem_cons]
    split
    · refine ⟨nofun, fun h => ?_⟩
      omega
    · rw [ih]
      refine ⟨fun h => ⟨by omega, h⟩, And.right⟩

theorem unknownDeclaration?_eq_none_iff :
    unknownDeclaration? count files = none ↔
      ∀ file ∈ files, ∀ d ∈ Statement.listDeclarations file.statements, d.index < count := by
  induction files with
  | nil => simp [unknownDeclaration?]
  | cons file rest ih =>
    rw [unknownDeclaration?, List.forall_mem_cons]
    cases hf : (Statement.listDeclarations file.statements).find? (count ≤ ·.index) with
    | some decl =>
      have hle : count ≤ decl.index := by simpa using List.find?_some hf
      refine ⟨nofun, fun h => ?_⟩
      have hlt := h.1 decl (List.mem_of_find?_eq_some hf)
      omega
    | none =>
      have hnamed : ∀ d ∈ Statement.listDeclarations file.statements, d.index < count := by
        simpa using hf
      rw [ih]
      exact ⟨fun h => ⟨hnamed, h⟩, And.right⟩

/-- The checks find nothing exactly if nothing is missing. -/
theorem firstProblem?_eq_none_iff :
    firstProblem? arena declarations files = none ↔ Supplied arena declarations files := by
  rw [firstProblem?, Option.orElse_eq_none, Option.orElse_eq_none, danglingType?_eq_none_iff,
    danglingDeclaration?_eq_none_iff, unknownDeclaration?_eq_none_iff]
  constructor
  · rintro ⟨htypes, hdeclarations, hstatements⟩
    refine ⟨fun data hdata t ht => ?_, hdeclarations, fun file hfile s hs d hd => ?_⟩
    · exact htypes data hdata t (TypeData.mem_handles.mpr ht)
    · exact hstatements file hfile d (Statement.mem_listDeclarations.mpr ⟨s, hs, hd⟩)
  · intro h
    refine ⟨fun data hdata t ht => ?_, h.declared, fun file hfile d hd => ?_⟩
    · exact h.types data hdata t (TypeData.mem_handles.mp ht)
    · obtain ⟨s, hs, hd⟩ := Statement.mem_listDeclarations.mp hd
      exact h.statements file hfile s hs d hd

theorem supplied (p : Program) : Supplied p.arena p.declarations p.files :=
  firstProblem?_eq_none_iff.mp p.no_problem

/-- A program has the parts that it was made of. -/
theorem parts_of_ofParts? {p : Program} (hp : ofParts? types declarations files = .ok p) :
    p.types = types ∧ p.declarations = declarations ∧ p.files = files := by
  unfold ofParts? at hp
  split at hp
  · cases hp
  · cases hp
    exact ⟨rfl, rfl, rfl⟩

/-- Parts make up a program exactly if they are supplied. -/
theorem ofParts?_ok_iff :
    (∃ p, ofParts? types declarations files = .ok p) ↔
      Supplied (TypeData.intrinsics ++ types) declarations files := by
  rw [← firstProblem?_eq_none_iff]
  unfold ofParts?
  split
  · rename_i problem hproblem
    rw [hproblem]
    exact ⟨nofun, nofun⟩
  · rename_i hnone
    exact ⟨fun _ => hnone, fun _ => ⟨_, rfl⟩⟩

end Program

end TypeCatalog
