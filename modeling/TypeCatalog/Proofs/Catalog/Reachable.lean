/-
The types that have slots are those that can be reached.

`TypeHost.Refers` says, by the host's answers alone, which types a type refers
to in its record; a type that has a shape refers to exactly the child types of
this shape (`TypeHost.refers_iff`).  `Reachable` is the least set that holds the
representatives of what is declared in a tree and, with a type, those of the
types it refers to, as far as they can be catalogued.

Every entry is that of a declared type or of one that another entry's type refers to,
so what such entries hand on to each other holds of all of them
(`Pass.HandedOn.run`).  No other type gets a slot, and at the end of a run none of
these is without one: the types that have slots are the reachable ones
(`Program.lookup_iff_reachable`).
-/
import TypeCatalog.Proofs.Catalog.Declaration
import TypeCatalog.Proofs.Catalog.Portrait

namespace TypeCatalog

/-! ### What can be reached -/

/-- A signature refers to the types of its parameters, its result and its type parameters. -/
inductive HostSignature.Refers (s : HostSignature) : TypeHandle → Prop where
  | parameter {p} : p ∈ s.parameters → Refers s p.type
  | returns : Refers s s.returns
  | typeParameter {t} : t ∈ s.typeParameters → Refers s t

namespace TypeHost

/-- What every object type refers to. -/
inductive BodyRefers (host : TypeHost) (h : TypeHandle) : TypeHandle → Prop where
  | typeParameter {t} : t ∈ host.typeParameters h → BodyRefers host h t
  | member {m} : m ∈ host.members h → m.kind.isReflected = true → BodyRefers host h m.valueType
  | signature {kind s t} : s ∈ host.signatures h kind → s.Refers t → BodyRefers host h t

/-- The types to which a type refers in its record. -/
inductive Refers (host : TypeHost) (h : TypeHandle) : TypeHandle → Prop where
  | classBody {name t} : host.kind h = .classType name → host.BodyRefers h t → Refers host h t
  | static {name m} : host.kind h = .classType name → m ∈ host.statics h →
      m.kind.isReflected = true → Refers host h m.valueType
  | firstBase {name t rest} : host.kind h = .classType name →
      host.heritage h .extending = t :: rest → Refers host h t
  | implemented {name t} : host.kind h = .classType name → t ∈ host.heritage h .implementing →
      Refers host h t
  | interfaceBody {name t} : host.kind h = .interfaceType name → host.BodyRefers h t →
      Refers host h t
  | base {name t} : host.kind h = .interfaceType name → t ∈ host.heritage h .extending →
      Refers host h t
  | literalBody {name t} : host.kind h = .typeLiteral name → host.BodyRefers h t → Refers host h t
  | signature {name s t} : host.kind h = .function name → s ∈ host.signatures h .call →
      s.Refers t → Refers host h t
  | element {target t} : host.kind h = .reference target [t] →
      Portrait.IsArray host target [t] → Refers host h t
  | target {t arguments} : host.kind h = .reference t arguments →
      ¬ Portrait.IsArray host t arguments → Refers host h t
  | argument {target arguments t} : host.kind h = .reference target arguments →
      ¬ Portrait.IsArray host target arguments → t ∈ arguments → Refers host h t
  | unionPart {types t} : host.kind h = .union types → t ∈ types → Refers host h t
  | intersectionPart {types t} : host.kind h = .intersection types → t ∈ types → Refers host h t
  | tuplePart {elements t} : host.kind h = .tuple elements → t ∈ elements → Refers host h t
  | constraint {name t} : host.kind h = .typeParameter name (some t) → Refers host h t
  | instance {name t} : host.kind h = .classExpression (some name) t → Refers host h t

end TypeHost

/-- What is declared in a tree, and all that it leads to. -/
inductive Reachable (host : TypeHost) (tree : PackageTree) : TypeHandle → Prop where
  | declared {node name kind decl} : node ∈ tree.nodes → node.types.get? (name, kind) = some decl →
      (host.kindOf (host.resolve decl)).IsSupported →
      Reachable host tree (host.canonical (host.resolve decl))
  | child {h t} : Reachable host tree h → host.Refers h t → (host.kindOf t).IsSupported →
      Reachable host tree (host.canonical t)

namespace TypeHost

variable {host : TypeHost} {h t : TypeHandle} {shape : Shape}

/-! ### Child types -/

theorem mem_handles_iff {s : HostSignature} : t ∈ s.handles ↔ s.Refers t := by
  simp only [HostSignature.handles, List.mem_append, List.mem_map, List.mem_cons]
  constructor
  · rintro (⟨p, hp, rfl⟩ | rfl | ht)
    · exact .parameter hp
    · exact .returns
    · exact .typeParameter ht
  · rintro (hp | _ | ht)
    · exact .inl ⟨_, hp, rfl⟩
    · exact .inr (.inl rfl)
    · exact .inr (.inr ht)

theorem mem_signatureTypes_iff {kind : SignatureKind} :
    t ∈ host.signatureTypes h kind ↔ ∃ s ∈ host.signatures h kind, s.Refers t := by
  simp only [signatureTypes, List.mem_flatMap, mem_handles_iff]

theorem mem_memberTypes_iff {ms : List HostMember} :
    t ∈ memberTypes ms ↔ ∃ m ∈ ms, m.kind.isReflected = true ∧ m.valueType = t := by
  simp only [memberTypes, List.mem_map, List.mem_filter, and_assoc]

theorem mem_bodyTypes_iff : t ∈ host.bodyTypes h ↔ host.BodyRefers h t := by
  simp only [bodyTypes_eq, List.mem_append, mem_memberTypes_iff, mem_signatureTypes_iff]
  constructor
  · rintro ((((ht | ⟨m, hm, hk, rfl⟩) | ⟨s, hs, ht⟩) | ⟨s, hs, ht⟩) | ⟨s, hs, ht⟩)
    · exact .typeParameter ht
    · exact .member hm hk
    all_goals exact .signature hs ht
  · rintro (ht | ⟨hm, hk⟩ | @⟨kind, s, _, hs, ht⟩)
    · exact .inl (.inl (.inl (.inl ht)))
    · exact .inl (.inl (.inl (.inr ⟨_, hm, hk, rfl⟩)))
    · cases kind with
      | construct => exact .inl (.inl (.inr ⟨s, hs, ht⟩))
      | call => exact .inl (.inr ⟨s, hs, ht⟩)
      | index => exact .inr ⟨s, hs, ht⟩

/-! ### One kind of type after the other -/

section

variable {name : Option String}

theorem refers_classType_iff (hk : host.kind h = .classType name) :
    host.Refers h t ↔ t ∈ host.childTypes h .classShape := by
  simp only [childTypes_classShape, List.mem_append, mem_bodyTypes_iff, mem_memberTypes_iff,
    base?, Option.mem_toList, List.head?_eq_some_iff]
  constructor
  · intro hr
    cases hr with
    | classBody _ hb => exact .inl (.inl (.inl hb))
    | static _ hm hr => exact .inl (.inl (.inr ⟨_, hm, hr, rfl⟩))
    | firstBase _ hb => exact .inl (.inr ⟨_, hb⟩)
    | implemented _ hi => exact .inr hi
    | _ => simp_all
  · rintro (((hb | ⟨m, hm, hr, rfl⟩) | ⟨rest, hb⟩) | hi)
    · exact .classBody hk hb
    · exact .static hk hm hr
    · exact .firstBase hk hb
    · exact .implemented hk hi

theorem refers_interfaceType_iff (hk : host.kind h = .interfaceType name) :
    host.Refers h t ↔ t ∈ host.childTypes h .interfaceShape := by
  simp only [childTypes_interfaceShape, List.mem_append, mem_bodyTypes_iff]
  constructor
  · intro hr
    cases hr with
    | interfaceBody _ hb => exact .inl hb
    | base _ hb => exact .inr hb
    | _ => simp_all
  · rintro (hb | hb)
    · exact .interfaceBody hk hb
    · exact .base hk hb

theorem refers_typeLiteral_iff (hk : host.kind h = .typeLiteral name) :
    host.Refers h t ↔ t ∈ host.childTypes h .typeLiteral := by
  rw [childTypes_typeLiteral, mem_bodyTypes_iff]
  refine ⟨fun hr => ?_, .literalBody hk⟩
  cases hr with
  | literalBody _ hb => exact hb
  | _ => simp_all

theorem refers_function_iff (hk : host.kind h = .function name) :
    host.Refers h t ↔ t ∈ host.childTypes h .function := by
  rw [childTypes_function, mem_signatureTypes_iff]
  constructor
  · intro hr
    cases hr with
    | signature _ hs hr => exact ⟨_, hs, hr⟩
    | _ => simp_all
  · rintro ⟨s, hs, hr⟩
    exact .signature hk hs hr

theorem refers_array_iff {target element : TypeHandle}
    (hk : host.kind h = .reference target [element])
    (ha : Portrait.IsArray host target [element]) :
    host.Refers h t ↔ t ∈ host.childTypes h (.array element) := by
  rw [childTypes_array, List.mem_singleton]
  constructor
  · intro hr
    cases hr <;> simp_all
  · rintro rfl
    exact .element hk ha

theorem refers_reference_iff {target : TypeHandle} {arguments : List TypeHandle}
    (hk : host.kind h = .reference target arguments)
    (ha : ¬ Portrait.IsArray host target arguments) :
    host.Refers h t ↔ t ∈ host.childTypes h (.reference target arguments) := by
  rw [childTypes_reference, List.mem_cons]
  constructor
  · intro hr
    cases hr <;> simp_all
  · rintro (rfl | ht)
    · exact .target hk ha
    · exact .argument hk ha ht

theorem refers_union_iff {types : List TypeHandle} (hk : host.kind h = .union types) :
    host.Refers h t ↔ t ∈ host.childTypes h (.union types) := by
  rw [childTypes_union]
  refine ⟨fun hr => ?_, .unionPart hk⟩
  cases hr <;> simp_all

theorem refers_intersection_iff {types : List TypeHandle}
    (hk : host.kind h = .intersection types) :
    host.Refers h t ↔ t ∈ host.childTypes h (.intersection types) := by
  rw [childTypes_intersection]
  refine ⟨fun hr => ?_, .intersectionPart hk⟩
  cases hr <;> simp_all

theorem refers_tuple_iff {elements : List TypeHandle} (hk : host.kind h = .tuple elements) :
    host.Refers h t ↔ t ∈ host.childTypes h (.tuple elements) := by
  rw [childTypes_tuple]
  refine ⟨fun hr => ?_, .tuplePart hk⟩
  cases hr <;> simp_all

theorem refers_typeParameter_iff {name : String} {constraint : Option TypeHandle}
    (hk : host.kind h = .typeParameter name constraint) :
    host.Refers h t ↔ t ∈ host.childTypes h (.typeParameter constraint) := by
  rw [childTypes_typeParameter, Option.mem_toList]
  constructor
  · intro hr
    cases hr <;> simp_all
  · rintro rfl
    exact .constraint hk

theorem refers_classExpression_iff {name : String} {instanceType : TypeHandle}
    (hk : host.kind h = .classExpression (some name) instanceType) :
    host.Refers h t ↔ t ∈ host.childTypes h (.expression instanceType) := by
  rw [childTypes_expression, List.mem_singleton]
  constructor
  · intro hr
    cases hr <;> simp_all
  · rintro rfl
    exact .instance hk

end

/-- A type refers to the child types of its shape. -/
theorem refers_iff (hs : host.HasShape h shape) :
    host.Refers h t ↔ t ∈ host.childTypes h shape := by
  cases hs.byKind with
  | classType hk => exact refers_classType_iff hk
  | interfaceType hk => exact refers_interfaceType_iff hk
  | typeLiteral hk => exact refers_typeLiteral_iff hk
  | function hk => exact refers_function_iff hk
  | array hk ha => exact refers_array_iff hk ha
  | reference hk ha => exact refers_reference_iff hk ha
  | union hk => exact refers_union_iff hk
  | intersection hk => exact refers_intersection_iff hk
  | tuple hk => exact refers_tuple_iff hk
  | typeParameter hk => exact refers_typeParameter_iff hk
  | classExpression hk => exact refers_classExpression_iff hk

/-- Only a type that has a record refers to others. -/
theorem Refers.isSupported (hr : host.Refers h t) : (host.kind h).IsSupported := by
  refine ⟨?_, ?_⟩
  · intro hu
    cases hr <;> simp_all [TypeKind.IsUnsupported]
  · intro k hk
    cases hr <;> simp_all

/-- Types with one representative are catalogued as the same. -/
theorem classify_eq_of_canonical_eq {type : TypeHandle}
    (he : host.canonical t = host.canonical type) :
    host.classify t = host.classify type := by
  rw [classify, classify, he]

/-- What has a shape can be catalogued. -/
theorem isSupported_of_classify {type : TypeHandle} {name : Option String}
    (hc : host.classify type = .shape h name shape) : (host.kindOf type).IsSupported := by
  obtain ⟨k, -, hc'⟩ | ⟨-, reason, hc'⟩ | ⟨hs, -⟩ := host.classify_cases type
  · rw [hc] at hc'
    cases hc'
  · rw [hc] at hc'
    cases hc'
  · exact hs

/-- What can be catalogued has a shape. -/
theorem classify_of_isSupported {type : TypeHandle} (hs : (host.kindOf type).IsSupported) :
    ∃ name shape, host.classify type = .shape (host.canonical type) name shape := by
  obtain ⟨k, hk, -⟩ | ⟨hu, -⟩ | ⟨-, hc⟩ := host.classify_cases type
  · exact absurd hk (hs.2 k)
  · exact absurd hu hs.1
  · exact hc

end TypeHost

namespace Pass

variable {host : TypeHost} {options : CatalogOptions} {tree : PackageTree} {p q : Pass}
  {log : Log} {files : List SourceFile} {h t : TypeHandle} {bound : Nat}

/-! ### Nothing else gets a slot -/

/-- An orderly pass that has given slots to reachable types alone. -/
structure Confined (host : TypeHost) (tree : PackageTree) (log : Log) (p : Pass) : Prop where
  orderly : p.Orderly host log []
  reachable : ∀ e ∈ p.registry.entries, Reachable host tree e.handle

/-- A record gives slots only to types that its own type refers to, and describes
them by what they are catalogued as. -/
theorem mem_entries_settle (hs : p.registry.Serves host) {slot : SlotId} {e : Entry}
    (he : e ∈ (p.settle host slot).registry.entries) :
    e ∈ p.registry.entries ∨ ∃ e', p.registry.entry? slot = some e' ∧
      ∃ t, host.Refers e'.handle t ∧ host.classify t = .shape e.handle e.name e.shape := by
  obtain hsame | ⟨e', he', hmade⟩ := settle_cases host p slot
  · rw [hsame] at he
    exact .inl he
  · obtain ⟨news, hentries, -, hnews⟩ := (survey_since hs e').news
    rw [hmade] at he
    change e ∈ (p.survey host e').registry.entries at he
    rw [hentries] at he
    rcases List.mem_append.mp he with he | he
    · exact .inl he
    · obtain ⟨c, hc, hclass⟩ := hnews e he
      have hshape := hs.shaped e' (Registry.mem_entries_of_entry he')
      refine .inr ⟨e', he', c.type, ?_, hclass⟩
      exact (TypeHost.refers_iff hshape).mpr (List.mem_map_of_mem hc)

/-- A property holds of the entries that declarations make, and an entry hands it on to
those of the types it refers to. -/
structure HandedOn (host : TypeHost) (declarations : List (DeclId × String)) (P : Entry → Prop) :
    Prop where
  declared : ∀ {decl label h name shape}, (decl, label) ∈ declarations →
    host.classify (host.resolve decl) = .shape h name shape → P ⟨h, some label, shape⟩
  referred : ∀ {e t h name shape}, P e → host.Refers e.handle t →
    host.classify t = .shape h name shape → P ⟨h, name, shape⟩

variable {P : Entry → Prop} {declarations : List (DeclId × String)} {decl : DeclId}

theorem HandedOn.settle (hh : HandedOn host declarations P) (hs : p.registry.Serves host)
    (hP : ∀ e ∈ p.registry.entries, P e) (slot : SlotId) :
    ∀ e ∈ (p.settle host slot).registry.entries, P e := by
  intro e he
  rcases mem_entries_settle hs he with he | ⟨e', he', t, hrefers, hclass⟩
  · exact hP e he
  · exact hh.referred (hP e' (Registry.mem_entries_of_entry he')) hrefers hclass

/-- A declaration brings in no entry but that of its type. -/
theorem mem_entries_assign {label : String} {h : TypeHandle} {shape : Shape} {e : Entry}
    (he : e ∈ (p.assign decl label h shape).registry.entries) :
    e ∈ p.registry.entries ∨ e = ⟨h, some label, shape⟩ := by
  obtain ⟨slot, -, hi⟩ | ⟨-, hi⟩ := p.registry.identify_cases h (some label) shape
  · rw [Pass.assign, hi] at he
    exact .inl he
  · rw [Pass.assign, hi] at he
    exact (List.mem_append.mp he).imp_right List.mem_singleton.mp

theorem HandedOn.declare (hh : HandedOn host declarations P) (ho : p.Orderly host log [])
    (hP : ∀ e ∈ p.registry.entries, P e) {label : String} (hd : (decl, label) ∈ declarations) :
    ∀ e ∈ (p.declare host decl label).registry.entries, P e := by
  obtain ⟨-, report, he⟩ | ⟨h, name, shape, hc, he⟩ := declare_cases host p decl label
  · rw [he]
    exact hP
  · rw [he]
    refine hh.settle (ho.assign hc label).serves ?_ _
    intro e hmem
    rcases mem_entries_assign hmem with hmem | rfl
    · exact hP e hmem
    · exact hh.declared hd hc

/-- What is handed on holds of all entries at the end of a run. -/
theorem HandedOn.run (hh : HandedOn host (p.declarationsOf options files) P)
    (ho : p.Orderly host log []) (hP : ∀ e ∈ p.registry.entries, P e)
    (hr : p.run? host options bound files = some q) : ∀ e ∈ q.registry.entries, P e := by
  have hdeclared := declareAll_induction
    (motive := fun _ log p => p.Orderly host log [] ∧ ∀ e ∈ p.registry.entries, P e)
    (p.declarationsOf options files)
    (fun {_ _ _} _ hd h => ⟨h.1.declare _ _, hh.declare h.1 h.2 hd⟩)
    (⟨ho.grow files, hP⟩ : (p.growTree options files).2.Orderly host log [] ∧ _)
  exact (drain?_induction
    (motive := fun log p => p.Orderly host log [] ∧ ∀ e ∈ p.registry.entries, P e)
    (fun {_ _ _ _} hpop h => ⟨h.1.work hpop, hh.settle (h.1.take hpop).serves h.2 _⟩)
    hdeclared hr).2

/-- A first run gives slots to reachable types alone. -/
theorem confined_of_run? (hr : initial.run? host options bound files = some p) :
    p.Confined host p.tree (initial.joinedByRun host options bound files) := by
  have hreachable : HandedOn host (initial.declarationsOf options files)
      fun e => Reachable host p.tree e.handle := by
    refine ⟨?_, ?_⟩
    · intro decl label h name shape hd hc
      obtain ⟨node, hnode, kind, hk⟩ := mem_declarationsOf.mp hd
      rw [← tree_of_run? hr] at hnode
      rw [TypeHost.handle_of_classify hc]
      exact .declared hnode hk (TypeHost.isSupported_of_classify hc)
    · intro e t h name shape he hrefers hc
      rw [TypeHost.handle_of_classify hc]
      exact .child he hrefers (TypeHost.isSupported_of_classify hc)
  exact ⟨orderly_initial.run hr,
    hreachable.run orderly_initial (fun _ he => absurd he List.not_mem_nil) hr⟩

/-! ### Nothing is without one -/

/-- Where nothing waits, types that have slots refer only to types that have slots. -/
theorem Orderly.isLinked_of_refers (ho : p.Orderly host log []) (hq : p.queue.pending = [])
    {s : SlotId} (hl : p.registry.lookup h = some s) (hr : host.Refers h t) :
    host.IsLinked p.registry t := by
  obtain ⟨e, he, rfl⟩ := Registry.entry?_of_lookup hl
  obtain ⟨n, hn, rfl⟩ := ho.exists_record hq (Registry.lt_size_of_entry he)
  obtain ⟨e', he', -, -, hlinked⟩ := ho.drawn n hn
  rw [he] at he'
  cases he'
  refine hlinked t ((TypeHost.refers_iff ?_).mp hr)
  exact ho.serves.shaped e (Registry.mem_entries_of_entry he)

theorem lookup_of_reachable (hr : initial.run? host options bound files = some p)
    (h : Reachable host p.tree t) : ∃ s, p.registry.lookup t = some s := by
  have ho := (confined_of_run? hr).orderly
  -- declarations have slots, and what has a slot has a record by now
  induction h with
  | @declared node name kind decl hnode hk hs =>
    obtain ⟨name', shape, hc⟩ := TypeHost.classify_of_isSupported hs
    rw [tree_of_run? hr] at hnode
    obtain ⟨slot, -, hl⟩ := declared_of_mem_declarationsOf hr ho
      (mem_declarationsOf.mpr ⟨node, hnode, kind, hk⟩) hc
    exact ⟨slot, hl⟩
  | child _ hrefers hs ih =>
    obtain ⟨s, hl⟩ := ih
    obtain ⟨name, shape, hc⟩ := TypeHost.classify_of_isSupported hs
    exact ho.isLinked_of_refers (pending_of_drain? hr) hl hrefers _ _ _ hc

theorem lookup_iff_reachable_of_run? (hr : initial.run? host options bound files = some p) :
    (∃ s, p.registry.lookup h = some s) ↔ Reachable host p.tree h := by
  constructor
  · rintro ⟨s, hs⟩
    obtain ⟨e, he, rfl⟩ := Registry.entry?_of_lookup hs
    exact (confined_of_run? hr).reachable e (Registry.mem_entries_of_entry he)
  · exact lookup_of_reachable hr

end Pass

/-- Cataloguing a program comes to an end, and then exactly the reachable types
have slots. -/
theorem Program.lookup_iff_reachable (program : Program) (options : CatalogOptions)
    (files : List SourceFile) :
    ∃ p : Pass,
      (∀ bound, program.typeCount ≤ bound →
        Pass.initial.run? program.host options bound files = some p) ∧
      ∀ h, (∃ s, p.registry.lookup h = some s) ↔ Reachable program.host p.tree h := by
  obtain ⟨p, hp⟩ := program.exists_run? (rfl : program.host.kind = _) options files
  exact ⟨p, hp, fun h => Pass.lookup_iff_reachable_of_run? (hp _ (Nat.le_refl _))⟩

end TypeCatalog
