/-
Accepted programs are never asked for what is not there.

Parts that are supplied make up a program, and no others do.  `Program.guardedHost`
answers like the program, but refuses every question about a type or a declaration that
the program does not have.  The guarded host covers the program on its own types: what a
type of the program tells of is in the arena, because everything that parts mention is
there, and so are the representatives.  The declarations that a pass comes upon are
named by statements of the files.

Hence neither the search for representatives nor a pass over the files of the program is
refused anything, whether the program gives all answers itself or leaves those it may
to the defaults (`Program.never_refused`).  The search for the name of a type, which
follows a bounded number of targets, asks only about types that are there however far it
goes; where targets do not come back, the bound cuts no search short
(`Program.TargetsEnd.exists_name`).
-/
import TypeCatalog.Proofs.Canonical.Likeness
import TypeCatalog.Proofs.Catalog.Guarded
import TypeCatalog.Proofs.Catalog.Tally
import TypeCatalog.Proofs.Catalog.Termination
import TypeCatalog.Proofs.Package.Resolution
import TypeCatalog.Proofs.Program.Supplied

namespace TypeCatalog

/-! ### The declarations of a pass -/

namespace PackageScope

variable {d : DeclId}

/-- What is named in a scope inside another one is named in the other one. -/
theorem exists_names_of_mem_within (s : PackageScope) {inner : PackageScope}
    (hi : inner ∈ s.within) {st : Statement} (hst : st ∈ inner.statements) (hd : st.Names d) :
    ∃ st ∈ s.statements, st.Names d := by
  induction s using within.induct with
  | case1 s ih =>
    rw [within_eq] at hi
    rcases List.mem_cons.mp hi with rfl | hi
    · exact ⟨st, hst, hd⟩
    · obtain ⟨name, hname, hi⟩ := List.mem_flatMap.mp hi
      obtain ⟨st', hst', hd'⟩ := ih ⟨name, hname⟩ hi
      -- the statements of the inner scope stand in namespaces of the outer one
      obtain ⟨opening, hopening, hbody⟩ := List.mem_flatMap.mp hst'
      refine ⟨opening, hopening, ?_⟩
      cases opening with
      | nameSpace name' body =>
        rw [Statement.bodyIn] at hbody
        split at hbody
        · exact .inside hbody hd'
        · cases hbody
      | _ => cases hbody

end PackageScope

/-- A statement that declares something by name names the declaration. -/
theorem Statement.names_of_declared? {s : Statement} {declared : Declared}
    (hd : s.declared? = some declared) : s.Names declared.decl := by
  cases s with
  | classDeclaration decl name =>
    cases name <;> cases hd
    exact .classDeclaration
  | interfaceDeclaration decl name =>
    cases name <;> cases hd
    exact .interfaceDeclaration
  | _ => cases hd

/-- The declarations of a first pass are named by statements of its files. -/
theorem Pass.exists_names_of_mem_declarationsOf {options : CatalogOptions}
    {files : List SourceFile} {d : DeclId × String}
    (hd : d ∈ initial.declarationsOf options files) :
    ∃ file ∈ files, ∃ s ∈ file.statements, s.Names d.1 := by
  rw [declarationsOf_eq (PackageTree.represents_empty options.rootDir)] at hd
  obtain ⟨e, he, rfl⟩ := List.mem_map.mp hd
  obtain ⟨file, hfile, he⟩ := List.mem_flatMap.mp he
  obtain ⟨scope, hscope, he⟩ := List.mem_flatMap.mp he
  obtain ⟨s, hs, hdeclared⟩ := List.mem_filterMap.mp (Package.mem_named_of_mem_registered he)
  refine ⟨file, List.mem_of_mem_filter hfile, ?_⟩
  exact (PackageScope.ofFile file).exists_names_of_mem_within hscope hs
    (Statement.names_of_declared? hdeclared)

namespace Program

variable {p : Program} {h t : TypeHandle} {data : TypeData} {shape : ObjectShape} {α : Type}

/-! ### What a program tells of is there -/

theorem lt_of_mentions (hd : p.type? h = some data) (ht : data.Mentions t) :
    t.index < p.arena.length :=
  p.supplied.types data (List.mem_of_getElem? hd) t ht

theorem lt_of_shape_mentions (hs : p.shape? h = some shape) (ht : shape.Mentions t) :
    t.index < p.arena.length := by
  obtain ⟨data, hd, hshape⟩ := Option.bind_eq_some_iff.mp hs
  cases data <;> cases hshape
  exact lt_of_mentions hd (.shape ht)

theorem lt_of_mem_parts (ht : t ∈ (p.kind h).parts) : t.index < p.arena.length := by
  rw [kind] at ht
  split at ht
  · rename_i data hd
    refine lt_of_mentions hd ?_
    cases data with
    | object form shape => cases form <;> cases ht
    | reference target typeArguments =>
      rcases List.mem_cons.mp ht with rfl | ht
      · exact .target
      · exact .argument ht
    | union types => exact .unionPart ht
    | intersection types => exact .intersectionPart ht
    | tuple elements => exact .tuplePart ht
    | classExpression name instanceType =>
      cases List.mem_singleton.mp ht
      exact .inner
    | typeParameter name constraint =>
      cases Option.mem_toList.mp ht
      exact .constraint
    | _ => cases ht
  · cases ht

theorem lt_of_mem_members {m : HostMember} (hm : m ∈ p.members h) :
    m.valueType.index < p.arena.length := by
  rw [members] at hm
  split at hm
  · exact lt_of_shape_mentions ‹_› (.member hm)
  · cases hm

theorem lt_of_mem_statics {m : HostMember} (hm : m ∈ p.statics h) :
    m.valueType.index < p.arena.length := by
  rw [statics] at hm
  split at hm
  · exact lt_of_mentions ‹_› (.shape (.static hm))
  · cases hm

theorem lt_of_mem_signatures {kind : SignatureKind} {s : HostSignature}
    (hs : s ∈ p.signatures h kind) (ht : s.Refers t) : t.index < p.arena.length := by
  rw [signatures] at hs
  split at hs
  · split at hs
    · exact lt_of_mentions ‹_› (.signature hs ht)
    · cases hs
  · exact lt_of_mentions ‹_› (.shape (.signature kind hs ht))
  · cases hs

theorem lt_of_mem_heritage {kind : HeritageKind} (ht : t ∈ p.heritage h kind) :
    t.index < p.arena.length := by
  rw [heritage] at ht
  split at ht
  · exact lt_of_shape_mentions ‹_› (.heritage kind ht)
  · cases ht

theorem lt_of_mem_typeParameters (ht : t ∈ p.typeParameters h) : t.index < p.arena.length := by
  rw [typeParameters] at ht
  split at ht
  · exact lt_of_shape_mentions ‹_› (.typeParameter ht)
  · cases ht

/-- The representative of a type of the arena is one as well. -/
theorem canonical_lt (hh : h.index < p.arena.length) :
    (p.canonical h).index < p.arena.length := by
  obtain ⟨-, he⟩ | ⟨c, parts, ks, -, -, hi⟩ := p.canonical_cases h
  · rw [he, Canonical.standing]
    split
    · rename_i k _
      exact (List.getElem?_eq_some_iff.mp (p.type?_handle k)).choose
    · exact hh
  · obtain ⟨-, parts, hb, -⟩ := canonical_of_interned hi
    exact Canonical.lt_length_of_build? hb

/-- No type of the arena is built from parts that are not in it. -/
theorem closed_arena (p : Program) : Canonical.Closed p.arena := by
  rintro q h ⟨c, parts, hb, hq⟩
  obtain ⟨data, hd, hc⟩ := Option.bind_eq_some_iff.mp hb
  refine lt_of_mentions (p := p) hd ?_
  cases data <;> cases hc
  · rcases List.mem_cons.mp hq with rfl | hq
    · exact .target
    · exact .argument hq
  · exact .unionPart hq
  · exact .intersectionPart hq
  · exact .tuplePart hq

theorem resolve_lt {d : DeclId} (hd : d.index < p.declarations.length) :
    (p.resolve d).index < p.arena.length := by
  rw [resolve, List.getElem?_eq_getElem hd, Option.getD_some]
  exact p.supplied.declared _ (List.getElem_mem hd)

/-! ### Programs under guard -/

/-- Gives an answer about a type, which must be there. -/
def ask (p : Program) (h : TypeHandle) (answer : α) : Except Refusal α :=
  demand (.missingType h) ((p.type? h).map fun _ => answer)

/-- The host that answers from the program, and refuses to answer about what the program
does not have; this includes what it asks itself on the way. -/
def guardedHost (p : Program) : GuardedHost where
  resolve d := demand (.missingDeclaration d) p.declarations[d.index]?
  kind h := p.ask h (p.kind h)
  members h := p.ask h (p.members h)
  statics h := p.ask h (p.statics h)
  signatures h kind := p.ask h (p.signatures h kind)
  heritage h kind := p.ask h (p.heritage h kind)
  typeParameters h := p.ask h (p.typeParameters h)
  canonical h := demand (.missingType h) p.representatives[h.index]?
  isArrayLike h := do
    match ← p.ask h (p.shape? h >>= ObjectShape.arrayLike) with
    | some tagged => return tagged
    | none =>
      GuardedHost.isStandardArray (fun h => p.ask h (p.kind h))
        (fun h => p.ask h (p.typeParameters h)) h
  displayName h :=
    return (← GuardedHost.nameWithin (fun h => p.ask h (p.kind h)) (p.typeCount + 1) h).getD ""

theorem ask_of_lt (hh : h.index < p.arena.length) (answer : α) : p.ask h answer = .ok answer := by
  rw [ask, type?, List.getElem?_eq_getElem hh]
  rfl

/-- The program is covered on its own types and declarations. -/
theorem covers_host (p : Program) :
    p.guardedHost.Covers p.host (·.index < p.arena.length) (·.index < p.declarations.length) where
  resolve {d} hd := by
    have hd' : p.declarations[d.index]? = some (p.resolve d) := by
      rw [resolve, List.getElem?_eq_getElem hd, Option.getD_some]
    exact demand_of_eq_some hd' _
  kind hh := ask_of_lt hh _
  members hh := ask_of_lt hh _
  statics hh := ask_of_lt hh _
  signatures _ hh := ask_of_lt hh _
  heritage _ hh := ask_of_lt hh _
  typeParameters hh := ask_of_lt hh _
  canonical {h} hh := by
    have hlt : h.index < p.representatives.length := p.length_representatives ▸ hh
    have hh' : p.representatives[h.index]? = some (p.canonical h) := by
      rw [canonical, List.getElem?_eq_getElem hlt, Option.getD_some]
    exact demand_of_eq_some hh' _
  isArrayLike {h} hh := by
    refine (bind_of_eq_ok (ask_of_lt hh _) _).trans ?_
    show _ = Except.ok (p.isArrayLike h)
    rw [isArrayLike]
    cases p.shape? h >>= ObjectShape.arrayLike with
    | some tagged => rfl
    | none => exact GuardedHost.isStandardArray_eq (ask_of_lt hh _) (ask_of_lt hh _)
  displayName hh :=
    bind_of_eq_ok (GuardedHost.nameWithin_eq (R := (·.index < p.arena.length))
      (fun hh => ask_of_lt hh _) (fun _ ht => lt_of_mem_parts ht) _ hh) _
  of_resolve := resolve_lt
  of_canonical := canonical_lt
  of_kind _ := lt_of_mem_parts
  of_members _ := lt_of_mem_members
  of_statics _ := lt_of_mem_statics
  of_signatures _ := lt_of_mem_signatures
  of_heritage _ := lt_of_mem_heritage
  of_typeParameters _ := lt_of_mem_typeParameters

theorem lt_of_mem_declarationsOf {options : CatalogOptions} {d : DeclId × String}
    (hd : d ∈ Pass.initial.declarationsOf options p.files) :
    d.1.index < p.declarations.length := by
  obtain ⟨file, hfile, s, hs, hnames⟩ := Pass.exists_names_of_mem_declarationsOf hd
  exact p.supplied.statements file hfile s hs d.1 hnames

/-- A pass over the files of a program is refused nothing, by the program or behind the
default answers, and comes to its end. -/
theorem run_guarded (p : Program) (options : CatalogOptions) :
    (∀ bound, p.guardedHost.run options bound .initial p.files
      = .ok (Pass.initial.run? p.host options bound p.files)) ∧
    (∀ bound, (p.guardedHost.plain (p.typeCount + 1)).run options bound .initial p.files
      = .ok (Pass.initial.run? p.plainHost options bound p.files)) ∧
    ∃ q q', ∀ bound, p.typeCount ≤ bound →
      Pass.initial.run? p.host options bound p.files = some q ∧
      Pass.initial.run? p.plainHost options bound p.files = some q' := by
  refine ⟨?_, ?_, ?_⟩
  · exact p.covers_host.run_eq fun d hd => lt_of_mem_declarationsOf hd
  · exact (p.covers_host.plain _).run_eq fun d hd => lt_of_mem_declarationsOf hd
  · obtain ⟨q, hq⟩ := p.exists_run? (rfl : p.host.kind = p.kind) options p.files
    obtain ⟨q', hq'⟩ := p.exists_run? (rfl : p.plainHost.kind = p.kind) options p.files
    exact ⟨q, q', fun bound hb => ⟨hq bound hb, hq' bound hb⟩⟩

/-- Parts make up a program exactly if all that they mention is there: the types in every
position of every type, those of the declarations, and the declarations that statements
name at any depth.  Then the representatives are found and the files are catalogued
without one question about a type or a declaration that is not there, whether the
program gives all answers itself or leaves those it may to the defaults. -/
theorem never_refused (types : List TypeData) (declarations : List TypeHandle)
    (files : List SourceFile) :
    ((∃ p, ofParts? types declarations files = .ok p) ↔
      Supplied (TypeData.intrinsics ++ types) declarations files) ∧
    ∀ p, ofParts? types declarations files = .ok p →
      p.arena = TypeData.intrinsics ++ types ∧ p.declarations = declarations ∧ p.files = files ∧
      Canonical.Guarded.representatives p.arena = .ok p.representatives ∧
      ∀ options : CatalogOptions,
        (∀ bound, p.guardedHost.run options bound .initial files
          = .ok (Pass.initial.run? p.host options bound files)) ∧
        (∀ bound, (p.guardedHost.plain (p.typeCount + 1)).run options bound .initial files
          = .ok (Pass.initial.run? p.plainHost options bound files)) ∧
        ∃ q q', ∀ bound, p.typeCount ≤ bound →
          Pass.initial.run? p.host options bound files = some q ∧
          Pass.initial.run? p.plainHost options bound files = some q' := by
  refine ⟨ofParts?_ok_iff, fun p hp => ?_⟩
  obtain ⟨rfl, rfl, rfl⟩ := parts_of_ofParts? hp
  refine ⟨rfl, rfl, rfl, ?_, p.run_guarded⟩
  rw [p.representatives_eq]
  exact Canonical.Guarded.representatives_eq p.closed_arena

/-- Types and statements of all kinds are catalogued without a refusal; a declaration that
is missing two namespaces deep is noticed before. -/
theorem never_refused_allKinds :
    (∃ q, (allKinds.guardedHost.plain (allKinds.typeCount + 1)).run .default 29 .initial
        allKinds.files = .ok (some q)) ∧
    Canonical.Guarded.representatives allKinds.arena = .ok allKinds.representatives ∧
    ¬ ∃ p, ofParts? allKinds.types allKinds.declarations
      [⟨"c.ts", [.nameSpace "outer" [.nameSpace "inner" [.typeAlias ⟨2⟩ "A"]]], false⟩] = .ok p := by
  obtain ⟨-, hparts⟩ := never_refused allKinds.types allKinds.declarations allKinds.files
  obtain ⟨-, -, -, hrepresentatives, hruns⟩ := hparts allKinds allKinds.ofParts?_self
  obtain ⟨-, hplain, q, q', hends⟩ := hruns .default
  refine ⟨⟨q', ?_⟩, hrepresentatives, fun hp => ?_⟩
  · rw [hplain 29, (hends 29 (by decide)).2]
  · have hsupplied := (never_refused _ _ _).1.mp hp
    have hlt := hsupplied.statements _ (List.mem_singleton.mpr rfl) _
      (List.mem_singleton.mpr rfl) ⟨2⟩
      (.inside (List.mem_singleton.mpr rfl) (.inside (List.mem_singleton.mpr rfl) .typeAlias))
    exact absurd hlt (by decide)

end Program

end TypeCatalog
