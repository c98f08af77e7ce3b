/-
Slots are numbered as they are first seen.

Whoever reads the records of a table in order, of every record its own slot and
then the slots it refers to, meets every slot for the first time in the order of
the numbers (`Pass.slots_in_order_of_sight`).  In a table of one run the records
of the declared types come first, in the order of the declarations, and the
records of all other types follow in the order of their slots.

`Pass.Sighted` says the first of a pass at work, and every act keeps it: a look
at the child types of a record gives out slots in the order in which the record
refers to them (`Survey.sighted_ofPositions`), and a type that is declared does not
get a number before the slots that have come up have had theirs.  For the second,
declarations add the records of their types in order (`Pass.Introduced.declareAll`),
and what is added after them comes from the queue, which is in ascending order
(`Pass.Follows`).
-/
import TypeCatalog.Proofs.Catalog.Reachable
import TypeCatalog.Proofs.Catalog.Tally

namespace TypeCatalog

variable {host : TypeHost}

/-- The first slots, in the order of their numbers. -/
def SlotId.below (size : Nat) : List SlotId := (List.range size).map SlotId.mk

/-- The slots that a record mentions: its own, and those it refers to. -/
def TypeNode.mentions (n : TypeNode) : List SlotId := n.slot :: n.slotRefs

/-- The handle under which a type is catalogued. -/
def TypeHost.handle? (host : TypeHost) (type : TypeHandle) : Option TypeHandle :=
  match host.classify type with
  | .shape h _ _ => some h
  | _ => none

/-- The slot of a type that can be catalogued. -/
def TypeHost.slot? (host : TypeHost) (r : Registry) (type : TypeHandle) : Option SlotId :=
  (host.handle? type).bind r.lookup

/-- The types of some declarations as far as they can be catalogued, each once. -/
def TypeHost.typesOf (host : TypeHost) (decls : List DeclId) : List TypeHandle :=
  (decls.filterMap fun decl => host.handle? (host.resolve decl)).eraseDups

/-- The types that files declare: file after file, packages depth first. -/
def TypeHost.declaredTypes (host : TypeHost) (files : List SourceFile) : List TypeHandle :=
  host.typesOf (((SourceFile.packaged files).flatMap SourceFile.registered).map Prod.snd)

/-- The slots of some types, one after the other. -/
def Registry.Assigns (r : Registry) (types : List TypeHandle) (slots : List SlotId) : Prop :=
  slots.map some = types.map r.lookup

namespace SlotId

theorem below_succ (size : Nat) : below (size + 1) = below size ++ [⟨size⟩] := by
  rw [below, List.range_succ, List.map_append]
  rfl

theorem mem_below {size : Nat} {s : SlotId} : s ∈ below size ↔ s.index < size := by
  rw [below, List.mem_map]
  constructor
  · rintro ⟨i, hi, rfl⟩
    exact List.mem_range.mp hi
  · intro hs
    exact ⟨s.index, List.mem_range.mpr hs, rfl⟩

theorem pairwise_below (size : Nat) : (below size).Pairwise (·.index < ·.index) :=
  List.pairwise_map.mpr List.pairwise_lt_range

/-- A slot that has come up before does not come up for the first time again. -/
theorem eraseDups_concat_old {seen : List SlotId} {size : Nat} {s : SlotId}
    (h : seen.eraseDups = below size) (hs : s.index < size) :
    (seen ++ [s]).eraseDups = below size := by
  have hmem : s ∈ seen := by
    rw [← List.mem_eraseDups, h]
    exact mem_below.mpr hs
  rw [eraseDups_concat, if_pos hmem, h]

/-- The next slot comes up for the first time. -/
theorem eraseDups_concat_next {seen : List SlotId} {size : Nat}
    (h : seen.eraseDups = below size) :
    (seen ++ [(⟨size⟩ : SlotId)]).eraseDups = below (size + 1) := by
  have hnew : (⟨size⟩ : SlotId) ∉ seen := by
    rw [← List.mem_eraseDups, h, mem_below]
    exact Nat.lt_irrefl size
  rw [eraseDups_concat, if_neg hnew, h, below_succ]

end SlotId

namespace Registry.Assigns

variable {r r' : Registry} {types : List TypeHandle} {slots : List SlotId} {h : TypeHandle}
  {s : SlotId}

theorem exists_slot (ha : r.Assigns types slots) (hh : h ∈ types) :
    ∃ s ∈ slots, r.lookup h = some s := by
  have hmem : r.lookup h ∈ slots.map some := ha ▸ List.mem_map_of_mem hh
  obtain ⟨s, hs, he⟩ := List.mem_map.mp hmem
  exact ⟨s, hs, he.symm⟩

theorem of_growsTo (ha : r.Assigns types slots) (hg : r.GrowsTo r') : r'.Assigns types slots := by
  refine ha.trans (List.map_congr_left fun h hh => ?_)
  obtain ⟨s, -, hs⟩ := ha.exists_slot hh
  rw [hs, lookup_of_growsTo hg hs]

/-- A type is one of the types just when its slot is one of the slots. -/
theorem mem_iff (ha : r.Assigns types slots) (hl : r.lookup h = some s) :
    h ∈ types ↔ s ∈ slots := by
  constructor
  · intro hh
    obtain ⟨s', hs', hl'⟩ := ha.exists_slot hh
    rw [hl] at hl'
    cases hl'
    exact hs'
  · intro hs
    have hmem : some s ∈ types.map r.lookup := ha ▸ List.mem_map_of_mem hs
    obtain ⟨h', hh', hl'⟩ := List.mem_map.mp hmem
    exact eq_of_lookup hl hl' ▸ hh'

theorem concat (ha : r.Assigns types slots) (hl : r.lookup h = some s) :
    r.Assigns (types ++ [h]) (slots ++ [s]) := by
  rw [Assigns, List.map_append, List.map_append, ha, List.map_singleton, List.map_singleton, hl]

end Registry.Assigns

/-! ### The slots of an image -/

namespace TypeHost

variable {r r' : Registry} {type h : TypeHandle} {name : Option String} {shape : Shape}

theorem handle?_of_classify (hc : host.classify type = .shape h name shape) :
    host.handle? type = some h := by
  rw [handle?, hc]

theorem handle?_eq_none (hno : ∀ h name shape, host.classify type ≠ .shape h name shape) :
    host.handle? type = none := by
  unfold handle?
  split
  · rename_i hc
    exact absurd hc (hno _ _ _)
  · rfl

theorem handle?_eq_some_iff :
    host.handle? type = some h ↔ (host.kindOf type).IsSupported ∧ host.canonical type = h := by
  constructor
  · intro hh
    unfold handle? at hh
    split at hh
    · rename_i hc
      cases hh
      exact ⟨isSupported_of_classify hc, (handle_of_classify hc).symm⟩
    · cases hh
  · rintro ⟨hs, rfl⟩
    obtain ⟨name, shape, hc⟩ := classify_of_isSupported hs
    exact handle?_of_classify hc

theorem typesOf_concat (decls : List DeclId) (decl : DeclId) :
    host.typesOf (decls ++ [decl]) = match host.handle? (host.resolve decl) with
      | some h => if h ∈ host.typesOf decls then host.typesOf decls else host.typesOf decls ++ [h]
      | none => host.typesOf decls := by
  rw [typesOf, List.filterMap_append]
  cases hd : host.handle? (host.resolve decl) with
  | none => simp [hd, typesOf]
  | some h =>
    have hone : [decl].filterMap (fun decl => host.handle? (host.resolve decl)) = [h] := by
      simp [hd]
    rw [hone, eraseDups_concat]
    simp only [typesOf, List.mem_eraseDups]

/-- The slot of a type is the one its edge leads to. -/
theorem bind_slot?_edge? (host : TypeHost) (r : Registry) (type : TypeHandle) :
    (host.edge? r type).bind TypeRef.slot? = host.slot? r type := by
  unfold edge? slot? handle?
  cases host.classify type with
  | intrinsic k => rfl
  | unsupported reason => rfl
  | shape h name shape =>
    show ((r.lookup h).map TypeRef.slot).bind TypeRef.slot? = r.lookup h
    cases r.lookup h <;> rfl

theorem slot?_of_growsTo (hl : host.IsLinked r type) (hg : r.GrowsTo r') :
    host.slot? r' type = host.slot? r type := by
  rw [← bind_slot?_edge?, ← bind_slot?_edge?, edge?_of_growsTo hl hg]

@[simp] theorem slots_edgeList (types : List TypeHandle) :
    (host.edgeList r types).filterMap TypeRef.slot? = types.filterMap (host.slot? r) := by
  rw [edgeList, List.filterMap_filterMap]
  exact List.filterMap_congr fun t _ => bind_slot?_edge? host r t

@[simp] theorem slot?_requiredEdge (type : TypeHandle) :
    (host.requiredEdge r type).slot? = host.slot? r type := by
  rw [← bind_slot?_edge?, requiredEdge]
  cases host.edge? r type <;> rfl

@[simp] theorem slots_bind_edge? (type : Option TypeHandle) :
    (type.bind (host.edge? r)).toList.filterMap TypeRef.slot?
      = type.toList.filterMap (host.slot? r) := by
  cases type with
  | none => rfl
  | some t =>
    show (host.edge? r t).toList.filterMap TypeRef.slot? = [t].filterMap (host.slot? r)
    rw [← slots_edgeList]
    cases he : host.edge? r t <;> simp [edgeList, he]

@[simp] theorem slots_memberImages (members : List HostMember) :
    ((host.memberImages r members).map Member.type).filterMap TypeRef.slot?
      = (memberTypes members).filterMap (host.slot? r) := by
  rw [memberImages, memberTypes, List.map_filterMap, List.filterMap_filterMap, List.filterMap_map]
  refine List.filterMap_congr fun m _ => ?_
  show _ = host.slot? r m.valueType
  rw [← bind_slot?_edge?]
  cases host.edge? r m.valueType <;> rfl

@[simp] theorem slots_signatureImage (s : HostSignature) :
    (host.signatureImage r s).edges.filterMap TypeRef.slot?
      = s.handles.filterMap (host.slot? r) := by
  have hparameters : (s.parameters.map fun p => host.requiredEdge r p.type).filterMap TypeRef.slot?
      = (s.parameters.map HostParameter.type).filterMap (host.slot? r) := by
    rw [List.filterMap_map, List.filterMap_map]
    exact List.filterMap_congr fun p _ => slot?_requiredEdge p.type
  have hreturns : ∀ rest, (host.requiredEdge r s.returns :: rest).filterMap TypeRef.slot?
      = (host.slot? r s.returns).toList ++ rest.filterMap TypeRef.slot? := by
    intro rest
    rw [List.filterMap_cons, slot?_requiredEdge]
    cases host.slot? r s.returns <;> rfl
  have htypes : (s.returns :: s.typeParameters).filterMap (host.slot? r)
      = (host.slot? r s.returns).toList ++ s.typeParameters.filterMap (host.slot? r) := by
    rw [List.filterMap_cons]
    cases host.slot? r s.returns <;> rfl
  rw [Signature.edges, signatureImage, HostSignature.handles, List.map_map, List.filterMap_append,
    List.filterMap_append, htypes, hreturns, slots_edgeList]
  exact congrArg (· ++ _) hparameters

@[simp] theorem slots_signatureImages (kind : SignatureKind) :
    ((host.signatureImages r h kind).flatMap Signature.edges).filterMap TypeRef.slot?
      = (host.signatureTypes h kind).filterMap (host.slot? r) := by
  rw [signatureImages, signatureTypes, List.flatMap_map, List.filterMap_flatMap,
    List.filterMap_flatMap]
  exact congrArg (List.flatMap · _) (funext slots_signatureImage)

@[simp] theorem slots_bodyImage :
    (host.bodyImage r h).edges.filterMap TypeRef.slot?
      = (host.bodyTypes h).filterMap (host.slot? r) := by
  simp only [ObjectBody.edges, bodyImage, bodyTypes_eq, List.flatMap_append, List.filterMap_append,
    slots_edgeList, slots_memberImages, slots_signatureImages, List.append_assoc]

/-- A record refers to the slots of its child types, in the order in which these are looked at. -/
theorem slots_image (shape : Shape) :
    (host.image r h shape).edges.filterMap TypeRef.slot?
      = (host.childTypes h shape).filterMap (host.slot? r) := by
  cases shape with
  | classShape =>
    simp only [image, NodeKind.edges, childTypes_classShape, List.filterMap_append,
      slots_bodyImage, slots_memberImages, slots_bind_edge?, slots_edgeList]
  | interfaceShape =>
    simp only [image, NodeKind.edges, childTypes_interfaceShape, List.filterMap_append,
      slots_bodyImage, slots_edgeList]
  | typeLiteral => exact slots_bodyImage
  | function => exact (slots_signatureImages .call).trans (by rw [childTypes_function])
  | array element => simp [image, NodeKind.edges, List.filterMap_cons]
  | reference target typeArguments => simp [image, NodeKind.edges, List.filterMap_cons]
  | union types => simp [image, NodeKind.edges]
  | intersection types => simp [image, NodeKind.edges]
  | tuple elements => simp [image, NodeKind.edges]
  | typeParameter constraint => simp [image, NodeKind.edges]
  | expression instanceType => simp [image, NodeKind.edges, List.filterMap_cons]

end TypeHost

/-! ### Slots come up in order -/

namespace Survey

variable {r : Registry} {seen : List SlotId} {positions : List Position} {s : Survey}

/-- A look at one more child type gives it the next slot, or one that has come up. -/
theorem Since.sighted_note (hs : s.Since host r positions) (subject : String) (position : Position)
    (h : (seen ++ (positions.map Position.type).filterMap (host.slot? s.registry)).eraseDups
      = SlotId.below s.registry.size) :
    (seen ++ ((positions ++ [position]).map Position.type).filterMap
        (host.slot? (Survey.note host subject s position).registry)).eraseDups
      = SlotId.below (Survey.note host subject s position).registry.size := by
  have hsince := hs.note subject position
  have hgrow : s.registry.GrowsTo (Survey.note host subject s position).registry :=
    s.growsTo_note subject position
  have hold : (positions.map Position.type).filterMap
      (host.slot? (Survey.note host subject s position).registry)
        = (positions.map Position.type).filterMap (host.slot? s.registry) := by
    refine List.filterMap_congr fun t ht => ?_
    obtain ⟨c, hc, rfl⟩ := List.mem_map.mp ht
    exact TypeHost.slot?_of_growsTo (hs.linked c hc) hgrow
  rw [List.map_append, List.filterMap_append, hold, ← List.append_assoc, List.map_singleton]
  cases hc : host.classify position.type with
  | intrinsic k =>
    have hnone : host.handle? position.type = none := TypeHost.handle?_eq_none (by simp [hc])
    have hsame : Survey.note host subject s position = s := by rw [Survey.note, hc]
    rw [hsame]
    simpa [TypeHost.slot?, hnone] using h
  | unsupported reason =>
    have hnone : host.handle? position.type = none := TypeHost.handle?_eq_none (by simp [hc])
    have hsame : (Survey.note host subject s position).registry = s.registry := by
      rw [Survey.note, hc]
    rw [hsame]
    simpa [TypeHost.slot?, hnone] using h
  | shape handle name shape =>
    have hregistry : (Survey.note host subject s position).registry
        = (s.registry.identify handle name shape).2 := by rw [note_of_shape subject hc]
    have hslot : [position.type].filterMap
        (host.slot? (Survey.note host subject s position).registry)
          = [(s.registry.identify handle name shape).1.slot] := by
      rw [List.filterMap_cons, TypeHost.slot?, TypeHost.handle?_of_classify hc, Option.bind_some,
        hregistry, Registry.lookup_identify, List.filterMap_nil]
    rw [hslot, hregistry]
    obtain ⟨slot, hl, he⟩ | ⟨-, he⟩ := s.registry.identify_cases handle name shape
    · rw [he]
      exact SlotId.eraseDups_concat_old h (Registry.lt_size_of_lookup hl)
    · rw [he]
      show _ = SlotId.below (s.registry.entries ++ [_]).length
      rw [List.length_append]
      exact SlotId.eraseDups_concat_next h

theorem Since.sighted_foldl (subject : String) (rest : List Position) {done : List Position}
    (hs : s.Since host r done)
    (h : (seen ++ (done.map Position.type).filterMap (host.slot? s.registry)).eraseDups
      = SlotId.below s.registry.size) :
    (seen ++ ((done ++ rest).map Position.type).filterMap
        (host.slot? (rest.foldl (Survey.note host subject) s).registry)).eraseDups
      = SlotId.below (rest.foldl (Survey.note host subject) s).registry.size := by
  induction rest generalizing done s with
  | nil => simpa using h
  | cons position rest ih =>
    rw [List.foldl_cons, ← List.singleton_append, ← List.append_assoc]
    exact ih (hs.note subject position) (hs.sighted_note subject position h)

/-- A look at all child types of a record gives out slots in the order in which they come up. -/
theorem sighted_ofPositions (hr : r.Serves host) (subject : String) (positions : List Position)
    (h : seen.eraseDups = SlotId.below r.size) :
    (seen ++ (positions.map Position.type).filterMap
        (host.slot? (ofPositions host subject r positions).registry)).eraseDups
      = SlotId.below (ofPositions host subject r positions).registry.size := by
  have hstart : (⟨r, [], []⟩ : Survey).Since host r [] := ofPositions_since hr subject []
  refine hstart.sighted_foldl subject positions ?_
  simpa using h

end Survey

namespace Pass

variable {options : CatalogOptions} {p q : Pass} {bound : Nat} {log : Log} {slot : SlotId}

/-- The slots that come up in the records, and then those at hand, come up in the
order of their numbers. -/
def Sighted (atHand : List SlotId) (p : Pass) : Prop :=
  (p.populations.flatMap TypeNode.mentions ++ atHand).eraseDups = SlotId.below p.registry.size

/-- A record mentions its own slot, and then those of its child types. -/
theorem sighted_populate (hr : p.registry.Serves host) (h : p.Sighted [slot]) :
    (p.populate host slot).Sighted [] := by
  cases he : p.registry.entry? slot with
  | none =>
    have hmem : slot ∈ SlotId.below p.registry.size := by
      rw [← h, List.mem_eraseDups]
      exact List.mem_append_right _ (List.mem_singleton.mpr rfl)
    obtain ⟨e, he'⟩ := Registry.entry?_of_lt_size (SlotId.mem_below.mp hmem)
    rw [he] at he'
    cases he'
  | some e =>
    have hseen := Survey.sighted_ofPositions hr (subject host e)
      (host.positions e.handle e.shape) h
    have hrefs := @TypeHost.slots_image host (p.survey host e).registry e.handle e.shape
    rw [populate_of_entry he]
    show (List.flatMap _ (_ ++ [_]) ++ []).eraseDups = _
    rw [List.append_nil, List.flatMap_append, List.flatMap_singleton, TypeNode.mentions,
      TypeNode.slotRefs, TypeNode.edges, hrefs, ← List.singleton_append, ← List.append_assoc]
    exact hseen

theorem sighted_settle (hr : p.registry.Serves host) (h : p.Sighted [slot]) :
    (p.settle host slot).Sighted [] := by
  unfold settle
  split
  · rename_i hpop
    have hmem : slot ∈ p.populations.flatMap TypeNode.mentions := by
      obtain ⟨n, hn, rfl⟩ := List.mem_map.mp (isPopulated_iff.mp hpop)
      exact List.mem_flatMap_of_mem hn List.mem_cons_self
    rw [Sighted, eraseDups_concat, if_pos hmem] at h
    rw [Sighted, List.append_nil]
    exact h
  · exact sighted_populate hr h

/-- A slot that is there may be taken at hand. -/
theorem Sighted.take (h : p.Sighted []) (hslot : slot.index < p.registry.size) :
    p.Sighted [slot] := by
  rw [Sighted, List.append_nil] at h
  exact SlotId.eraseDups_concat_old h hslot

/-- The slot of a declared type is one that is there, or the next one. -/
theorem Sighted.assign (h : p.Sighted []) (decl : DeclId) (label : String) (handle : TypeHandle)
    (shape : Shape) : (p.assign decl label handle shape).Sighted
      [(p.registry.identify handle (some label) shape).1.slot] := by
  obtain ⟨slot, hl, he⟩ | ⟨-, he⟩ := p.registry.identify_cases handle (some label) shape
  · have htake := h.take (Registry.lt_size_of_lookup hl)
    rw [Sighted, Pass.assign, he]
    exact htake
  · rw [Sighted, List.append_nil] at h
    rw [Sighted, Pass.assign, he]
    show _ = SlotId.below (p.registry.entries ++ [_]).length
    rw [List.length_append]
    exact SlotId.eraseDups_concat_next h

/-- Every act of an orderly pass keeps slots in the order in which they come up. -/
theorem sighted_kept :
    Kept host options fun log p => p.Orderly host log [] ∧ p.Sighted [] where
  grow _ h := ⟨{ h.1 with }, h.2⟩
  declare {log p} decl name h := by
    refine ⟨h.1.declare decl name, ?_⟩
    obtain ⟨-, report, he⟩ | ⟨handle, name', shape, hc, he⟩ := declare_cases host p decl name
    · rw [he]
      exact h.2
    · rw [he]
      exact sighted_settle (h.1.assign hc name).serves (h.2.assign decl name handle shape)
  work {log p first queue} hp h := by
    refine ⟨h.1.work hp, sighted_settle h.1.serves ?_⟩
    refine h.2.take (h.1.bounded first (h.1.waiting.mem ?_))
    rw [(pop?_eq_some_iff.mp hp).1]
    exact List.mem_cons_self

/-! ### Declared types come first -/

theorem slots_settle (hslot : slot.index < p.registry.size) :
    (p.settle host slot).populations.map TypeNode.slot =
      if slot ∈ p.populations.map TypeNode.slot then p.populations.map TypeNode.slot
      else p.populations.map TypeNode.slot ++ [slot] := by
  obtain ⟨e, he⟩ := Registry.entry?_of_lt_size hslot
  by_cases hpop : p.isPopulated slot
  · rw [settle, if_pos hpop, if_pos (isPopulated_iff.mp hpop)]
  · rw [settle, if_neg hpop, if_neg fun h => hpop (isPopulated_iff.mpr h), populate_of_entry he,
      List.map_append]
    rfl

/-- The records are those of the types of some declarations, in the order of these. -/
structure Introduced (host : TypeHost) (decls : List DeclId) (log : Log) (p : Pass) : Prop where
  orderly : p.Orderly host log []
  slots : p.registry.Assigns (host.typesOf decls) (p.populations.map TypeNode.slot)

/-- One more declaration adds the record of its type, if there is none yet. -/
theorem Introduced.declare {decls : List DeclId} (hp : p.Introduced host decls log)
    (decl : DeclId) (name : String) :
    (p.declare host decl name).Introduced host (decls ++ [decl])
      (log ++ p.joined (p.declare host decl name)) := by
  refine ⟨hp.orderly.declare decl name, ?_⟩
  obtain ⟨hno, report, he⟩ | ⟨handle, name', shape, hc, he⟩ := declare_cases host p decl name
  · rw [TypeHost.typesOf_concat, TypeHost.handle?_eq_none hno, he]
    exact hp.slots
  · have hlook := p.registry.lookup_identify handle (some name) shape
    have hassigned := hp.slots.of_growsTo (p.registry.growsTo_identify handle (some name) shape)
    have hlater := (@leadsTo_settle host (p.assign decl name handle shape)
      (p.registry.identify handle (some name) shape).1.slot).registry
    rw [he, TypeHost.typesOf_concat, TypeHost.handle?_of_classify hc]
    have hslots := @slots_settle host (p.assign decl name handle shape) _
      (Registry.lt_size_of_lookup hlook)
    change _ = if _ ∈ p.populations.map TypeNode.slot then p.populations.map TypeNode.slot
      else p.populations.map TypeNode.slot ++ _ at hslots
    rw [hslots]
    refine Registry.Assigns.of_growsTo ?_ hlater
    -- the type is a new one for the declarations just when its slot has no record
    by_cases hmem : handle ∈ host.typesOf decls
    · rw [if_pos ((hassigned.mem_iff hlook).mp hmem)]
      dsimp only
      rw [if_pos hmem]
      exact hassigned
    · rw [if_neg fun h => hmem ((hassigned.mem_iff hlook).mpr h)]
      dsimp only
      rw [if_neg hmem]
      exact hassigned.concat hlook

theorem Introduced.declareAll (hp : p.Introduced host [] log)
    (declarations : List (DeclId × String)) :
    (declarations.foldl (fun p d => p.declare host d.1 d.2) p).Introduced host
      (declarations.map Prod.fst) (log ++ p.joinedByDeclaring host declarations) := by
  refine declareAll_induction
    (motive := fun done log p => p.Introduced host (done.map Prod.fst) log) declarations
    (fun {done log p} d _ h => ?_) hp
  rw [List.map_append]
  exact h.declare d.1 d.2

/-! ### All other types follow -/

/-- Records that are added, and after them the types that wait, are among all that
ever joined the queue, and in the same order. -/
structure Follows (host : TypeHost) (first : List SlotId) (log : Log) (p : Pass) : Prop where
  orderly : p.Orderly host log []
  added : ∃ rest, p.populations.map TypeNode.slot = first ++ rest ∧
    (rest ++ p.queue.pending.map Prod.snd).Sublist (log.map Prod.snd)

theorem Follows.work {first : List SlotId} {next : TypeHandle × SlotId} {queue : DiscoveryQueue}
    (hp : p.queue.pop? = some (next, queue)) (h : p.Follows host first log) :
    ({ p with queue := queue }.settle host next.2).Follows host first
      (log ++ joined { p with queue := queue } ({ p with queue := queue }.settle host next.2)) := by
  obtain ⟨rest, hslots, hsub⟩ := h.added
  rw [(pop?_eq_some_iff.mp hp).1, List.map_cons] at hsub
  refine ⟨h.orderly.work hp, ?_⟩
  by_cases hpop : ({ p with queue := queue } : Pass).isPopulated next.2
  · -- the type was declared while it waited
    rw [settle, if_pos hpop, joined_of_queue_eq rfl, List.append_nil]
    exact ⟨rest, hslots, ((List.sublist_cons_self _ _).append_left _).trans hsub⟩
  · have hbound := h.orderly.bounded next (h.orderly.waiting.mem (by
      rw [(pop?_eq_some_iff.mp hp).1]
      exact List.mem_cons_self))
    obtain ⟨e, he⟩ := Registry.entry?_of_lt_size hbound
    rw [settle, if_neg hpop, populate_of_entry (p := { p with queue := queue }) he,
      joined_extend rfl]
    refine ⟨rest ++ [next.2], ?_, ?_⟩
    · rw [List.map_append, hslots, List.append_assoc]
      rfl
    · simp only [DiscoveryQueue.extend, List.map_append, ← List.append_assoc]
      rw [List.append_assoc rest, List.singleton_append]
      exact hsub.append_right _

theorem slots_drain? (ho : p.Orderly host log []) (hd : p.drain? host bound = some q) :
    ∃ rest, q.populations.map TypeNode.slot = p.populations.map TypeNode.slot ++ rest ∧
      rest.Pairwise (·.index < ·.index) := by
  have hstart : p.Follows host (p.populations.map TypeNode.slot) log :=
    ⟨ho, [], (List.append_nil _).symm, (ho.waiting.map Prod.snd).sublist⟩
  have hend := drain?_induction (motive := Follows host (p.populations.map TypeNode.slot))
    Follows.work hstart hd
  obtain ⟨rest, hslots, hsub⟩ := hend.added
  refine ⟨rest, hslots, ?_⟩
  have hasc : ((log ++ joinedByDraining host bound p).map Prod.snd).Pairwise
      (·.index < ·.index) :=
    List.pairwise_map.mpr (List.pairwise_map.mp hend.orderly.ascending)
  exact hasc.sublist ((List.sublist_append_left _ _).trans hsub)

/-- What follows in ascending order are all other slots. -/
theorem Orderly.eq_filter_of_slots (ho : p.Orderly host log []) (hq : p.queue.pending = [])
    {first rest : List SlotId} (h : p.populations.map TypeNode.slot = first ++ rest)
    (hasc : rest.Pairwise (·.index < ·.index)) :
    rest = (SlotId.below p.registry.size).filter (· ∉ first) := by
  have honce := h ▸ ho.once
  have hmem : ∀ s : SlotId, s ∈ first ++ rest ↔ s.index < p.registry.size := by
    intro s
    rw [← List.mem_range, ← (ho.populations_perm hq).mem_iff, ← h, List.mem_map, List.mem_map]
    constructor
    · rintro ⟨n, hn, rfl⟩
      exact ⟨n, hn, rfl⟩
    · rintro ⟨n, hn, hs⟩
      exact ⟨n, hn, congrArg SlotId.mk hs⟩
  have hbelow := (SlotId.pairwise_below p.registry.size).filter (· ∉ first)
  refine List.Perm.eq_of_pairwise ?_ hasc hbelow ?_
  · intro a b _ _ hab hba
    exact absurd hab (Nat.lt_asymm hba)
  · have hnodup : ((SlotId.below p.registry.size).filter (· ∉ first)).Nodup := by
      refine hbelow.imp fun hab he => ?_
      rw [he] at hab
      exact absurd hab (Nat.lt_irrefl _)
    refine (List.perm_ext_iff_of_nodup (List.nodup_append.mp honce).2.1 hnodup).mpr fun s => ?_
    rw [List.mem_filter, SlotId.mem_below, ← hmem, List.mem_append, decide_eq_true_iff]
    constructor
    · intro hs
      exact ⟨.inr hs, fun hf => List.disjoint_of_nodup_append honce hf hs⟩
    · rintro ⟨hs | hs, hf⟩
      · exact absurd hs hf
      · exact hs

/-- The slots of a table are numbered in the order in which its records mention them.
In a table of one run the records of the declared types come first, in the order of the
declarations, and those of all other types follow in the order of their slots. -/
theorem slots_in_order_of_sight (host : TypeHost) (options : CatalogOptions) (bound : Nat)
    (runs : List (List SourceFile)) (p : Pass)
    (hr : initial.runAll? host options bound runs = some p) :
    ((p.finish options).table.populations.flatMap TypeNode.mentions).eraseDups
        = SlotId.below (p.finish options).table.slotCount ∧
      ∀ files, runs = [files] →
        ∃ first, p.registry.Assigns (host.declaredTypes files) first ∧
          (p.finish options).table.populations.map TypeNode.slot = first ++
            (SlotId.below (p.finish options).table.slotCount).filter (· ∉ first) := by
  refine ⟨?_, ?_⟩
  · have hkept : Kept host options fun log p => p.Orderly host log [] ∧ p.Sighted [] := sighted_kept
    have hsighted : p.Sighted [] := (hkept.runs ⟨orderly_initial, rfl⟩ hr).2
    rw [Sighted, List.append_nil] at hsighted
    exact hsighted
  · rintro files rfl
    obtain ⟨p', hr, hp'⟩ := Option.bind_eq_some_iff.mp hr
    cases hp'
    have hkept : Kept host options fun log p => p.Orderly host log [] := orderly_kept
    have hgrown : (initial.growTree options files).2.Introduced host [] [] :=
      ⟨hkept.grow files orderly_initial, rfl⟩
    have hdeclared := hgrown.declareAll (initial.declarationsOf options files)
    have hdecls : (initial.declarationsOf options files).map Prod.fst
        = ((SourceFile.packaged files).flatMap SourceFile.registered).map Prod.snd := by
      rw [declarationsOf_eq (PackageTree.represents_empty options.rootDir) files, List.map_map]
      rfl
    rw [hdecls] at hdeclared
    obtain ⟨rest, hslots, hasc⟩ := slots_drain? hdeclared.orderly hr
    have ho := hkept.run orderly_initial hr
    refine ⟨_, hdeclared.slots.of_growsTo (leadsTo_of_drain? hr).registry, ?_⟩
    exact hslots.trans (congrArg _ (ho.eq_filter_of_slots (pending_of_drain? hr) hslots hasc))

end Pass

/-- Three interfaces; the first refers to the last one, and to one that is not declared. -/
def Program.forestalled : Program where
  types := [
    .object .interfaceForm { ObjectShape.named "A" with
      members := [⟨"c", .property, ⟨12⟩, false⟩, ⟨"hidden", .property, ⟨13⟩, false⟩] },
    .object .interfaceForm (ObjectShape.named "B"),
    .object .interfaceForm (ObjectShape.named "C"),
    .object .interfaceForm (ObjectShape.named "Hidden")]
  declarations := [⟨10⟩, ⟨11⟩, ⟨12⟩]
  files := [
    ⟨"a.ts", [.interfaceDeclaration ⟨0⟩ (some "A"), .interfaceDeclaration ⟨1⟩ (some "B")], false⟩,
    ⟨"c.ts", [.interfaceDeclaration ⟨2⟩ (some "C")], false⟩]
  representatives := _
  no_problem := by decide
  representatives_eq := rfl

/-- The second interface gets its slot after those to which the first refers, and its
record before theirs. -/
theorem Pass.slots_of_forestalled :
    ∃ p, initial.runAll? Program.forestalled.host .default 4 [Program.forestalled.files] = some p ∧
      p.populations.map (·.slot.index) = [0, 3, 1, 2] ∧
      (p.populations.flatMap TypeNode.mentions).eraseDups = [⟨0⟩, ⟨1⟩, ⟨2⟩, ⟨3⟩] ∧
      p.registry.Assigns [⟨10⟩, ⟨11⟩, ⟨12⟩] [⟨0⟩, ⟨3⟩, ⟨1⟩] := by
  have hrun : (initial.runAll? Program.forestalled.host .default 4
      [Program.forestalled.files]).map
        (fun p => (p.populations.map (·.slot.index), p.registry.size))
          = some ([0, 3, 1, 2], 4) := by
    decide +kernel
  obtain ⟨p, hp, hp'⟩ := Option.map_eq_some_iff.mp hrun
  obtain ⟨hslots, hsize⟩ := Prod.mk.inj hp'
  obtain ⟨hsighted, hfirst⟩ := slots_in_order_of_sight _ _ _ _ _ hp
  obtain ⟨first, hassigns, hrecords⟩ := hfirst _ rfl
  have htypes : Program.forestalled.host.declaredTypes Program.forestalled.files
      = [⟨10⟩, ⟨11⟩, ⟨12⟩] := by
    decide +kernel
  have hthree : first.length = 3 := by
    have := congrArg List.length hassigns
    rwa [List.length_map, List.length_map, htypes] at this
  have htable : p.populations.map TypeNode.slot = [⟨0⟩, ⟨3⟩, ⟨1⟩, ⟨2⟩] := by
    have := congrArg (List.map SlotId.mk) hslots
    rwa [List.map_map] at this
  -- the declared types are the first three of the four
  have hprefix : first = [⟨0⟩, ⟨3⟩, ⟨1⟩] := by
    have := congrArg (List.take 3) (htable.symm.trans hrecords)
    rw [← hthree, List.take_left, hthree] at this
    exact this.symm
  refine ⟨p, hp, hslots, ?_, ?_⟩
  · refine hsighted.trans ?_
    show SlotId.below p.registry.size = _
    rw [hsize]
    rfl
  · rw [← htypes, ← hprefix]
    exact hassigns

end TypeCatalog
