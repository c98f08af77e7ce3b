/-
Every slot gets its record exactly once.

`Pass.Orderly` is the invariant of a pass.  The registry serves the host; every
record is the image of its slot's type; no slot has two records; every slot has
its record or waits in the queue, but for the slots that are just being dealt
with; and what ever joined the queue did so in ascending order of slots.  Every
act keeps it (`Pass.orderly_kept`), so when the queue is empty the records are
complete (`Pass.Orderly.populations_perm`).
-/
import Mathlib.Data.List.Perm.Subperm
import TypeCatalog.Proofs.Catalog.Image
import TypeCatalog.Proofs.Catalog.Run

namespace TypeCatalog

variable {host : TypeHost}

/-- The record of a slot is the image of the slot's type, and all child types have slots. -/
def Registry.Draws (host : TypeHost) (r : Registry) (n : TypeNode) : Prop :=
  ∃ e, r.entry? n.slot = some e ∧ n.name = e.name ∧
    n.kind = host.image r e.handle e.shape ∧
    ∀ t ∈ host.childTypes e.handle e.shape, host.IsLinked r t

theorem Registry.Draws.of_growsTo {r r' : Registry} {n : TypeNode} (hd : r.Draws host n)
    (hg : r.GrowsTo r') : r'.Draws host n := by
  obtain ⟨e, he, hname, hkind, hlinked⟩ := hd
  refine ⟨e, Registry.entry?_of_growsTo hg he, hname, ?_, fun t ht => (hlinked t ht).of_growsTo hg⟩
  rw [hkind, TypeHost.image_of_growsTo hlinked hg]

namespace Pass

/-- The invariant of a pass, with all that ever joined its queue and with the
slots that are just being dealt with. -/
structure Orderly (host : TypeHost) (log : Log) (atHand : List SlotId) (p : Pass) : Prop where
  serves : p.registry.Serves host
  drawn : ∀ n ∈ p.populations, p.registry.Draws host n
  once : (p.populations.map TypeNode.slot).Nodup
  covered : ∀ s : SlotId, s.index < p.registry.size →
    s ∈ p.populations.map TypeNode.slot ∨ s ∈ p.queue.pending.map Prod.snd ∨ s ∈ atHand
  waiting : p.queue.pending <:+ log
  counted : p.queue.pushed = log.length
  ascending : (log.map (·.2.index)).Pairwise (· < ·)
  bounded : ∀ d ∈ log, d.2.index < p.registry.size
  declared : ∀ decl slot, p.declared.get? decl = some slot → ∃ h name shape,
    host.classify (host.resolve decl) = .shape h name shape ∧ p.registry.lookup h = some slot

variable {options : CatalogOptions} {p : Pass} {log : Log} {slot : SlotId}

theorem isPopulated_iff : p.isPopulated slot ↔ slot ∈ p.populations.map TypeNode.slot := by
  simp [isPopulated]

theorem orderly_initial : initial.Orderly host [] [] where
  serves := Registry.serves_empty
  drawn _ hn := absurd hn List.not_mem_nil
  once := List.nodup_nil
  covered _ hs := absurd hs (Nat.not_lt_zero _)
  waiting := List.suffix_rfl
  counted := rfl
  ascending := List.Pairwise.nil
  bounded _ hd := absurd hd List.not_mem_nil
  declared decl _ hd := by
    rw [initial, OrderedMap.get?_empty] at hd
    cases hd

/-! ### Making one record -/

/-- What a look at the child types of an entry brings up. -/
def survey (host : TypeHost) (p : Pass) (e : Entry) : Survey :=
  Survey.ofPositions host (subject host e) p.registry (host.positions e.handle e.shape)

theorem populate_of_entry {e : Entry} (he : p.registry.entry? slot = some e) :
    p.populate host slot = { p with
      registry := (p.survey host e).registry
      queue := p.queue.extend (p.survey host e).found
      populations := p.populations
        ++ [⟨slot, e.name, host.image (p.survey host e).registry e.handle e.shape⟩]
      reports := p.reports ++ (p.survey host e).reports } := by
  rw [populate, he]
  rfl

/-- Settling a slot does nothing, or it makes the record of the slot's entry. -/
theorem settle_cases (host : TypeHost) (p : Pass) (slot : SlotId) :
    p.settle host slot = p ∨
    ∃ e, p.registry.entry? slot = some e ∧ p.settle host slot = { p with
      registry := (p.survey host e).registry
      queue := p.queue.extend (p.survey host e).found
      populations := p.populations
        ++ [⟨slot, e.name, host.image (p.survey host e).registry e.handle e.shape⟩]
      reports := p.reports ++ (p.survey host e).reports } := by
  unfold settle
  split
  · exact .inl rfl
  · cases he : p.registry.entry? slot with
    | none =>
      refine .inl ?_
      rw [populate, he]
    | some e => exact .inr ⟨e, rfl, populate_of_entry he⟩

theorem joined_extend {q : Pass} {found : Log} (hq : q.queue = p.queue.extend found) :
    p.joined q = found := by
  rw [joined, hq, DiscoveryQueue.extend, List.drop_left]

theorem joined_of_queue_eq {q : Pass} (hq : q.queue = p.queue) : p.joined q = [] := by
  rw [joined, hq, List.drop_length]

theorem survey_since (hr : p.registry.Serves host) (e : Entry) :
    (p.survey host e).Since host p.registry (host.positions e.handle e.shape) :=
  Survey.ofPositions_since hr (subject host e) (host.positions e.handle e.shape)

/-- After the look at an entry its image is what the record of its slot must be. -/
theorem draws_survey (hr : p.registry.Serves host) {e : Entry}
    (he : p.registry.entry? slot = some e) :
    (p.survey host e).registry.Draws host
      ⟨slot, e.name, host.image (p.survey host e).registry e.handle e.shape⟩ := by
  have hsince := survey_since hr e
  refine ⟨e, Registry.entry?_of_growsTo hsince.growsTo he, rfl, rfl, fun t ht => ?_⟩
  obtain ⟨c, hc, rfl⟩ := List.mem_map.mp ht
  exact hsince.linked c hc

theorem Orderly.populate (ho : p.Orderly host log [slot]) (hslot : slot.index < p.registry.size)
    (hnew : slot ∉ p.populations.map TypeNode.slot) :
    (p.populate host slot).Orderly host (log ++ p.joined (p.populate host slot)) [] := by
  obtain ⟨e, he⟩ := Registry.entry?_of_lt_size hslot
  have hsince := survey_since ho.serves e
  have hdraws := draws_survey ho.serves he
  have hgrow := hsince.growsTo
  rw [populate_of_entry he, joined_extend rfl]
  generalize p.survey host e = survey at hsince hdraws hgrow
  refine ⟨hsince.serves, ?_, ?_, ?_, ?_, ?_, ?_, ?_, ?_⟩
  · refine List.forall_mem_append.mpr ⟨fun n hn => ?_, List.forall_mem_singleton.mpr hdraws⟩
    exact (ho.drawn n hn).of_growsTo hgrow
  · rw [List.map_append, List.map_singleton, ← List.concat_eq_append]
    exact ho.once.concat hnew
  · intro s hs
    simp only [List.map_append, List.map_singleton, DiscoveryQueue.extend, List.mem_append,
      List.mem_singleton]
    by_cases hold : s.index < p.registry.size
    · rcases ho.covered s hold with h | h | h
      · exact .inl (.inl h)
      · exact .inr (.inl (.inl h))
      · exact .inl (.inr (List.mem_singleton.mp h))
    · -- a slot that has just been given out is among those found
      obtain ⟨d, hd, rfl⟩ := hsince.mem_found_iff.mpr ⟨Nat.le_of_not_lt hold, hs⟩
      exact .inr (.inl (.inr (List.mem_map_of_mem hd)))
  · obtain ⟨taken, htaken⟩ := ho.waiting
    exact ⟨taken, by rw [DiscoveryQueue.extend, ← htaken, List.append_assoc]⟩
  · show p.queue.pushed + survey.found.length = _
    rw [ho.counted, List.length_append]
  · rw [List.map_append, List.pairwise_append, hsince.found_slots.1]
    refine ⟨ho.ascending, List.pairwise_lt_range', ?_⟩
    -- what joined the queue before has smaller slots than what is found now
    intro i hi j hj
    obtain ⟨d, hd, rfl⟩ := List.mem_map.mp hi
    have hbound := ho.bounded d hd
    rw [List.mem_range'_1] at hj
    omega
  · refine List.forall_mem_append.mpr ⟨fun d hd => ?_, fun d hd => ?_⟩
    · exact Nat.lt_of_lt_of_le (ho.bounded d hd) hgrow.size_le
    · exact (hsince.mem_found_iff.mp ⟨d, hd, rfl⟩).2
  · intro decl s hs
    obtain ⟨h, name, shape, hc, hl⟩ := ho.declared decl s hs
    exact ⟨h, name, shape, hc, Registry.lookup_of_growsTo hgrow hl⟩

theorem Orderly.settle (ho : p.Orderly host log [slot]) (hslot : slot.index < p.registry.size) :
    (p.settle host slot).Orderly host (log ++ p.joined (p.settle host slot)) [] := by
  by_cases hpop : p.isPopulated slot
  · rw [Pass.settle, if_pos hpop, joined_of_queue_eq rfl, List.append_nil]
    refine { ho with covered := fun s hs => ?_ }
    rcases ho.covered s hs with h | h | h
    · exact .inl h
    · exact .inr (.inl h)
    · rw [List.mem_singleton] at h
      exact .inl (h ▸ isPopulated_iff.mp hpop)
  · rw [Pass.settle, if_neg hpop]
    exact ho.populate hslot fun h => hpop (isPopulated_iff.mpr h)

/-! ### The three acts -/

/-- A pass that has given the type of a declaration its slot. -/
def assign (p : Pass) (decl : DeclId) (name : String) (h : TypeHandle) (shape : Shape) : Pass :=
  { p with
    registry := (p.registry.identify h (some name) shape).2
    declared := p.declared.insert decl (p.registry.identify h (some name) shape).1.slot }

/-- A declaration is reported, or its type gets a slot and a record. -/
theorem declare_cases (host : TypeHost) (p : Pass) (decl : DeclId) (label : String) :
    ((∀ h name shape, host.classify (host.resolve decl) ≠ .shape h name shape) ∧
      ∃ report, p.declare host decl label = { p with reports := p.reports ++ [report] }) ∨
    ∃ h name shape, host.classify (host.resolve decl) = .shape h name shape ∧
      p.declare host decl label = (p.assign decl label h shape).settle host
        (p.registry.identify h (some label) shape).1.slot := by
  unfold declare
  split
  · rename_i hc
    exact .inl ⟨by simp [hc], _, rfl⟩
  · rename_i hc
    exact .inl ⟨by simp [hc], _, rfl⟩
  · rename_i h name shape hc
    exact .inr ⟨h, name, shape, hc, rfl⟩

theorem Orderly.assign (ho : p.Orderly host log []) {decl : DeclId} {h : TypeHandle}
    {name : Option String} {shape : Shape}
    (hc : host.classify (host.resolve decl) = .shape h name shape) (label : String) :
    (p.assign decl label h shape).Orderly host log
      [(p.registry.identify h (some label) shape).1.slot] := by
  have hgrow := p.registry.growsTo_identify h (some label) shape
  have hlook := p.registry.lookup_identify h (some label) shape
  have hcovered : ∀ s : SlotId, s.index < (p.registry.identify h (some label) shape).2.size →
      s.index < p.registry.size ∨ s = (p.registry.identify h (some label) shape).1.slot := by
    intro s hs
    obtain ⟨slot, -, he⟩ | ⟨-, he⟩ := p.registry.identify_cases h (some label) shape
    · rw [he] at hs
      exact .inl hs
    · rw [he] at hs ⊢
      rw [Registry.size, List.length_append, List.length_singleton] at hs
      rcases Nat.lt_succ_iff_lt_or_eq.mp hs with hs | hs
      · exact .inl hs
      · exact .inr (congrArg SlotId.mk hs)
  refine ⟨ho.serves.identify (some label) (TypeHost.hasShape_of_classify hc), ?_, ho.once, ?_,
    ho.waiting, ho.counted, ho.ascending, ?_, ?_⟩
  · intro n hn
    exact (ho.drawn n hn).of_growsTo hgrow
  · intro s hs
    rcases hcovered s hs with hs | rfl
    · rcases ho.covered s hs with h | h | h
      · exact .inl h
      · exact .inr (.inl h)
      · exact absurd h List.not_mem_nil
    · exact .inr (.inr (List.mem_singleton.mpr rfl))
  · intro d hd
    exact Nat.lt_of_lt_of_le (ho.bounded d hd) hgrow.size_le
  · intro decl' s hs
    change (p.declared.insert decl _).get? decl' = some s at hs
    rw [OrderedMap.get?_insert] at hs
    split at hs
    · rename_i hd
      cases hs
      exact ⟨h, name, shape, hd ▸ hc, hlook⟩
    · obtain ⟨h', name', shape', hc', hl⟩ := ho.declared decl' s hs
      exact ⟨h', name', shape', hc', Registry.lookup_of_growsTo hgrow hl⟩

theorem Orderly.declare (ho : p.Orderly host log []) (decl : DeclId) (name : String) :
    (p.declare host decl name).Orderly host (log ++ p.joined (p.declare host decl name)) [] := by
  obtain ⟨-, report, he⟩ | ⟨h, name', shape, hc, he⟩ := declare_cases host p decl name
  · have hq : (p.declare host decl name).queue = p.queue := by rw [he]
    rw [joined_of_queue_eq hq, List.append_nil, he]
    exact { ho with }
  · rw [he]
    exact (ho.assign hc name).settle
      (Registry.lt_size_of_lookup (p.registry.lookup_identify h (some name) shape))

theorem Orderly.take (ho : p.Orderly host log []) {first : TypeHandle × SlotId}
    {queue : DiscoveryQueue} (hp : p.queue.pop? = some (first, queue)) :
    ({ p with queue := queue } : Pass).Orderly host log [first.2] := by
  obtain ⟨hpending, hpushed⟩ := pop?_eq_some_iff.mp hp
  refine { ho with covered := fun s hs => ?_, waiting := ?_, counted := ?_ }
  · rcases ho.covered s hs with h | h | h
    · exact .inl h
    · rw [hpending, List.map_cons, List.mem_cons] at h
      rcases h with rfl | h
      · exact .inr (.inr (List.mem_singleton.mpr rfl))
      · exact .inr (.inl h)
    · exact absurd h List.not_mem_nil
  · exact (List.suffix_cons first queue.pending).trans (hpending ▸ ho.waiting)
  · exact hpushed.trans ho.counted

theorem Orderly.grow (ho : p.Orderly host log []) (files : List SourceFile) :
    (p.growTree options files).2.Orderly host log [] :=
  { ho with }

theorem Orderly.work (ho : p.Orderly host log []) {first : TypeHandle × SlotId}
    {queue : DiscoveryQueue} (hp : p.queue.pop? = some (first, queue)) :
    ({ p with queue := queue }.settle host first.2).Orderly host
      (log ++ joined { p with queue := queue } ({ p with queue := queue }.settle host first.2))
      [] := by
  refine (ho.take hp).settle (ho.bounded first (ho.waiting.mem ?_))
  rw [(pop?_eq_some_iff.mp hp).1]
  exact List.mem_cons_self

/-- Every act of a pass keeps its invariant. -/
theorem orderly_kept : Kept host options fun log p => p.Orderly host log [] where
  grow files ho := ho.grow files
  declare decl name ho := ho.declare decl name
  work hp ho := ho.work hp

theorem Orderly.declareAll (ho : p.Orderly host log []) (declarations : List (DeclId × String)) :
    (declarations.foldl (fun p d => p.declare host d.1 d.2) p).Orderly host
      (log ++ p.joinedByDeclaring host declarations) [] :=
  declareAll_induction (motive := fun _ log p => p.Orderly host log []) declarations
    (fun d _ ho => ho.declare d.1 d.2) ho

theorem Orderly.run (ho : p.Orderly host log []) {bound : Nat} {files : List SourceFile} {q : Pass}
    (hr : p.run? host options bound files = some q) :
    q.Orderly host (log ++ p.joinedByRun host options bound files) [] := by
  have hkept : Kept host options fun log p => p.Orderly host log [] := orderly_kept
  exact hkept.run ho hr

/-! ### When nothing waits -/

/-- When nothing waits, every slot has its record. -/
theorem Orderly.exists_record (ho : p.Orderly host log []) (hq : p.queue.pending = [])
    (hslot : slot.index < p.registry.size) : ∃ n ∈ p.populations, n.slot = slot := by
  rcases ho.covered slot hslot with h | h | h
  · exact List.mem_map.mp h
  · rw [hq] at h
    exact absurd h List.not_mem_nil
  · exact absurd h List.not_mem_nil

/-- The record of a slot that has one is drawn from the entry of the slot. -/
theorem Orderly.exists_drawn (ho : p.Orderly host log []) (hq : p.queue.pending = []) {e : Entry}
    (he : p.registry.entry? slot = some e) :
    ∃ n ∈ p.populations, n.slot = slot ∧ n.name = e.name ∧
      n.kind = host.image p.registry e.handle e.shape := by
  obtain ⟨n, hn, rfl⟩ := ho.exists_record hq (Registry.lt_size_of_entry he)
  obtain ⟨e', he', hname, hkind, -⟩ := ho.drawn n hn
  rw [he] at he'
  cases he'
  exact ⟨n, hn, rfl, hname, hkind⟩

/-- When nothing waits, the records are those of all slots, each once. -/
theorem Orderly.populations_perm (ho : p.Orderly host log []) (hq : p.queue.pending = []) :
    (p.populations.map (·.slot.index)).Perm (List.range p.registry.size) := by
  have honce : (p.populations.map (·.slot.index)).Nodup := by
    have := ho.once.map (f := SlotId.index) fun a b h => congrArg SlotId.mk h
    rwa [List.map_map] at this
  refine (List.perm_ext_iff_of_nodup honce List.nodup_range).mpr fun i => ?_
  rw [List.mem_range, List.mem_map]
  constructor
  · rintro ⟨n, hn, rfl⟩
    obtain ⟨e, he, -⟩ := ho.drawn n hn
    exact Registry.lt_size_of_entry he
  · intro hi
    have hslot : (⟨i⟩ : SlotId).index < p.registry.size := hi
    obtain ⟨n, hn, hs⟩ := ho.exists_record hq hslot
    exact ⟨n, hn, congrArg SlotId.index hs⟩

theorem Orderly.length_populations (ho : p.Orderly host log []) (hq : p.queue.pending = []) :
    p.populations.length = p.registry.size := by
  simpa using (ho.populations_perm hq).length_eq

/-- The edges of the records lead to slots that have been given out. -/
theorem Orderly.slotRefs_lt (ho : p.Orderly host log []) :
    ∀ n ∈ p.populations, ∀ s ∈ n.slotRefs, s.index < p.registry.size := by
  intro n hn s hs
  obtain ⟨e, -, -, hkind, -⟩ := ho.drawn n hn
  obtain ⟨edge, hedge, hslot⟩ := List.mem_filterMap.mp hs
  rw [TypeNode.edges, hkind] at hedge
  exact TypeHost.isBelow_of_mem_edges_image e.shape edge hedge s hslot

end Pass

end TypeCatalog
