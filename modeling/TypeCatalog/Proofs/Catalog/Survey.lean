/-
What one look at the child types of a record does to the registry.

A registry that serves a host (`Registry.Serves`) has no handle twice, and gives
every handle the shape that the host's answers ask for.  A survey keeps this,
only adds entries, and adds them for child types alone; at its end every child
type that can be catalogued has a slot, and what it found are the new entries
with their slots, in order (`Survey.ofPositions_since`).
-/
import TypeCatalog.Catalog.Pass
import TypeCatalog.Proofs.Catalog.Registry

namespace TypeCatalog

variable {host : TypeHost}

/-! ### Shapes of handles -/

/-- The handle of a shape is the one that was asked for. -/
theorem handle_of_classifyKind {isArrayLike : TypeHandle → Bool} {h h' : TypeHandle}
    {k : TypeKind} {name : Option String} {shape : Shape}
    (hc : classifyKind isArrayLike h k = .shape h' name shape) : h' = h := by
  unfold classifyKind at hc
  split at hc
  all_goals first
    | (split at hc <;> cases hc <;> rfl)
    | (cases hc <;> rfl)

namespace TypeHost

/-- The host's answers give a handle this shape. -/
def HasShape (host : TypeHost) (h : TypeHandle) (shape : Shape) : Prop :=
  ∃ name, classifyKind host.isArrayLike h (host.kind h) = .shape h name shape

/-- A type that can be catalogued has a slot. -/
def IsLinked (host : TypeHost) (r : Registry) (type : TypeHandle) : Prop :=
  ∀ h name shape, host.classify type = .shape h name shape → ∃ s, r.lookup h = some s

variable {type h : TypeHandle} {name : Option String} {shape : Shape} {r r' : Registry}

theorem handle_of_classify (hc : host.classify type = .shape h name shape) :
    h = host.canonical type :=
  handle_of_classifyKind hc

theorem hasShape_of_classify (hc : host.classify type = .shape h name shape) :
    host.HasShape h shape := by
  have hh := handle_of_classify hc
  subst hh
  exact ⟨name, hc⟩

theorem IsLinked.of_growsTo (hl : host.IsLinked r type) (hg : r.GrowsTo r') :
    host.IsLinked r' type := by
  intro h name shape hc
  obtain ⟨s, hs⟩ := hl h name shape hc
  exact ⟨s, Registry.lookup_of_growsTo hg hs⟩

end TypeHost

/-- No handle twice, and every handle with the shape that the host's answers ask for. -/
structure Registry.Serves (host : TypeHost) (r : Registry) : Prop where
  nodup : r.handles.Nodup
  shaped : ∀ e ∈ r.entries, host.HasShape e.handle e.shape

namespace Registry

theorem serves_empty : empty.Serves host :=
  ⟨List.nodup_nil, fun _ he => absurd he List.not_mem_nil⟩

variable {r : Registry} {e : Entry}

theorem Serves.concat (hr : r.Serves host) (hnew : e.handle ∉ r.handles)
    (hshape : host.HasShape e.handle e.shape) : Serves host ⟨r.entries ++ [e]⟩ := by
  constructor
  · rw [handles, List.map_append, List.map_singleton, ← List.concat_eq_append]
    exact hr.nodup.concat hnew
  · intro e' he'
    rcases List.mem_append.mp he' with he' | he'
    · exact hr.shaped e' he'
    · rw [List.mem_singleton] at he'
      exact he' ▸ hshape

theorem Serves.identify (hr : r.Serves host) {h : TypeHandle} {shape : Shape}
    (name : Option String) (hshape : host.HasShape h shape) :
    (r.identify h name shape).2.Serves host := by
  obtain ⟨s, -, he⟩ | ⟨hnew, he⟩ := r.identify_cases h name shape
  · rw [he]
    exact hr
  · rw [he]
    exact hr.concat hnew hshape

end Registry

namespace Survey

/-- A survey of some child types that started with the given registry. -/
structure Since (host : TypeHost) (r : Registry) (positions : List Position) (s : Survey) :
    Prop where
  serves : s.registry.Serves host
  linked : ∀ c ∈ positions, host.IsLinked s.registry c.type
  news : ∃ news : List Entry,
    s.registry.entries = r.entries ++ news ∧
    s.found = (news.zipIdx r.size).map (fun e => (e.1.handle, ⟨e.2⟩)) ∧
    ∀ e ∈ news, ∃ c ∈ positions, host.classify c.type = .shape e.handle e.name e.shape

variable {r : Registry} {positions : List Position} {s : Survey}

/-- A survey goes past a type that has no shape. -/
theorem Since.skip (hs : s.Since host r positions) {position : Position}
    (hno : ∀ h name shape, host.classify position.type ≠ .shape h name shape)
    (reports : List Diagnostic) :
    ({ s with reports := reports } : Survey).Since host r (positions ++ [position]) := by
  obtain ⟨news, hentries, hfound, hnews⟩ := hs.news
  refine ⟨hs.serves, ?_, news, hentries, hfound, ?_⟩
  · refine List.forall_mem_append.mpr ⟨hs.linked, List.forall_mem_singleton.mpr ?_⟩
    -- there is no shape for which a slot would be missing
    intro h name shape hc
    exact absurd hc (hno h name shape)
  · intro e he
    obtain ⟨c, hc, hce⟩ := hnews e he
    exact ⟨c, List.mem_append_left _ hc, hce⟩

theorem note_of_shape (subject : String) {position : Position} {h : TypeHandle}
    {name : Option String} {shape : Shape}
    (hc : host.classify position.type = .shape h name shape) :
    note host subject s position = { s with
      registry := (s.registry.identify h name shape).2
      found := if (s.registry.identify h name shape).1.isFresh
        then s.found ++ [(h, (s.registry.identify h name shape).1.slot)] else s.found } := by
  rw [Survey.note, hc]

/-- A type that has a shape gets a slot, if it has none. -/
theorem Since.link (hs : s.Since host r positions) (subject : String) {position : Position}
    {h : TypeHandle} {name : Option String} {shape : Shape}
    (hc : host.classify position.type = .shape h name shape) :
    (note host subject s position).Since host r (positions ++ [position]) := by
  obtain ⟨news, hentries, hfound, hnews⟩ := hs.news
  have hweaken : ∀ e ∈ news, ∃ c ∈ positions ++ [position],
      host.classify c.type = .shape e.handle e.name e.shape := by
    intro e he
    obtain ⟨c, hmem, hce⟩ := hnews e he
    exact ⟨c, List.mem_append_left _ hmem, hce⟩
  have hlinked : ∀ c ∈ positions ++ [position],
      host.IsLinked (s.registry.identify h name shape).2 c.type := by
    refine List.forall_mem_append.mpr ⟨?_, List.forall_mem_singleton.mpr ?_⟩
    · intro c hmem
      exact (hs.linked c hmem).of_growsTo (s.registry.growsTo_identify h name shape)
    · intro h' name' shape' hc'
      rw [hc] at hc'
      cases hc'
      exact ⟨_, s.registry.lookup_identify h name shape⟩
  rw [note_of_shape subject hc]
  refine ⟨hs.serves.identify name (TypeHost.hasShape_of_classify hc), hlinked, ?_⟩
  obtain ⟨slot, -, he⟩ | ⟨-, he⟩ := s.registry.identify_cases h name shape
  · rw [he]
    exact ⟨news, hentries, hfound, hweaken⟩
  · -- the slot is a new one, so its entry is the last of the news
    have hsize : s.registry.size = r.size + news.length := by
      rw [Registry.size, hentries, List.length_append]
      rfl
    rw [he]
    refine ⟨news ++ [⟨h, name, shape⟩], ?_, ?_, ?_⟩
    · show s.registry.entries ++ _ = _
      rw [hentries, List.append_assoc]
    · show (if true = true then s.found ++ [(h, ⟨s.registry.size⟩)] else s.found) = _
      rw [if_pos rfl, hfound, hsize, List.zipIdx_append, List.map_append, List.zipIdx_singleton,
        List.map_singleton]
    · refine List.forall_mem_append.mpr ⟨hweaken, List.forall_mem_singleton.mpr ?_⟩
      exact ⟨position, List.mem_append_right _ (List.mem_singleton.mpr rfl), hc⟩

theorem Since.note (hs : s.Since host r positions) (subject : String) (position : Position) :
    (note host subject s position).Since host r (positions ++ [position]) := by
  cases hc : host.classify position.type with
  | intrinsic k =>
    rw [Survey.note, hc]
    exact hs.skip (by simp [hc]) s.reports
  | shape h name shape => exact hs.link subject hc
  | unsupported reason =>
    rw [Survey.note, hc]
    exact hs.skip (by simp [hc]) _

theorem Since.foldl_note (subject : String) (rest : List Position) {done : List Position}
    (hs : s.Since host r done) :
    (rest.foldl (Survey.note host subject) s).Since host r (done ++ rest) := by
  induction rest generalizing done s with
  | nil => simpa using hs
  | cons position rest ih => simpa using ih (hs.note subject position)

/-- A survey of all child types is a survey since its start. -/
theorem ofPositions_since (hr : r.Serves host) (subject : String) (positions : List Position) :
    (ofPositions host subject r positions).Since host r positions := by
  have hstart : (⟨r, [], []⟩ : Survey).Since host r [] :=
    ⟨hr, fun _ hc => absurd hc List.not_mem_nil, [], by simp, rfl,
      fun _ he => absurd he List.not_mem_nil⟩
  exact hstart.foldl_note subject positions

theorem Since.growsTo (hs : s.Since host r positions) : r.GrowsTo s.registry := by
  obtain ⟨news, hentries, -⟩ := hs.news
  exact ⟨news, hentries.symm⟩

/-- What was found has exactly the new slots, in order. -/
theorem Since.found_slots (hs : s.Since host r positions) :
    s.found.map (·.2.index) = List.range' r.size s.found.length ∧
      s.registry.size = r.size + s.found.length := by
  obtain ⟨news, hentries, hfound, -⟩ := hs.news
  have hlen : s.found.length = news.length := by simp [hfound]
  refine ⟨?_, ?_⟩
  · rw [hlen, hfound, List.map_map, ← List.zipIdx_map_snd]
    rfl
  · rw [Registry.size, hentries, List.length_append, hlen]
    rfl

/-- The slots of what was found are those that have been given out since. -/
theorem Since.mem_found_iff (hs : s.Since host r positions) {slot : SlotId} :
    (∃ d ∈ s.found, d.2 = slot) ↔ r.size ≤ slot.index ∧ slot.index < s.registry.size := by
  obtain ⟨hfound, hsize⟩ := hs.found_slots
  have hmem : slot.index ∈ s.found.map (·.2.index) ↔
      r.size ≤ slot.index ∧ slot.index < s.registry.size := by
    rw [hfound, List.mem_range'_1, hsize]
  rw [← hmem, List.mem_map]
  constructor
  · rintro ⟨d, hd, rfl⟩
    exact ⟨d, hd, rfl⟩
  · rintro ⟨d, hd, hslot⟩
    exact ⟨d, hd, congrArg SlotId.mk hslot⟩

end Survey

end TypeCatalog
