/-
How many types a run has to work off.

A host fits into a number (`TypeHost.FitsIn`) when no registry that serves it can
have more slots.  Making a record takes as many slots from what is left as it
puts types into the queue, so the number is a bound with which every run comes
to its end (`Pass.exists_run?`).  A program fits into the number of its own types
(`Program.fitsIn`).
-/
import TypeCatalog.Program
import TypeCatalog.Proofs.Catalog.Population

namespace TypeCatalog

/-- No registry that serves the host has more slots. -/
def TypeHost.FitsIn (host : TypeHost) (size : Nat) : Prop :=
  ∀ r : Registry, r.Serves host → r.size ≤ size

namespace Pass

variable {host : TypeHost} {options : CatalogOptions} {p : Pass} {log : Log} {slot : SlotId}

/-- Never have more types joined the queue than there are slots. -/
theorem Orderly.length_log_le {atHand : List SlotId} (ho : p.Orderly host log atHand) :
    log.length ≤ p.registry.size := by
  have hnodup : (log.map (·.2.index)).Nodup := ho.ascending.imp Nat.ne_of_lt
  have hsub : log.map (·.2.index) ⊆ List.range p.registry.size := by
    intro i hi
    obtain ⟨d, hd, rfl⟩ := List.mem_map.mp hi
    exact List.mem_range.mpr (ho.bounded d hd)
  simpa using (hnodup.subperm hsub).length_le

/-- What a record takes from the slots that are left, it puts into the queue. -/
theorem settle_balance (hs : p.registry.Serves host) (slot : SlotId) :
    (p.settle host slot).queue.pending.length + p.registry.size
      = p.queue.pending.length + (p.settle host slot).registry.size := by
  obtain he | ⟨e, -, he⟩ := settle_cases host p slot
  · rw [he]
  · obtain ⟨-, hsize⟩ := (survey_since hs e).found_slots
    rw [he]
    show (p.queue.pending ++ (p.survey host e).found).length + _ = _
    rw [List.length_append, hsize]
    omega

theorem exists_drain? {size bound : Nat} (hfit : host.FitsIn size) (ho : p.Orderly host log [])
    (hb : p.queue.pending.length + (size - p.registry.size) ≤ bound) :
    ∃ q, p.drain? host bound = some q := by
  induction bound generalizing log p with
  | zero =>
    have hempty : p.queue.pending = [] := List.length_eq_zero_iff.mp (by omega)
    exact ⟨p, drain?_of_pop?_none 0 (pop?_eq_none_iff.mpr hempty)⟩
  | succ bound ih =>
    cases hp : p.queue.pop? with
    | none => exact ⟨p, drain?_of_pop?_none _ hp⟩
    | some next =>
      obtain ⟨first, queue⟩ := next
      rw [drain?_of_pop?_some hp]
      have ho' := ho.work hp
      refine ih ho' ?_
      -- one type less waits for each slot that is given out, and there are not more than fit
      have hbalance := settle_balance (p := { p with queue := queue }) ho.serves first.2
      have hsize := hfit _ ho'.serves
      have hlength := congrArg List.length (pop?_eq_some_iff.mp hp).1
      rw [List.length_cons] at hlength
      change _ + p.registry.size = queue.pending.length + _ at hbalance
      omega

/-- A run over a host that fits into the bound comes to its end. -/
theorem exists_run? {bound : Nat} (hfit : host.FitsIn bound) (ho : p.Orderly host log [])
    (options : CatalogOptions) (files : List SourceFile) :
    ∃ q, p.run? host options bound files = some q := by
  have hgrown : (p.growTree options files).2.Orderly host log [] := ho.grow files
  have ho' := hgrown.declareAll (p.declarationsOf options files)
  change (p.declareFiles host options files).Orderly host _ [] at ho'
  rw [run?_eq]
  refine exists_drain? hfit ho' ?_
  -- what waits and what is still to be found are all slots that there can be
  have hwaiting := ho'.waiting.length_le
  have hlog := ho'.length_log_le
  have hsize := hfit _ ho'.serves
  omega

/-- So does every sequence of runs. -/
theorem exists_runAll? {bound : Nat} (hfit : host.FitsIn bound) (ho : p.Orderly host log [])
    (options : CatalogOptions) (runs : List (List SourceFile)) :
    ∃ q, p.runAll? host options bound runs = some q := by
  induction runs generalizing p log with
  | nil => exact ⟨p, rfl⟩
  | cons files rest ih =>
    obtain ⟨p', hp'⟩ := exists_run? hfit ho options files
    obtain ⟨q, hq⟩ := ih (ho.run hp')
    exact ⟨q, Option.bind_eq_some_iff.mpr ⟨p', hp', hq⟩⟩

end Pass

namespace Program

variable {host : TypeHost} {h : TypeHandle} {shape : Shape}

theorem type?_intrinsic (program : Program) (hh : h.index < Intrinsic.count) :
    ∃ k, program.type? h = some (.intrinsic k) := by
  have hlen : h.index < Intrinsic.all.length := hh
  refine ⟨Intrinsic.all[h.index], ?_⟩
  rw [type?, arena, TypeData.intrinsics, List.getElem?_append_left (by simpa using hlen),
    List.getElem?_map, List.getElem?_eq_getElem hlen]
  rfl

/-- What has a shape is one of the program's own types. -/
theorem mem_range'_of_hasShape (program : Program) (hk : host.kind = program.kind)
    (hs : host.HasShape h shape) :
    h.index ∈ List.range' Intrinsic.count program.types.length := by
  obtain ⟨name, hc⟩ := hs
  rw [hk, kind] at hc
  rw [List.mem_range'_1]
  -- handles below the types are primitive, and handles beyond them unknown
  by_contra hout
  by_cases hlow : h.index < Intrinsic.count
  · obtain ⟨k, hk⟩ := program.type?_intrinsic hlow
    rw [hk] at hc
    cases hc
  · have hnone : program.type? h = none := by
      rw [type?, arena, List.getElem?_eq_none_iff, List.length_append]
      simp only [TypeData.intrinsics, List.length_map, Intrinsic.length_all]
      omega
    rw [hnone] at hc
    cases hc

/-- No registry that serves a program has more slots than the program has types of its own. -/
theorem fitsIn (program : Program) (hk : host.kind = program.kind) :
    host.FitsIn program.types.length := by
  intro r hr
  have hnodup : (r.entries.map (·.handle.index)).Nodup := by
    have := hr.nodup.map (f := TypeHandle.index) fun a b h => congrArg TypeHandle.mk h
    rwa [Registry.handles, List.map_map] at this
  have hsub : r.entries.map (·.handle.index) ⊆
      List.range' Intrinsic.count program.types.length := by
    intro i hi
    obtain ⟨e, he, rfl⟩ := List.mem_map.mp hi
    exact program.mem_range'_of_hasShape hk (hr.shaped e he)
  simpa [Registry.size] using (hnodup.subperm hsub).length_le

/-- Cataloguing a program comes to an end, the same one for every bound that is large enough. -/
theorem exists_run? (program : Program) (hk : host.kind = program.kind) (options : CatalogOptions)
    (files : List SourceFile) :
    ∃ p, ∀ bound, program.typeCount ≤ bound →
      Pass.initial.run? host options bound files = some p := by
  obtain ⟨p, hp⟩ := Pass.exists_run? (program.fitsIn hk) Pass.orderly_initial options files
  exact ⟨p, fun bound hb => Pass.run?_mono (Nat.le_trans (Nat.le_add_right _ _) hb) hp⟩

/-- The same holds of a sequence of runs. -/
theorem exists_runAll? (program : Program) (hk : host.kind = program.kind)
    (options : CatalogOptions) (runs : List (List SourceFile)) :
    ∃ p, ∀ bound, program.typeCount ≤ bound →
      Pass.initial.runAll? host options bound runs = some p := by
  obtain ⟨p, hp⟩ := Pass.exists_runAll? (program.fitsIn hk) Pass.orderly_initial options runs
  exact ⟨p, fun bound hb => Pass.runAll?_mono (Nat.le_trans (Nat.le_add_right _ _) hb) hp⟩

end Program

end TypeCatalog
