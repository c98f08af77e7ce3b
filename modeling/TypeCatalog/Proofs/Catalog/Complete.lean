/-
Tables of finished passes are complete.

A table is complete (`MetadataTable.IsComplete`) when its records are those of
its slots, each slot having one, and when no edge and no name leads beyond its
slots.  Whatever a host answers, a sequence of runs that come to their ends
leaves nothing in the queue, never puts a slot into the queue twice, and has a
complete table (`complete_of_runAll?`).
-/
import TypeCatalog.Program
import TypeCatalog.Proofs.Catalog.Population
import TypeCatalog.Proofs.Package.Directory

namespace TypeCatalog

/-- Every slot has one record, and nothing leads beyond the slots. -/
structure MetadataTable.IsComplete (t : MetadataTable) : Prop where
  records : (t.populations.map (·.slot.index)).Perm (List.range t.slotCount)
  edges : ∀ n ∈ t.populations, ∀ s ∈ n.slotRefs, s.index < t.slotCount
  names : ∀ names ∈ t.packages.values, ∀ s ∈ names.values, s.index < t.slotCount

namespace Pass

variable {host : TypeHost} {options : CatalogOptions} {p : Pass} {log : Log}

theorem Orderly.isComplete_finish (ho : p.Orderly host log []) (hq : p.queue.pending = []) :
    (p.finish options).table.IsComplete where
  records := ho.populations_perm hq
  edges := ho.slotRefs_lt
  names names hn s hs := by
    obtain ⟨decl, hd⟩ := Directory.get?_of_mem_ofTree options.packageLayout p.tree p.declared
      names hn s hs
    obtain ⟨h, name, shape, -, hl⟩ := ho.declared decl s hd
    exact Registry.lt_size_of_lookup hl

theorem orderly_of_runAll? {bound : Nat} {runs : List (List SourceFile)}
    (hr : initial.runAll? host options bound runs = some p) :
    p.Orderly host (joinedByRuns host options bound initial runs) [] :=
  orderly_kept.runs orderly_initial hr

/-- After runs that came to their ends nothing waits, no slot was put into the
queue twice, and the table is complete. -/
theorem complete_of_runAll? (host : TypeHost) (options : CatalogOptions) (bound : Nat)
    (runs : List (List SourceFile)) (p : Pass)
    (hr : initial.runAll? host options bound runs = some p) :
    p.queue.pending = [] ∧
    p.queue.pushed = (joinedByRuns host options bound initial runs).length ∧
    ((joinedByRuns host options bound initial runs).map Prod.snd).Nodup ∧
    (p.finish options).table.IsComplete := by
  have ho := orderly_of_runAll? hr
  have hq : p.queue.pending = [] := pending_of_runAll? rfl hr
  refine ⟨hq, ho.counted, ?_, ho.isComplete_finish hq⟩
  refine List.Nodup.of_map SlotId.index ?_
  rw [List.map_map]
  exact ho.ascending.imp Nat.ne_of_lt

end Pass

/-- An interface and a class that refer to each other, each in its own file. -/
def Program.linkedPair : Program where
  types := [
    .object .interfaceForm
      { ObjectShape.named "A" with members := [⟨"b", .property, ⟨11⟩, false⟩] },
    .object .classForm { ObjectShape.named "B" with members := [⟨"a", .property, ⟨10⟩, true⟩] }]
  declarations := [⟨10⟩, ⟨11⟩]
  files := [⟨"a.ts", [.interfaceDeclaration ⟨0⟩ (some "A")], false⟩,
    ⟨"b.ts", [.classDeclaration ⟨1⟩ (some "B")], false⟩]
  representatives := _
  no_problem := by decide
  representatives_eq := rfl

/-- The class is found through the interface, and waits while it is declared. -/
theorem Pass.complete_of_two_runs :
    ∃ p, initial.runAll? Program.linkedPair.host .default 2
        [Program.linkedPair.files, Program.linkedPair.files] = some p ∧
      p.populations.map (·.slot.index) = [0, 1] ∧ p.queue.pushed = 1 ∧
      p.queue.pending = [] ∧ (p.finish .default).table.IsComplete := by
  have hrun : (initial.runAll? Program.linkedPair.host .default 2
      [Program.linkedPair.files, Program.linkedPair.files]).map
        (fun p => (p.populations.map (·.slot.index), p.queue.pushed)) = some ([0, 1], 1) := by
    decide +kernel
  obtain ⟨p, hp, hp'⟩ := Option.map_eq_some_iff.mp hrun
  obtain ⟨hslots, hpushed⟩ := Prod.mk.inj hp'
  obtain ⟨hpending, -, -, hcomplete⟩ := complete_of_runAll? _ _ _ _ _ hp
  exact ⟨p, hp, hslots, hpushed, hpending, hcomplete⟩

end TypeCatalog
