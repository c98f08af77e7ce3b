/-
Every child type that cannot be shown is reported once.

A gap is a place of a slot whose child type has no record and is not primitive
(`Pass.IsGap`); why it has none is told by a code, and which it is by the name of the
slot and the label of the place.  The reports with these codes go through the gaps,
each of them once, whatever was catalogued in how many runs
(`Program.enumerates_gaps`): the shape of an entry has its positions where the host's
answers have places, a finished pass has looked at every entry once, and all other
reports have other codes.
-/
import TypeCatalog.Proofs.Catalog.Places
import TypeCatalog.Proofs.Catalog.Reports

namespace TypeCatalog

/-- The code that tells why types of a kind cannot be shown, if they cannot. -/
def TypeKind.gapCode? : TypeKind → Option Nat
  | .literal _ => some 9001
  | .objectLiteral => some 9002
  | .classExpression none _ => some 9003
  | .unknown _ => some 9004
  | _ => none

namespace Diagnostic

/-- Whether a report is on a child type that cannot be shown. -/
def IsOnGap (d : Diagnostic) : Prop := 9001 ≤ d.code ∧ d.code ≤ 9004

instance : DecidablePred IsOnGap := fun _ => inferInstanceAs (Decidable (_ ∧ _))

end Diagnostic

namespace TypeHost

variable {host : TypeHost}

/-- What is to be reported on a child type, by its code and its subject. -/
def gap? (host : TypeHost) (subject : String) (position : Position) : Option (Nat × String) :=
  (host.kindOf position.type).gapCode?.map fun code =>
    (code, subject ++ "." ++ position.label)

/-- A child type is reported exactly if it is a gap, and as this gap. -/
theorem map_reportOn? (subject : String) (position : Position) :
    (host.reportOn? subject position).map (fun d => (d.code, d.subject))
      = host.gap? subject position := by
  rw [reportOn?, gap?, classify, kindOf]
  cases host.kind (host.canonical position.type) with
  | classExpression name _ => cases name <;> rfl
  | reference target typeArguments =>
    rcases typeArguments with _ | ⟨element, _ | ⟨second, rest⟩⟩
    · rfl
    · -- arrays and other references have records alike
      rw [classifyKind]
      cases host.isArrayLike target <;> rfl
    · rfl
  | _ => rfl

theorem isOnGap_of_mem_reportsOnEntry {e : Entry} {d : Diagnostic}
    (hd : d ∈ host.reportsOnEntry e) : d.IsOnGap := by
  obtain ⟨position, -, hreport⟩ := List.mem_filterMap.mp hd
  unfold reportOn? at hreport
  split at hreport
  · rename_i reason _
    cases hreport
    cases reason <;>
      simp [Diagnostic.IsOnGap, Unsupported.report, Diagnostic.ofNotice, Notice.code]
  · cases hreport

/-- What is reported on an entry goes through the gaps among the places of its type. -/
theorem enumerates_reportsOnEntry {e : Entry} (hs : host.HasShape e.handle e.shape) :
    Enumerates
      (fun place gap => ∃ position, host.childAt? e.handle place = some position ∧
        host.gap? (Pass.subject host e) position = some gap)
      ((host.reportsOnEntry e).map fun d => (d.code, d.subject)) := by
  have hmap : (host.reportsOnEntry e).map (fun d => (d.code, d.subject))
      = (host.positions e.handle e.shape).filterMap (host.gap? (Pass.subject host e)) := by
    rw [reportsOnEntry, List.map_filterMap]
    exact List.filterMap_congr fun position _ => map_reportOn? _ position
  rw [hmap]
  exact (enumerates_positions hs).filterMap _

/-- Nothing that is reported on a file is about a child type. -/
theorem not_isOnGap_of_mem_reportsOnFile {rootDir : Option String} {file : SourceFile}
    {d : Diagnostic} (hd : d ∈ host.reportsOnFile rootDir file) : ¬ d.IsOnGap := by
  have hcode : 9004 < d.code := by
    rcases List.mem_append.mp hd with hd | hd
    · exact Statement.lt_code_of_mem_listReports _ hd
    · obtain ⟨declared, -, hd⟩ := List.mem_filterMap.mp hd
      have hunreflectable : 9004 < Notice.unreflectableDeclaration.code := by decide
      unfold refusal? at hd
      split at hd
      · cases hd
        exact hunreflectable
      · cases hd
        exact hunreflectable
      · cases hd
  exact fun h => Nat.not_lt.mpr h.2 hcode

end TypeHost

namespace Pass

variable {host : TypeHost} {options : CatalogOptions} {p : Pass} {bound : Nat}
  {runs : List (List SourceFile)}

/-- A place of a slot with a record has a child type that cannot be shown.  It goes by a
code, and by the name of the slot, or that of its type for people, with the label of the
place. -/
def IsGap (host : TypeHost) (p : Pass) (place : SlotId × TypePlace) (gap : Nat × String) : Prop :=
  ∃ n ∈ p.populations, n.slot = place.1 ∧
    ∃ e, p.registry.entry? n.slot = some e ∧
      ∃ position, host.childAt? e.handle place.2 = some position ∧
        (host.kindOf position.type).gapCode? = some gap.1 ∧
        gap.2 = n.name.getD (host.displayName e.handle) ++ "." ++ position.label

/-- What is reported on all entries goes through the gaps of their slots. -/
theorem Orderly.enumerates_reportsOnEntries {log : Log} (ho : p.Orderly host log [])
    (hq : p.queue.pending = []) :
    Enumerates (p.IsGap host)
      ((p.registry.entries.flatMap host.reportsOnEntry).map fun d => (d.code, d.subject)) := by
  -- the registry lists its entries by their slots
  have hentries := Enumerates.flatMap p.registry.entries fun e he =>
    TypeHost.enumerates_reportsOnEntry (ho.serves.shaped e he)
  have hslots : Function.Injective fun place : Nat × TypePlace => (SlotId.mk place.1, place.2) := by
    rintro ⟨i, place⟩ ⟨j, place'⟩ h
    cases h
    rfl
  rw [List.map_flatMap]
  refine (hentries.relabel hslots).congr ?_
  rintro ⟨slot, place⟩ ⟨code, subject⟩
  constructor
  · rintro ⟨⟨i, place⟩, hplace, e, he, position, hposition, hgap⟩
    obtain ⟨rfl, rfl⟩ := Prod.mk.inj hplace
    have hentry : p.registry.entry? ⟨i⟩ = some e := he
    -- nothing is pending, so there is a record for the entry
    obtain ⟨n, hn, hslot, hname, -⟩ := ho.exists_drawn hq hentry
    obtain ⟨_, hcode, hpair⟩ := Option.map_eq_some_iff.mp hgap
    obtain ⟨rfl, rfl⟩ := Prod.mk.inj hpair
    exact ⟨n, hn, hslot, e, hslot ▸ hentry, position, hposition, hcode, by rw [hname]; rfl⟩
  · rintro ⟨n, hn, rfl, e, he, position, hposition, hcode, rfl⟩
    obtain ⟨e', he', hname, -⟩ := ho.drawn n hn
    rw [he] at he'
    cases he'
    refine ⟨(n.slot.index, place), rfl, e, he, position, hposition, ?_⟩
    exact Option.map_eq_some_iff.mpr ⟨code, hcode, by rw [hname]; rfl⟩

/-- At the end of a sequence of runs the reports on child types go through the gaps. -/
theorem enumerates_gaps_of_runAll? (hr : initial.runAll? host options bound runs = some p) :
    Enumerates (p.IsGap host)
      (((p.finish options).diagnostics.filter fun d => d.IsOnGap).map
        fun d => (d.code, d.subject)) := by
  -- of the three sources of reports, only the entries have gaps
  have hdirectory : ((Directory.ofTree options.packageLayout p.tree p.declared).reports.filter
      fun d => d.IsOnGap) = [] := by
    refine List.filter_eq_nil_iff.mpr fun d hd => ?_
    have hcode := Directory.reportsNames_ofTree options.packageLayout p.tree p.declared d hd
    simpa using fun h : d.IsOnGap => Nat.not_lt.mpr h.2 hcode
  have hfiles : (((SourceFile.packaged runs.flatten).flatMap
      (host.reportsOnFile options.rootDir)).filter fun d => d.IsOnGap) = [] := by
    refine List.filter_eq_nil_iff.mpr fun d hd => ?_
    obtain ⟨file, -, hd⟩ := List.mem_flatMap.mp hd
    simpa using TypeHost.not_isOnGap_of_mem_reportsOnFile hd
  have hentries : ((p.registry.entries.flatMap host.reportsOnEntry).filter fun d => d.IsOnGap)
      = p.registry.entries.flatMap host.reportsOnEntry := by
    refine List.filter_eq_self.mpr fun d hd => ?_
    obtain ⟨e, -, hd⟩ := List.mem_flatMap.mp hd
    simpa using TypeHost.isOnGap_of_mem_reportsOnEntry hd
  have hperm := (reports_perm_of_runAll? hr).filter fun d => d.IsOnGap
  rw [List.filter_append, hfiles, hentries, List.nil_append] at hperm
  have hdiagnostics : ((p.finish options).diagnostics.filter fun d => d.IsOnGap)
      = p.reports.filter fun d => d.IsOnGap := by
    show (p.reports ++ _).filter _ = _
    rw [List.filter_append, hdirectory, List.append_nil]
  rw [hdiagnostics]
  have ho := orderly_of_runAll? hr
  exact (ho.enumerates_reportsOnEntries (pending_of_runAll? rfl hr)).perm (hperm.map _).symm

end Pass

/-- Cataloguing a program comes to an end, however its files are split over runs.  The
reports on child types that cannot be shown are then those on the gaps: there is one for
every place of a slot whose child type is a literal, an object literal, an anonymous
class expression or of an unknown kind, with the code for this kind and the place as its
subject, and there are no others. -/
theorem Program.enumerates_gaps (program : Program) (options : CatalogOptions)
    (runs : List (List SourceFile)) :
    ∃ p : Pass,
      (∀ bound, program.typeCount ≤ bound →
        Pass.initial.runAll? program.host options bound runs = some p) ∧
      Enumerates (p.IsGap program.host)
        (((p.finish options).diagnostics.filter fun d => d.IsOnGap).map
          fun d => (d.code, d.subject)) := by
  obtain ⟨p, hp⟩ := program.exists_runAll? (rfl : program.host.kind = _) options runs
  exact ⟨p, hp, Pass.enumerates_gaps_of_runAll? (hp _ (Nat.le_refl _))⟩

end TypeCatalog
