/-
What a pass reports.

Three things are reported: what a file holds that cannot be found by name
(`SourceFile.reports`), declarations whose types cannot be catalogued, and child
types without a record.  The first two can be read off a file, and the last off
the entry of a slot (`TypeHost.reportsOnFile`, `TypeHost.reportsOnEntry`): no report
depends on what the pass has done before.

`Pass.Reported` says of a pass at work that it has reported what it was given and
what there is to report on the entries with a record, and all acts keep it.  At the
end of a sequence of runs every file and every entry has been reported on once
(`Pass.reports_perm_of_runAll?`).
-/
import TypeCatalog.Proofs.Catalog.Tally
import TypeCatalog.Proofs.Package.Reports

namespace TypeCatalog

variable {host : TypeHost}

namespace TypeHost

/-- The report of a child type, if it cannot be catalogued. -/
def reportOn? (host : TypeHost) (subject : String) (position : Position) : Option Diagnostic :=
  match host.classify position.type with
  | .unsupported reason => some (reason.report (subject ++ "." ++ position.label))
  | _ => none

/-- What there is to report on the child types of an entry. -/
def reportsOnEntry (host : TypeHost) (e : Entry) : List Diagnostic :=
  (host.positions e.handle e.shape).filterMap (host.reportOn? (Pass.subject host e))

/-- The report of a declaration, if its type cannot be catalogued. -/
def refusal? (host : TypeHost) (d : DeclId × String) : Option Diagnostic :=
  match host.classify (host.resolve d.1) with
  | .intrinsic k => some (Pass.unreflectable d.2 ("intrinsic type '" ++ k.name ++ "'"))
  | .unsupported reason => some (Pass.unreflectable d.2 reason.describe)
  | .shape _ _ _ => none

/-- What there is to report on a file. -/
def reportsOnFile (host : TypeHost) (rootDir : Option String) (file : SourceFile) :
    List Diagnostic :=
  file.reports rootDir ++ file.registered.filterMap fun e => host.refusal? (e.2, e.1.1)

end TypeHost

theorem Survey.reports_ofPositions (subject : String) (r : Registry) (positions : List Position) :
    (ofPositions host subject r positions).reports
      = positions.filterMap (host.reportOn? subject) := by
  have hfold : ∀ s : Survey, (positions.foldl (note host subject) s).reports
      = s.reports ++ positions.filterMap (host.reportOn? subject) := by
    induction positions with
    | nil => exact fun s => (List.append_nil s.reports).symm
    | cons position rest ih =>
      intro s
      rw [List.foldl_cons, ih, List.filterMap_cons, note, TypeHost.reportOn?]
      cases host.classify position.type with
      | intrinsic k => rfl
      | shape h name shape => rfl
      | unsupported reason => exact List.append_assoc ..
  exact hfold ⟨r, [], []⟩

namespace Pass

variable {options : CatalogOptions} {p q : Pass} {log : Log} {bound : Nat}
  {base : List Diagnostic} {files done : List SourceFile} {rootDir : Option String}

/-- What there is to report on the slot of a record. -/
def reportsAt (host : TypeHost) (r : Registry) (n : TypeNode) : List Diagnostic :=
  match r.entry? n.slot with
  | some e => host.reportsOnEntry e
  | none => []

/-- What has been reported: some reports, and those on the slots that have records. -/
def Reported (host : TypeHost) (base : List Diagnostic) (p : Pass) : Prop :=
  p.reports.Perm (base ++ p.populations.flatMap (reportsAt host p.registry))

theorem reportsAt_of_entry {r : Registry} {n : TypeNode} {e : Entry}
    (he : r.entry? n.slot = some e) : reportsAt host r n = host.reportsOnEntry e := by
  rw [reportsAt, he]

/-- What there is to report on a slot does not change when others are given out. -/
theorem flatMap_reportsAt_of_growsTo {r r' : Registry} {ns : List TypeNode}
    (hd : ∀ n ∈ ns, r.Draws host n) (hg : r.GrowsTo r') :
    ns.flatMap (reportsAt host r') = ns.flatMap (reportsAt host r) := by
  refine List.flatMap_congr fun n hn => ?_
  obtain ⟨e, he, -⟩ := hd n hn
  rw [reportsAt_of_entry he, reportsAt_of_entry (Registry.entry?_of_growsTo hg he)]

/-! ### What every act keeps -/

/-- What is reported besides joins what was given. -/
theorem Reported.append (h : p.Reported host base) (news : List Diagnostic) :
    ({ p with reports := p.reports ++ news } : Pass).Reported host (base ++ news) := by
  refine (h.append_right news).trans ?_
  rw [List.append_assoc, List.append_assoc]
  exact List.perm_append_comm.append_left base

theorem Reported.settle {atHand : List SlotId} (ho : p.Orderly host log atHand)
    (h : p.Reported host base) (slot : SlotId) : (p.settle host slot).Reported host base := by
  obtain hsame | ⟨e, he, hmade⟩ := settle_cases host p slot
  · rw [hsame]
    exact h
  · have hgrow := (survey_since ho.serves e).growsTo
    have hold := flatMap_reportsAt_of_growsTo ho.drawn hgrow
    rw [hmade, Reported]
    dsimp only
    rw [List.flatMap_append, List.flatMap_singleton, hold,
      reportsAt_of_entry (Registry.entry?_of_growsTo hgrow he), ← List.append_assoc, survey,
      Survey.reports_ofPositions]
    exact h.append_right _

theorem Reported.declare (ho : p.Orderly host log []) (h : p.Reported host base)
    (d : DeclId × String) :
    (p.declare host d.1 d.2).Reported host (base ++ (host.refusal? d).toList) := by
  rw [Pass.declare, TypeHost.refusal?]
  cases hc : host.classify (host.resolve d.1) with
  | intrinsic k => exact h.append _
  | unsupported reason => exact h.append _
  | shape handle name shape =>
    have hgrow := p.registry.growsTo_identify handle (some d.2) shape
    have hassigned : (p.assign d.1 d.2 handle shape).Reported host base := by
      rw [Reported, assign, flatMap_reportsAt_of_growsTo ho.drawn hgrow]
      exact h
    have hnone : base ++ (none : Option Diagnostic).toList = base := List.append_nil base
    rw [hnone]
    exact hassigned.settle (ho.assign hc d.2) _

theorem Reported.declareAll (ho : p.Orderly host log []) (h : p.Reported host base)
    (declarations : List (DeclId × String)) :
    (declarations.foldl (fun p d => p.declare host d.1 d.2) p).Reported host
      (base ++ declarations.filterMap host.refusal?) := by
  have hstart : p.Reported host (base ++ [].filterMap host.refusal?) := by
    rw [List.filterMap_nil, List.append_nil]
    exact h
  refine (declareAll_induction
    (motive := fun done log p =>
      p.Orderly host log [] ∧ p.Reported host (base ++ done.filterMap host.refusal?))
    declarations (fun {done log p} d _ h => ⟨h.1.declare d.1 d.2, ?_⟩)
    ⟨ho, hstart⟩).2
  have hlast : [d].filterMap host.refusal? = (host.refusal? d).toList := by
    rw [List.filterMap_cons]
    cases host.refusal? d <;> rfl
  rw [List.filterMap_append, hlast, ← List.append_assoc]
  exact h.2.declare h.1 d

/-- A run reports on the files that it takes in, and on the entries that get a record. -/
theorem Reported.run (ho : p.Orderly host log []) (ha : p.tree.Represents options.rootDir done)
    (h : p.Reported host base) (hr : p.run? host options bound files = some q) :
    q.Reported host
      (base ++ (SourceFile.packaged files).flatMap (host.reportsOnFile options.rootDir)) := by
  have hstart : (⟨p.tree, p.reports⟩ : Growth).tree.Represents options.rootDir done := ha
  have hgrown : (p.growTree options files).2.Reported host
      (base ++ (SourceFile.packaged files).flatMap (SourceFile.reports options.rootDir)) := by
    have hreports : (p.growTree options files).2.reports = p.reports ++ _ :=
      Growth.reports_addFiles hstart files
    rw [Reported, hreports]
    exact h.append _
  have ho' : (p.growTree options files).2.Orderly host log [] := ho.grow files
  have hdeclared := hgrown.declareAll ho' (p.declarationsOf options files)
  have hdrained := (drain?_induction
    (motive := fun log p => p.Orderly host log [] ∧ p.Reported host _)
    (fun {_ _ _ _} hpop h => ⟨h.1.work hpop, h.2.settle (h.1.take hpop) _⟩)
    ⟨ho'.declareAll _, hdeclared⟩ hr).2
  -- the reports on the files come together file by file
  refine hdrained.trans (List.Perm.append_right _ ?_)
  rw [List.append_assoc, declarationsOf_eq ha, List.filterMap_map, List.filterMap_flatMap]
  exact (List.flatMap_append_perm ..).append_left base

/-! ### At the end -/

/-- When nothing waits, the slots that have records are all slots. -/
theorem Orderly.flatMap_reportsAt (ho : p.Orderly host log []) (hq : p.queue.pending = []) :
    (p.populations.flatMap (reportsAt host p.registry)).Perm
      (p.registry.entries.flatMap host.reportsOnEntry) := by
  have hslots := (ho.populations_perm hq).flatMap_right fun i =>
    ((p.registry.entries[i]?).map host.reportsOnEntry).getD []
  have hentries : (List.range p.registry.size).map
      (fun i => ((p.registry.entries[i]?).map host.reportsOnEntry).getD [])
        = p.registry.entries.map host.reportsOnEntry := by
    refine List.ext_getElem (by simp [Registry.size]) fun i _ hi => ?_
    rw [List.getElem_map, List.getElem_map, List.getElem_range,
      List.getElem?_eq_getElem (by simpa using hi)]
    rfl
  have hrecords : p.populations.flatMap (reportsAt host p.registry)
      = (p.populations.map (·.slot.index)).flatMap fun i =>
        ((p.registry.entries[i]?).map host.reportsOnEntry).getD [] := by
    rw [List.flatMap_map]
    refine List.flatMap_congr fun n _ => ?_
    rw [reportsAt, Registry.entry?]
    cases p.registry.entries[n.slot.index]? <;> rfl
  rw [hrecords, List.flatMap_def (l := p.registry.entries), ← hentries, ← List.flatMap_def]
  exact hslots

/-- At the end of a sequence of runs every file and every type that has a slot has been
reported on once. -/
theorem reports_perm_of_runAll? {runs : List (List SourceFile)}
    (hr : initial.runAll? host options bound runs = some p) :
    p.reports.Perm
      ((SourceFile.packaged runs.flatten).flatMap (host.reportsOnFile options.rootDir)
        ++ p.registry.entries.flatMap host.reportsOnEntry) := by
  have hreported := (runAll?_induction
    (motive := fun done p => (∃ log, p.Orderly host log []) ∧
      p.tree.Represents options.rootDir done ∧
      p.Reported host (done.flatMap (host.reportsOnFile options.rootDir)))
    (fun {done p q} files h hr => by
      obtain ⟨⟨log, ho⟩, ha, h⟩ := h
      refine ⟨⟨_, ho.run hr⟩, represents_of_run? ha hr, ?_⟩
      rw [List.flatMap_append]
      exact h.run ho ha hr)
    ⟨⟨[], orderly_initial⟩, PackageTree.represents_empty options.rootDir, .refl []⟩ hr).2.2
  refine hreported.trans (List.Perm.append_left _ ?_)
  exact (orderly_of_runAll? hr).flatMap_reportsAt (pending_of_runAll? rfl hr)

end Pass

end TypeCatalog
