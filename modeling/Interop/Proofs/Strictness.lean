import Interop.Proofs.Schedule

/-! Strict runs. Whether failing declarations are skipped or end the run, the same declarations are emitted in
the same order, so that a strict run ends at what a best-effort run skips first. Main statement:
`strict_agrees`. -/

namespace Interop

/-- How a strict run ends, by the report of a run that skips the declarations that fail. -/
def Report.strictOutcome (report : Report) : Except RunError Report :=
  match report.skipped with
  | [] => .ok report
  | first :: _ => .error first.error

theorem Graph.strictOutcome_reportOf (options : Options) (namespaces : List NamespaceOutput)
    (skipped : List SkippedDeclaration) :
    (reportOf options namespaces skipped).strictOutcome = (do
      let (namespaces, skipped) ← settled false namespaces skipped
      return reportOf options namespaces skipped) := by
  cases skipped <;> rfl

/-- What the items of the selected repositories give from some decisions on. -/
def Graph.reportFrom (g : Graph) (m : Memo) (options : Options) : Report :=
  reportOf options ((g.selected options g.buildOrder).map fun (id, r) => g.outputFrom m id r)
    ((g.selected options g.buildOrder).flatMap fun (id, r) => skippedOf (g.resultsFrom m id r))

/-- One report tells how the runs of both modes end. -/
theorem Obtained.exists_report {g : Graph} (hg : Obtained g) (options : Options) (m : Memo) :
    ∃ report : Report, ∀ left, g.Adds m left →
      (g.generate { options with bestEffort := true } left).1.outcome = .ok report ∧
      (g.generate { options with bestEffort := false } left).1.outcome = report.strictOutcome := by
  refine ⟨g.reportFrom m options, fun left hleft => ⟨?_, ?_⟩⟩
  · exact hg.outcome_generate { options with bestEffort := true } hleft
  · rw [Graph.reportFrom, Graph.strictOutcome_reportOf]
    exact hg.outcome_generate { options with bestEffort := false } hleft

/-- Strict runs and runs that skip failing declarations agree. If nothing is skipped, a strict run ends with
the same report, and otherwise with the error of what is skipped first. So it is with runs one after another,
from any decisions on, and under all schedules, from decisions that would be taken afresh. -/
theorem strict_agrees {g : Graph} (hg : Obtained g) (options : Options) (m : Memo) :
    ∃ report : Report,
      (∀ left, g.Adds m left →
        (g.generate { options with bestEffort := true } left).1.outcome = .ok report ∧
        (g.generate { options with bestEffort := false } left).1.outcome = report.strictOutcome) ∧
      (g.CoherentOn g.buildOrder m → ∀ jobs run left,
        (g.Generates { options with bestEffort := true, jobs } m run left → run.outcome = .ok report) ∧
        (g.Generates { options with bestEffort := false, jobs } m run left →
          run.outcome = report.strictOutcome)) := by
  obtain ⟨report, hreport⟩ := hg.exists_report options m
  obtain ⟨hbest, hstrict⟩ := hreport m (.refl g m)
  refine ⟨report, hreport, fun hm jobs run left => ⟨fun hrun => ?_, fun hrun => ?_⟩⟩
  · have hsame : run = (g.generate { options with bestEffort := true } {}).1 := hrun.eq hm
    rw [hsame, ← Graph.generate_of_coherent hm, hbest]
  · have hsame : run = (g.generate { options with bestEffort := false } {}).1 := hrun.eq hm
    rw [hsame, ← Graph.generate_of_coherent hm, hstrict]

namespace Sample

theorem selected_glib :
    job.selected { namespaces := ["GLib"] } job.buildOrder = [(⟨0⟩, glibRepository)] := by
  rw [job_eq]
  cbv

theorem skippedOf_resultsFrom_glib (g : Graph) (m : Memo) :
    skippedOf (g.resultsFrom m ⟨0⟩ glibRepository) = [] := rfl

end Sample

open Sample in
theorem strict_agrees_job :
    (job.generate { bestEffort := false } {}).1.outcome =
      .error (.within "failed to generate `Job.MISSING`" (.fault (.unresolvedSymbol "Missing" "Job-2.0"))) ∧
    ∃ report, (job.generate { namespaces := ["GLib"] } {}).1.outcome = .ok report ∧
      (job.generate { namespaces := ["GLib"], bestEffort := false } {}).1.outcome = .ok report := by
  have hjob : Obtained job := Obtained.empty.after _
  constructor
  · obtain ⟨report, hruns, -⟩ := strict_agrees hjob {} {}
    obtain ⟨hbest, hstrict⟩ := hruns {} (.refl job {})
    rw [hjob.outcome_generate _ (.refl job {})] at hbest
    obtain rfl := Except.ok.inj hbest
    have hskipped : skippedOf (job.resultsFrom {} ⟨1⟩ jobRepository) =
      [⟨"Job.MISSING", .unresolvedSymbol "Missing" "Job-2.0"⟩,
        ⟨"Job.ENDLESS", .aliasCycle ["Job.Loop", "Job.Round", "Job.Loop"]⟩] := skippedOf_resultsOf_job
    rw [hstrict, selected_job]
    simp only [List.flatMap_cons, skippedOf_resultsFrom_glib, hskipped, List.nil_append]
    rfl
  · obtain ⟨report, hruns, -⟩ := strict_agrees hjob { namespaces := ["GLib"] } {}
    obtain ⟨hbest, hstrict⟩ := hruns {} (.refl job {})
    refine ⟨report, hbest, hstrict.trans ?_⟩
    rw [hjob.outcome_generate _ (.refl job {}), selected_glib] at hbest
    simp only [List.flatMap_cons, skippedOf_resultsFrom_glib, List.nil_append] at hbest
    obtain rfl := Except.ok.inj hbest
    rfl

end Interop
