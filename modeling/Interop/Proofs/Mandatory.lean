import Interop.Proofs.Accounts
import Interop.Proofs.Strictness
import Interop.CommandLine.Run

/-! Mandatory declarations. An identifier is missing if every declaration that stands under it fails, so that
one that is emitted and skipped, as it may be where two versions of a namespace are there, is not missing. A
command that ends well has emitted something under each mandatory identifier. Main statement:
`mandatory_told`. -/

namespace Interop

/-! ### Reports -/

section Results

variable {results : List (WorkItem × Except Fault EmittedDeclaration)}

theorem mem_emittedOf {declaration : EmittedDeclaration} :
    declaration ∈ emittedOf results ↔ ∃ item, (item, .ok declaration) ∈ results := by
  rw [emittedOf, List.mem_filterMap]
  constructor
  · rintro ⟨⟨item, result⟩, hresult, hdeclaration⟩
    cases result with
    | error fault => cases hdeclaration
    | ok d =>
        cases hdeclaration
        exact ⟨item, hresult⟩
  · rintro ⟨item, hresult⟩
    exact ⟨_, hresult, rfl⟩

theorem mem_skippedOf {skipped : SkippedDeclaration} :
    skipped ∈ skippedOf results ↔
      ∃ item, (item, .error skipped.fault) ∈ results ∧ item.identifier = skipped.identifier := by
  rw [skippedOf, List.mem_filterMap]
  constructor
  · rintro ⟨⟨item, result⟩, hresult, hskipped⟩
    cases result with
    | ok d => cases hskipped
    | error fault =>
        cases hskipped
        exact ⟨item, hresult, rfl⟩
  · rintro ⟨item, hresult, hidentifier⟩
    refine ⟨_, hresult, ?_⟩
    dsimp only
    rw [hidentifier]

end Results

namespace Graph

/-- An item of a namespace that a run is asked for. -/
def AsksFor (g : Graph) (options : Options) (id : RepositoryId) (item : WorkItem) : Prop :=
  ∃ r, (id, r) ∈ g.selected options g.buildOrder ∧ item ∈ (Emitter.mk g id).items r.content

/-- Something is emitted under an identifier. -/
def EmitsUnder (g : Graph) (m : Memo) (options : Options) (identifier : String) : Prop :=
  ∃ id item, g.AsksFor options id item ∧ item.identifier = identifier ∧
    ∃ declaration, (Emitter.mk g id).emitFrom m item = .ok declaration

/-- Something fails under an identifier. -/
def FailsUnder (g : Graph) (m : Memo) (options : Options) (identifier : String) : Prop :=
  ∃ id item, g.AsksFor options id item ∧ item.identifier = identifier ∧
    ∃ fault, (Emitter.mk g id).emitFrom m item = .error fault

variable {g : Graph} {m : Memo} {options : Options} {identifier : String}

theorem asksFor_iff {id : RepositoryId} {item : WorkItem} {result : Except Fault EmittedDeclaration} :
    (g.AsksFor options id item ∧ (Emitter.mk g id).emitFrom m item = result) ↔
      ∃ r, (id, r) ∈ g.selected options g.buildOrder ∧ (item, result) ∈ g.resultsFrom m id r := by
  constructor
  · rintro ⟨⟨r, hr, hitem⟩, rfl⟩
    exact ⟨r, hr, List.mem_map_of_mem hitem⟩
  · rintro ⟨r, hr, hresult⟩
    obtain ⟨_, hitem, heq⟩ := List.mem_map.mp hresult
    obtain ⟨rfl, rfl⟩ := Prod.mk.inj heq
    exact ⟨⟨r, hr, hitem⟩, rfl⟩

/-- What a run declares is emitted for its items. -/
theorem mem_declarations_iff {declaration : EmittedDeclaration} :
    declaration ∈ (g.reportFrom m options).declarations ↔
      ∃ id item, g.AsksFor options id item ∧ (Emitter.mk g id).emitFrom m item = .ok declaration := by
  simp only [asksFor_iff]
  rw [Report.declarations, reportFrom, reportOf, List.flatMap_map, List.mem_flatMap]
  constructor
  · rintro ⟨⟨id, r⟩, hr, hdeclaration⟩
    obtain ⟨item, hresult⟩ := mem_emittedOf.mp hdeclaration
    exact ⟨id, item, r, hr, hresult⟩
  · rintro ⟨id, item, r, hr, hresult⟩
    exact ⟨(id, r), hr, mem_emittedOf.mpr ⟨item, hresult⟩⟩

/-- What a run skips are its items that fail. -/
theorem mem_skipped_iff {skipped : SkippedDeclaration} :
    skipped ∈ (g.reportFrom m options).skipped ↔
      ∃ id item, (g.AsksFor options id item ∧ (Emitter.mk g id).emitFrom m item = .error skipped.fault) ∧
        item.identifier = skipped.identifier := by
  simp only [asksFor_iff]
  rw [reportFrom, reportOf, List.mem_flatMap]
  constructor
  · rintro ⟨⟨id, r⟩, hr, hskipped⟩
    obtain ⟨item, hresult, hidentifier⟩ := mem_skippedOf.mp hskipped
    exact ⟨id, item, ⟨r, hr, hresult⟩, hidentifier⟩
  · rintro ⟨id, item, ⟨r, hr, hresult⟩, hidentifier⟩
    exact ⟨(id, r), hr, mem_skippedOf.mpr ⟨item, hresult, hidentifier⟩⟩

theorem AsksFor.identifier_eq {id : RepositoryId} {item : WorkItem} (h : g.AsksFor options id item)
    {declaration : EmittedDeclaration} (hemitted : (Emitter.mk g id).emitFrom m item = .ok declaration) :
    declaration.identifier = item.identifier := by
  obtain ⟨r, -, hitem⟩ := h
  exact (Emitter.mk g id).identifier_of_emitFrom hitem hemitted

/-- The identifiers of the declarations are those under which an item is emitted. -/
theorem exists_declaration_iff :
    (∃ d ∈ (g.reportFrom m options).declarations, d.identifier = identifier) ↔
      g.EmitsUnder m options identifier := by
  simp only [mem_declarations_iff]
  constructor
  · rintro ⟨d, ⟨id, item, hasks, hemitted⟩, hidentifier⟩
    exact ⟨id, item, hasks, (hasks.identifier_eq hemitted).symm.trans hidentifier, d, hemitted⟩
  · rintro ⟨id, item, hasks, hidentifier, d, hemitted⟩
    exact ⟨d, ⟨id, item, hasks, hemitted⟩, (hasks.identifier_eq hemitted).trans hidentifier⟩

/-- The identifiers that are skipped are those under which an item fails. -/
theorem exists_skipped_iff :
    (∃ s ∈ (g.reportFrom m options).skipped, s.identifier = identifier) ↔
      g.FailsUnder m options identifier := by
  simp only [mem_skipped_iff]
  constructor
  · rintro ⟨s, ⟨id, item, ⟨hasks, hfails⟩, heq⟩, hidentifier⟩
    exact ⟨id, item, hasks, heq.trans hidentifier, s.fault, hfails⟩
  · rintro ⟨id, item, hasks, hidentifier, fault, hfails⟩
    exact ⟨⟨item.identifier, fault⟩, ⟨id, item, ⟨hasks, hfails⟩, rfl⟩, hidentifier⟩

/-- A mandatory identifier is missing unless something is emitted under it. -/
theorem mem_missingMandatory_iff : identifier ∈ (g.reportFrom m options).missingMandatory ↔
    identifier ∈ options.mandatory ∧ ¬g.EmitsUnder m options identifier := by
  rw [← exists_declaration_iff, reportFrom, reportOf, List.mem_filter]
  refine and_congr_right fun _ => ?_
  rw [Bool.not_eq_true', ← Bool.not_eq_true, List.any_eq_true]
  simp only [beq_iff_eq]
  rfl

end Graph

/-- A run that ends with a report tells what its items give. -/
theorem Obtained.eq_reportFrom {g : Graph} (hg : Obtained g) {options : Options} {m : Memo} {report : Report}
    (h : (g.generate options m).1.outcome = .ok report) : report = g.reportFrom m options := by
  rw [hg.outcome_generate options (.refl g m)] at h
  obtain ⟨⟨namespaces, skipped⟩, hsettled, h⟩ := bind_eq_ok.mp h
  cases h
  unfold settled at hsettled
  split at hsettled
  · cases hsettled
    rfl
  · next hnone =>
    cases hsettled
    rw [Graph.reportFrom, hnone]
  · cases hsettled

/-! ### Commands -/

namespace Running

variable {α β : Type} {s : Session}

/-- A computation that ends well has gone through each of its parts. -/
theorem exists_of_bind {x : Running α} {next : α → Running β} {b : β}
    (h : ((x >>= next).run.run s).1 = .ok b) :
    ∃ a left, (x.run.run s) = (.ok a, left) ∧ ((next a).run.run left).1 = .ok b := by
  rw [run_bind] at h
  generalize hx : x.run.run s = result at h ⊢
  obtain ⟨result, left⟩ := result
  cases result with
  | error error => cases h
  | ok a => exact ⟨a, left, rfl, h⟩

theorem outcome_logged (i : Invocation) (x : Logged RunError α) (s : Session) :
    ((logged i x).run.run s).1 = x.outcome := by
  unfold logged
  cases x.outcome <;> rfl

/-- An error that is caught and raised again is the outcome. -/
theorem outcome_tryCatch {x : Running α} {handler : RunError → Running α} {result : Except RunError α}
    (hx : (x.run.run s).1 = result)
    (hhandler : ∀ error left, ((handler error).run.run left).1 = .error error) :
    ((tryCatch x handler).run.run s).1 = result := by
  subst hx
  simp only [StateT.run, ExceptT.run, tryCatch, tryCatchThe, MonadExceptOf.tryCatch, ExceptT.tryCatch,
    ExceptT.mk, Bind.bind, StateT.bind]
  rcases x s with ⟨error | a, left⟩
  · exact hhandler error left
  · rfl

theorem outcome_explained (i : Invocation) (x : Logged RunError α) (s : Session) :
    ((explained i x).run.run s).1 = x.outcome := by
  refine outcome_tryCatch (outcome_logged i x s) fun error left => ?_
  cases error.fault? <;> rfl

/-- A run of `generate` that ends well has a complete report. -/
theorem exists_report_of_generate {i : Invocation} {inputs : List String} {configuration : Option String}
    {given : Settings} (h : ((generate i inputs configuration given).run.run s).1 = .ok ()) :
    ∃ found descriptions report,
      (Settings.find s.tree configuration (homePath s.tree)).outcome = .ok found ∧
      (Description.loadAll s.tree inputs).outcome = .ok descriptions ∧
      (generateFromDescriptions descriptions (found.merge given).options).outcome = .ok report ∧
      report.isComplete := by
  unfold generate at h
  obtain ⟨_, left, hread, h⟩ := exists_of_bind h
  cases hread
  obtain ⟨found, left, hfound, h⟩ := exists_of_bind h
  obtain ⟨descriptions, left, hdescriptions, h⟩ := exists_of_bind h
  obtain ⟨_, left, -, h⟩ := exists_of_bind h
  obtain ⟨report, left, hreport, h⟩ := exists_of_bind h
  refine ⟨found, descriptions, report, ?_, ?_, ?_, ?_⟩
  · exact (outcome_logged i _ _).symm.trans (congrArg Prod.fst hfound)
  · exact (outcome_logged i _ _).symm.trans (congrArg Prod.fst hdescriptions)
  · exact (outcome_explained i _ _).symm.trans (congrArg Prod.fst hreport)
  obtain ⟨_, left, -, h⟩ := exists_of_bind h
  obtain ⟨written, left, -, h⟩ := exists_of_bind h
  obtain ⟨_, left, -, h⟩ := exists_of_bind h
  obtain ⟨_, left, -, h⟩ := exists_of_bind h
  by_contra hincomplete
  rw [Bool.not_eq_true] at hincomplete
  rw [hincomplete] at h
  cases h

end Running

/-! ### What a report tells -/

/-- How a report tells which mandatory declarations are missing. -/
structure Report.TellsMandatory (report : Report) (g : Graph) (m : Memo) (options : Options) : Prop where
  /-- A mandatory identifier is missing if all that stands under it fails, so if nothing does. -/
  missing_iff : ∀ identifier, identifier ∈ report.missingMandatory ↔ identifier ∈ options.mandatory ∧
    ∀ id item, g.AsksFor options id item → item.identifier = identifier →
      ∃ fault, (Emitter.mk g id).emitFrom m item = .error fault
  /-- What is missing is what is skipped or not declared, but for what is emitted and fails as well. -/
  law_iff : ∀ identifier ∈ options.mandatory,
    ((identifier ∈ report.missingMandatory ↔ (∃ s ∈ report.skipped, s.identifier = identifier) ∨
        ∀ d ∈ report.declarations, d.identifier ≠ identifier) ↔
      ¬(g.EmitsUnder m options identifier ∧ g.FailsUnder m options identifier))
  /-- A report is complete if something is emitted under each mandatory identifier. -/
  complete_iff : report.isComplete ↔
    ∀ identifier ∈ options.mandatory, g.EmitsUnder m options identifier
  /-- What a complete report skips under a mandatory identifier is emitted as well. -/
  skipped_of_complete : report.isComplete → ∀ s ∈ report.skipped, s.identifier ∈ options.mandatory →
    g.EmitsUnder m options s.identifier ∧ g.FailsUnder m options s.identifier

theorem Graph.isComplete_reportFrom (g : Graph) (m : Memo) (options : Options) :
    (g.reportFrom m options).isComplete ↔ ∀ identifier ∈ options.mandatory, g.EmitsUnder m options identifier := by
  rw [Report.isComplete, List.isEmpty_iff, List.eq_nil_iff_forall_not_mem]
  simp only [mem_missingMandatory_iff, not_and, not_not]

theorem Graph.tellsMandatory_reportFrom (g : Graph) (m : Memo) (options : Options) :
    (g.reportFrom m options).TellsMandatory g m options where
  missing_iff := by
    intro identifier
    rw [mem_missingMandatory_iff]
    refine and_congr_right fun _ => ?_
    constructor
    · intro h id item hasks hidentifier
      cases hresult : (Emitter.mk g id).emitFrom m item with
      | error fault => exact ⟨fault, rfl⟩
      | ok d => exact absurd ⟨id, item, hasks, hidentifier, d, hresult⟩ h
    · rintro h ⟨id, item, hasks, hidentifier, d, hemitted⟩
      obtain ⟨fault, hfails⟩ := h id item hasks hidentifier
      rw [hemitted] at hfails
      cases hfails
  law_iff := by
    intro identifier hidentifier
    have hdeclared : (∀ d ∈ (g.reportFrom m options).declarations, d.identifier ≠ identifier) ↔
        ¬g.EmitsUnder m options identifier := by
      rw [← exists_declaration_iff]
      simp only [not_exists, not_and, ne_eq]
    rw [mem_missingMandatory_iff, exists_skipped_iff, hdeclared]
    tauto
  complete_iff := g.isComplete_reportFrom m options
  skipped_of_complete := by
    intro hcomplete s hs hidentifier
    have hemits := (g.isComplete_reportFrom m options).mp hcomplete
    exact ⟨hemits s.identifier hidentifier, exists_skipped_iff.mp ⟨s, hs, rfl⟩⟩

/-- A command that ends well has a complete report. -/
theorem exists_report_of_exitCode {words : List String} {outputVariable : Option String} {tree : FileTree}
    {i : Invocation} {inputs : List String} {configuration : Option String} {given : Settings}
    (hwords : Request.ofWords words outputVariable = some (.run i))
    (hcommand : i.command = .generate inputs configuration given)
    (hexit : (runWords words outputVariable tree).exitCode = 0) :
    ∃ found descriptions report,
      (Settings.find tree configuration (Running.homePath tree)).outcome = .ok found ∧
      (Description.loadAll tree inputs).outcome = .ok descriptions ∧
      (generateFromDescriptions descriptions (found.merge given).options).outcome = .ok report ∧
      report.isComplete := by
  have hgenerate : Running.command i = Running.generate i inputs configuration given := by
    rw [Running.command, hcommand]
  rw [runWords, hwords] at hexit
  dsimp only at hexit
  rw [hgenerate] at hexit
  generalize hresult : (Running.generate i inputs configuration given).run.run { tree } = result at hexit
  obtain ⟨result, left⟩ := result
  cases result with
  | error error => cases hexit
  | ok _ => exact Running.exists_report_of_generate (s := { tree }) (congrArg Prod.fst hresult)

/-- Generating from descriptions builds their graph and generates its declarations. -/
theorem exists_graph_of_generateFromDescriptions {descriptions : List Description} {options : Options}
    {report : Report} (h : (generateFromDescriptions descriptions options).outcome = .ok report) :
    ∃ g, (Graph.build descriptions).outcome = .ok g ∧ (g.generate options {}).1.outcome = .ok report := by
  unfold generateFromDescriptions at h
  rw [Logged.outcome_bind] at h
  obtain ⟨g, hbuilt, h⟩ := bind_eq_ok.mp h
  rw [Logged.outcome_bind, Logged.outcome_note] at h
  refine ⟨g, ?_, h⟩
  cases hgraph : (Graph.build descriptions).outcome with
  | error fault =>
      rw [Logged.mapError, hgraph] at hbuilt
      cases hbuilt
  | ok built =>
      rw [Logged.mapError, hgraph] at hbuilt
      cases hbuilt
      rfl

/-- Whatever was decided before, what a run of a graph reports tells which mandatory declarations are missing;
and whatever files there are, a command that generates and ends well has built the graph of its inputs and
reported something for each identifier that it was asked for. -/
theorem mandatory_told (m : Memo) (tree : FileTree) :
    (∀ g, Obtained g → ∀ (options : Options) (report : Report),
      (g.generate options m).1.outcome = .ok report → report.TellsMandatory g m options) ∧
    ∀ (words : List String) (outputVariable : Option String) (i : Invocation) (inputs : List String)
      (configuration : Option String) (given : Settings),
      Request.ofWords words outputVariable = some (.run i) →
      i.command = .generate inputs configuration given →
      (runWords words outputVariable tree).exitCode = 0 →
      ∃ found descriptions g report,
        (Settings.find tree configuration (Running.homePath tree)).outcome = .ok found ∧
        (Description.loadAll tree inputs).outcome = .ok descriptions ∧
        (Graph.build descriptions).outcome = .ok g ∧
        (g.generate (found.merge given).options {}).1.outcome = .ok report ∧
        report.isComplete ∧ report.TellsMandatory g {} (found.merge given).options := by
  have hgraph : ∀ g, Obtained g → ∀ (options : Options) (m : Memo) (report : Report),
      (g.generate options m).1.outcome = .ok report → report.TellsMandatory g m options := by
    intro g hg options m report h
    rw [hg.eq_reportFrom h]
    exact g.tellsMandatory_reportFrom m options
  refine ⟨fun g hg options => hgraph g hg options m, ?_⟩
  intro words outputVariable i inputs configuration given hwords hcommand hexit
  obtain ⟨found, descriptions, report, hfound, hdescriptions, hreport, hcomplete⟩ :=
    exists_report_of_exitCode hwords hcommand hexit
  obtain ⟨g, hbuilt, hgenerated⟩ := exists_graph_of_generateFromDescriptions hreport
  exact ⟨found, descriptions, g, report, hfound, hdescriptions, hbuilt, hgenerated, hcomplete,
    hgraph g (.build descriptions g hbuilt) _ _ _ hgenerated⟩

namespace Sample

/-- A version of `Job` with a constant of a type. -/
def limitDescription (version type : String) : Description where
  namespaceInfo := { name := some "Job", version := some version, constants := [constant "LIMIT" type type] }

/-- Two versions of `Job`, of which the second does not know the type of its constant. -/
def versions : Graph := ({} : Graph).after
  [.register (limitDescription "1.0" "gint"), .register (limitDescription "2.0" "Missing"), .link]

def limit (type : String) : Constant :=
  ⟨.pascal "LIMIT", none, "0", .scalar ⟨some type, some (.ofString type)⟩ .constant⟩

def limitRepository (version type : String) : Repository where
  content := { key := ⟨"Job", version⟩, constants := [limit type] }
  includes := []

set_option maxRecDepth 4000 in
theorem versions_eq : versions = {
    repositories := [limitRepository "1.0" "gint", limitRepository "2.0" "Missing"]
    positions := [(⟨"Job", "2.0"⟩, ⟨1⟩), (⟨"Job", "1.0"⟩, ⟨0⟩)]
    buildOrder := [⟨1⟩, ⟨0⟩] } := by
  cbv

def limitOptions : Options := { mandatory := ["Job.LIMIT"] }

def limitItem (type : String) : WorkItem := ⟨"Job.LIMIT", .constant 0, .constant (limit type)⟩

theorem asksFor_limit : versions.AsksFor limitOptions ⟨0⟩ (limitItem "gint") ∧
    versions.AsksFor limitOptions ⟨1⟩ (limitItem "Missing") := by
  have hselected : versions.selected limitOptions versions.buildOrder =
      [(⟨1⟩, limitRepository "2.0" "Missing"), (⟨0⟩, limitRepository "1.0" "gint")] := by
    rw [versions_eq]
    rfl
  refine ⟨⟨limitRepository "1.0" "gint", ?_, ?_⟩, limitRepository "2.0" "Missing", ?_, ?_⟩
  · rw [hselected]
    exact .tail _ (.head _)
  · rw [versions_eq]
    exact .head _
  · rw [hselected]
    exact .head _
  · rw [versions_eq]
    exact .head _

theorem emitsUnder_limit : versions.EmitsUnder {} limitOptions "Job.LIMIT" := by
  obtain ⟨make, hmake⟩ := (Emitter.mk versions ⟨0⟩).alone_constant "Job.LIMIT" (.constant 0) (limit "gint")
  have hdecided : versions.decide ⟨0⟩ (limit "gint").type = .ok (.of (.primitive .i32)) := by
    rw [versions_eq]
    rfl
  refine ⟨⟨0⟩, limitItem "gint", asksFor_limit.1, rfl, make (.of (.primitive .i32)), ?_⟩
  exact hmake.trans (congrArg (make <$> ·) hdecided)

theorem failsUnder_limit : versions.FailsUnder {} limitOptions "Job.LIMIT" := by
  obtain ⟨make, hmake⟩ := (Emitter.mk versions ⟨1⟩).alone_constant "Job.LIMIT" (.constant 0) (limit "Missing")
  have hdecided : versions.decide ⟨1⟩ (limit "Missing").type =
      .error (.unresolvedSymbol "Missing" "Job-2.0") := by
    rw [versions_eq]
    rfl
  refine ⟨⟨1⟩, limitItem "Missing", asksFor_limit.2, rfl, .unresolvedSymbol "Missing" "Job-2.0", ?_⟩
  exact hmake.trans (congrArg (make <$> ·) hdecided)

theorem exists_generate_limit :
    ∃ report, (versions.generate limitOptions {}).1.outcome = .ok report := by
  have hversions : Obtained versions := Obtained.empty.after _
  have hbest : limitOptions.bestEffort = true := rfl
  obtain ⟨-, report, houtcome, -⟩ := generate_bestEffort hversions hbest {}
  exact ⟨report, houtcome⟩

end Sample

open Sample in
/-- A mandatory declaration is skipped, and the report is complete. -/
theorem complete_limit : ∃ report, (versions.generate limitOptions {}).1.outcome = .ok report ∧
    report.isComplete ∧ "Job.LIMIT" ∈ limitOptions.mandatory ∧
    "Job.LIMIT" ∉ report.missingMandatory ∧ ∃ s ∈ report.skipped, s.identifier = "Job.LIMIT" := by
  have hversions : Obtained versions := Obtained.empty.after _
  obtain ⟨report, houtcome⟩ := exists_generate_limit
  obtain rfl := hversions.eq_reportFrom houtcome
  refine ⟨_, houtcome, ?_, .head _, ?_, Graph.exists_skipped_iff.mpr failsUnder_limit⟩
  · rw [Graph.isComplete_reportFrom]
    intro identifier hidentifier
    obtain rfl := List.mem_singleton.mp hidentifier
    exact emitsUnder_limit
  · rw [Graph.mem_missingMandatory_iff]
    exact fun h => h.2 emitsUnder_limit

open Sample in
theorem mandatory_told_limit : ∃ report, (versions.generate limitOptions {}).1.outcome = .ok report ∧
    report.TellsMandatory versions {} limitOptions ∧
    ¬("Job.LIMIT" ∈ report.missingMandatory ↔ (∃ s ∈ report.skipped, s.identifier = "Job.LIMIT") ∨
      ∀ d ∈ report.declarations, d.identifier ≠ "Job.LIMIT") := by
  have hversions : Obtained versions := Obtained.empty.after _
  obtain ⟨report, houtcome⟩ := exists_generate_limit
  have htells := (mandatory_told {} {}).1 versions hversions limitOptions report houtcome
  refine ⟨report, houtcome, htells, ?_⟩
  rw [htells.law_iff "Job.LIMIT" (.head _), not_not]
  exact ⟨emitsUnder_limit, failsUnder_limit⟩

end Interop
