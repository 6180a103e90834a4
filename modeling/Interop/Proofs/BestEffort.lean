import Interop.Proofs.Answers
import Interop.Proofs.Locality

/-! Best effort. All that a linked repository sees is linked, so that no look-up meets an unbound include,
and whatever keeps a declaration from being emitted concerns this declaration only. Where such declarations
are skipped, generating always ends with a report. Main statement: `generate_bestEffort`. -/

namespace Interop

/-- The faults that concern one declaration only. -/
inductive Fault.OfDeclaration : Fault → Prop
  | unresolvedSymbol (name searchedFrom : String) : OfDeclaration (.unresolvedSymbol name searchedFrom)
  | unsupportedType (ctype : String) : OfDeclaration (.unsupportedType ctype)
  | aliasCycle (chain : List String) : OfDeclaration (.aliasCycle chain)

theorem Fault.OfDeclaration.isStructural {fault : Fault} (h : fault.OfDeclaration) :
    fault.isStructural = false := by
  cases h <;> rfl

/-- Every failure of a computation concerns one declaration. -/
def FailsMildly {α : Type} (x : Except Fault α) : Prop := ∀ fault, x = .error fault → fault.OfDeclaration

namespace FailsMildly

variable {α β : Type}

theorem ok (a : α) : FailsMildly (.ok a) := by
  rintro fault ⟨⟩

theorem error {fault : Fault} (h : fault.OfDeclaration) : FailsMildly (.error fault : Except Fault α) := by
  rintro _ ⟨⟩
  exact h

theorem bind {x : Except Fault α} {next : α → Except Fault β} (h : FailsMildly x)
    (hnext : ∀ a, x = .ok a → FailsMildly (next a)) : FailsMildly (x >>= next) := by
  intro fault hfault
  rcases bind_eq_error.mp hfault with hfault | ⟨a, ha, hfault⟩
  · exact h fault hfault
  · exact hnext a ha fault hfault

end FailsMildly

/-! ### Decisions -/

theorem Representation.failsMildly_ofCategory (name : Option String) (s : Spelling) (category : Category) :
    FailsMildly (ofCategory name s category) := by
  cases category with
  | unsupported => exact .error (.unsupportedType s.text)
  | _ => exact .ok _

theorem DecidedType.failsMildly_ofSpelling (name : Option String) (s : Spelling) (c : Classification)
    (isParameter : Bool) : FailsMildly (ofSpelling name s c isParameter) :=
  (Representation.failsMildly_ofCategory name s c.category).bind fun _ _ => .ok _

namespace History.Consistent

variable {h : History} (hh : h.Consistent) {id : RepositoryId} (hid : id ∈ h.graph.buildOrder)

include hh hid

/-- No include that a linked repository sees is unbound. -/
theorem bound_of_mem_reachable {a : RepositoryId} (ha : a ∈ h.graph.reachable id) :
    ∀ dependency ∈ h.graph.includesOf a, dependency.bound.isSome :=
  hh.bound a (hh.perm.mem_iff.mp (hh.mem_buildOrder_of_mem_reachable hid ha))

/-- A linked repository finds a name, or does not. -/
theorem fault_of_lookupSymbol {name : String} {fault : Fault}
    (hfault : h.graph.lookupSymbol id name = .error fault) :
    fault = .unresolvedSymbol name (h.graph.canonicalName id) := by
  have hsearched := h.graph.searched_lookupSymbol id name
  rw [hfault] at hsearched
  cases hsearched with
  | unresolved => rfl
  | unbound ha hdependency hbound =>
      have hsome := hh.bound_of_mem_reachable hid ha _ hdependency
      rw [hbound] at hsome
      cases hsome

theorem failsMildly_lookupSymbol (name : String) : FailsMildly (h.graph.lookupSymbol id name) := by
  intro fault hfault
  rw [hh.fault_of_lookupSymbol hid hfault]
  exact .unresolvedSymbol _ _

/-- What a linked repository finds is linked. -/
theorem mem_buildOrder_of_lookupSymbol {name : String} {symbol : SymbolRef}
    (hsymbol : h.graph.lookupSymbol id name = .ok symbol) : symbol.repository ∈ h.graph.buildOrder :=
  hh.mem_buildOrder_of_path hid (Graph.path_of_lookupSymbol hsymbol)

omit hid in
theorem failsMildly_followAliases (steps : Nat) {current : SymbolRef} (passed : List SymbolRef)
    (hcurrent : current.repository ∈ h.graph.buildOrder) :
    FailsMildly (h.graph.followAliases steps current passed) := by
  induction steps generalizing current passed with
  | zero => exact .error (.aliasCycle _)
  | succ steps ih =>
      rw [Graph.followAliases]
      split
      · exact .ok _
      · next found _ =>
          split
          · exact .ok _
          · next name _ =>
              split
              · next fault hfault => exact .error (hh.failsMildly_lookupSymbol hcurrent name fault hfault)
              · next next hnext =>
                  split
                  · exact .error (.aliasCycle _)
                  · exact ih _ (hh.mem_buildOrder_of_lookupSymbol hcurrent hnext)

theorem failsMildly_resolveName (name : String) : FailsMildly (h.graph.resolveName id name) :=
  (hh.failsMildly_lookupSymbol hid name).bind fun _ hstart =>
    hh.failsMildly_followAliases _ _ (hh.mem_buildOrder_of_lookupSymbol hid hstart)

theorem failsMildly_decideByName (spec : TypeSpec) (isPointer isParameter : Bool) :
    FailsMildly (h.graph.decideByName id spec isPointer isParameter) := by
  unfold Graph.decideByName
  dsimp only
  split
  on_goal 2 => exact .error (.unresolvedSymbol _ _)
  refine (FailsMildly.ok _).bind fun name _ => ?_
  refine (hh.failsMildly_resolveName hid name).bind fun target _ => ?_
  cases target with
  | symbol address => exact .ok _
  | native target =>
      dsimp only
      split
      · exact .error (.unresolvedSymbol _ _)
      · refine (DecidedType.failsMildly_ofSpelling _ _ _ _).bind fun decided _ => ?_
        cases decided with
        | none => exact .error (.unresolvedSymbol _ _)
        | some decided => exact .ok _

theorem failsMildly_decideSpec (spec : TypeSpec) (isParameter : Bool) :
    FailsMildly (h.graph.decideSpec id spec isParameter) := by
  unfold Graph.decideSpec
  split
  · split
    · exact .ok _
    · exact hh.failsMildly_decideByName hid _ _ _
  · split
    · exact .ok _
    · refine (DecidedType.failsMildly_ofSpelling _ _ _ _).bind fun decided _ => ?_
      cases decided with
      | none => exact hh.failsMildly_decideByName hid _ _ _
      | some decided => exact .ok _

theorem failsMildly_decide (reference : TypeReference) : FailsMildly (h.graph.decide id reference) := by
  unfold Graph.decide
  dsimp only
  split
  · exact hh.failsMildly_decideSpec hid _ _
  · split
    · refine (hh.failsMildly_decideSpec hid _ _).bind fun decided _ => ?_
      split
      · exact .ok _
      · split
        · exact .ok _
        · exact .ok _
    · exact .ok _
  · exact .ok _

/-- Whatever was decided before, an item of a linked repository fails for reasons of its own. -/
theorem failsMildly_emit (item : WorkItem) (m : Memo) :
    FailsMildly (((Emitter.mk h.graph id).emit item).run.run m).1 := by
  obtain ⟨s, hrun, hasks, hraises⟩ := (Emitter.mk h.graph id).scripted_emit
    (P := fun site _ => site.repository = id) (Q := Fault.OfDeclaration) item (fun _ _ _ => rfl)
    fun name fault hfault => hh.failsMildly_lookupSymbol hid name fault hfault
  intro fault hfault
  rw [← hrun] at hfault
  rcases Script.fault_of_run hasks hraises hfault with hfault | ⟨site, reference, hsite, hfault⟩
  · exact hfault
  · rw [hsite] at hfault
    exact hh.failsMildly_decide hid reference fault hfault

end History.Consistent

/-! ### Reports -/

/-- What is emitted among some results. -/
def emittedOf (results : List (WorkItem × Except Fault EmittedDeclaration)) : List EmittedDeclaration :=
  results.filterMap fun (_, result) => result.toOption

/-- What is skipped among some results, each with the reason. -/
def skippedOf (results : List (WorkItem × Except Fault EmittedDeclaration)) : List SkippedDeclaration :=
  results.filterMap fun (item, result) =>
    match result with
    | .ok _ => none
    | .error fault => some ⟨item.identifier, fault⟩

/-- The error with which a failing declaration ends a run. -/
def SkippedDeclaration.error (skipped : SkippedDeclaration) : RunError :=
  .within s!"failed to generate `{skipped.identifier}`" (.fault skipped.fault)

/-- What a run comes to: unless failing declarations are skipped, the first of them ends it. -/
def settled {α : Type} (bestEffort : Bool) (emitted : α) (skipped : List SkippedDeclaration) :
    Except RunError (α × List SkippedDeclaration) :=
  match bestEffort, skipped with
  | true, skipped => .ok (emitted, skipped)
  | false, [] => .ok (emitted, [])
  | false, first :: _ => .error first.error

/-- A run in two parts comes to what they come to one after another. -/
theorem settled_append {α β γ : Type} (bestEffort : Bool) (join : α → β → γ) (a : α) (b : β)
    (skipped others : List SkippedDeclaration) :
    settled bestEffort (join a b) (skipped ++ others) = (do
      let (a, skipped) ← settled bestEffort a skipped
      let (b, others) ← settled bestEffort b others
      return (join a b, skipped ++ others)) := by
  cases bestEffort with
  | true => rfl
  | false =>
      cases skipped with
      | nil => cases others <;> rfl
      | cons first skipped => rfl

/-- Results that fail mildly are sorted into what is emitted and what is skipped. -/
theorem outcome_collectResults (bestEffort : Bool)
    {results : List (WorkItem × Except Fault EmittedDeclaration)}
    (h : ∀ result ∈ results, FailsMildly result.2) :
    (collectResults bestEffort results).outcome =
      settled bestEffort (emittedOf results) (skippedOf results) := by
  induction results with
  | nil => cases bestEffort <;> rfl
  | cons result results ih =>
      obtain ⟨hresult, hresults⟩ := List.forall_mem_cons.mp h
      obtain ⟨item, result⟩ := result
      cases result with
      | ok declaration =>
          have hcons := settled_append bestEffort List.cons declaration (emittedOf results) []
            (skippedOf results)
          rw [collectResults, Logged.outcome_bind, ih hresults]
          cases bestEffort <;> exact hcons.symm
      | error fault =>
          have hmild := (hresult fault rfl).isStructural
          rw [collectResults, hmild, Bool.not_false, Bool.and_true]
          cases bestEffort with
          | false => rfl
          | true =>
              rw [if_pos rfl, Logged.outcome_bind, Logged.outcome_note]
              show (collectResults true results >>= _).outcome = _
              rw [Logged.outcome_bind, ih hresults]
              rfl

namespace Graph

variable (g : Graph)

/-- The repositories among some that are to be generated. -/
def selected (options : Options) (ids : List RepositoryId) : List (RepositoryId × Repository) :=
  ids.filterMap fun id => (g.repository? id).bind fun r =>
    if options.selects r.key then some (id, r) else none

/-- The items of a repository, each with what emitting it alone gives. -/
def resultsOf (id : RepositoryId) (r : Repository) : List (WorkItem × Except Fault EmittedDeclaration) :=
  ((Emitter.mk g id).items r.content).map fun item => (item, (Emitter.mk g id).alone item)

def outputOf (id : RepositoryId) (r : Repository) : NamespaceOutput :=
  ⟨r.key, r.content.sharedLibrary, emittedOf (g.resultsOf id r)⟩

/-- The items of a repository, each with what emitting it gives when some decisions were taken before. -/
def resultsFrom (m : Memo) (id : RepositoryId) (r : Repository) :
    List (WorkItem × Except Fault EmittedDeclaration) :=
  ((Emitter.mk g id).items r.content).map fun item => (item, (Emitter.mk g id).emitFrom m item)

def outputFrom (m : Memo) (id : RepositoryId) (r : Repository) : NamespaceOutput :=
  ⟨r.key, r.content.sharedLibrary, emittedOf (g.resultsFrom m id r)⟩

/-- The report of some outputs, with the mandatory identifiers that are missing. -/
def reportOf (options : Options) (namespaces : List NamespaceOutput) (skipped : List SkippedDeclaration) :
    Report where
  namespaces := namespaces
  skipped := skipped
  missingMandatory := options.mandatory.filter fun identifier =>
    !(namespaces.flatMap (·.declarations)).any (·.identifier == identifier)

variable {g} {options : Options} {id : RepositoryId} {ids : List RepositoryId} {r : Repository}

/-- Telling which mandatory identifiers are missing never fails. -/
theorem outcome_generate (m : Memo) :
    (g.generate options m).1.outcome = (do
      let (namespaces, skipped) ← (g.generateEach options g.buildOrder m).1.outcome
      return reportOf options namespaces skipped) := by
  have hnotes : ∀ missing : List String, ∃ units, (Logged.forEach missing fun identifier =>
      (Logged.note .warn s!"Mandatory declaration {identifier} was not generated" :
        Logged RunError Unit)).outcome = .ok units := by
    intro missing
    rw [Logged.outcome_forEach]
    exact exists_mapM_eq_ok.mpr fun _ _ => ⟨(), rfl⟩
  rw [generate]
  dsimp only
  rw [Logged.outcome_bind]
  refine bind_congr ?_
  rintro ⟨namespaces, skipped⟩
  obtain ⟨units, hunits⟩ := hnotes (reportOf options namespaces skipped).missingMandatory
  show (_ >>= _ : Logged RunError Report).outcome = _
  rw [Logged.outcome_bind]
  exact congrArg (· >>= _) hunits

theorem exists_generate_of_generateEach {m : Memo} {outputs : List NamespaceOutput}
    {skipped : List SkippedDeclaration}
    (h : (g.generateEach options g.buildOrder m).1.outcome = .ok (outputs, skipped)) :
    ∃ missingMandatory, (g.generate options m).1.outcome =
      .ok { namespaces := outputs, skipped, missingMandatory } := by
  refine ⟨(reportOf options outputs skipped).missingMandatory, ?_⟩
  rw [outcome_generate, h]
  rfl

section Cons

variable (hr : g.repository? id = some r)

include hr

theorem selected_cons :
    g.selected options (id :: ids) =
      if options.selects r.key then (id, r) :: g.selected options ids else g.selected options ids := by
  rw [selected, List.filterMap_cons, hr, Option.bind_some]
  cases options.selects r.key <;> rfl

/-- A repository that is not selected is passed over. -/
theorem outcome_generateEach_of_not_selects (hselects : ¬options.selects r.key) (m : Memo) :
    (g.generateEach options (id :: ids) m).1.outcome = (g.generateEach options ids m).1.outcome := by
  rw [generateEach, hr]
  dsimp only
  rw [if_neg hselects]
  dsimp only
  rw [Logged.outcome_bind, Logged.outcome_note]
  rfl

/-- A selected repository comes before the others. -/
theorem outcome_generateEach_of_selects (hselects : options.selects r.key) {m left : Memo}
    {results : List (WorkItem × Except Fault EmittedDeclaration)}
    (hemitted : (Emitter.mk g id).emitAll ((Emitter.mk g id).items r.content) m = (results, left)) :
    (g.generateEach options (id :: ids) m).1.outcome = (do
      let (declarations, skipped) ← (collectResults options.bestEffort results).outcome
      let (outputs, others) ← (g.generateEach options ids left).1.outcome
      return (⟨r.key, r.content.sharedLibrary, declarations⟩ :: outputs, skipped ++ others)) := by
  have hnoted : ∀ message, (do
      Logged.note .info message
      collectResults options.bestEffort results).outcome =
        (collectResults options.bestEffort results).outcome := by
    intro message
    rw [Logged.outcome_bind, Logged.outcome_note]
    rfl
  rw [generateEach, hr]
  dsimp only
  rw [if_pos hselects, hemitted]
  simp only [hnoted]
  cases hcollected : (collectResults options.bestEffort results).outcome with
  | error error => rfl
  | ok collected =>
      dsimp only
      rw [Logged.outcome_bind, hnoted, hcollected]
      exact Logged.outcome_bind _ _

end Cons

end Graph

namespace History.Consistent

variable {h : History} (hh : h.Consistent) {options : Options}

include hh

/-- Generating comes to what the items of each selected repository give from the memo that was there at the
beginning, whatever was decided since. -/
theorem outcome_generateEach {ids : List RepositoryId} (hids : ∀ id ∈ ids, id ∈ h.graph.buildOrder)
    {m m' : Memo} (hm : h.graph.Adds m m') :
    (h.graph.generateEach options ids m').1.outcome = settled options.bestEffort
      ((h.graph.selected options ids).map fun (id, r) => h.graph.outputFrom m id r)
      ((h.graph.selected options ids).flatMap fun (id, r) => skippedOf (h.graph.resultsFrom m id r)) := by
  induction ids generalizing m' with
  | nil => cases options.bestEffort <;> rfl
  | cons id ids ih =>
      obtain ⟨hid, hids⟩ := List.forall_mem_cons.mp hids
      obtain ⟨r, hr⟩ := hh.exists_repository_of_mem hid
      rw [Graph.selected_cons hr]
      by_cases hselects : options.selects r.key
      · rw [if_pos hselects, List.map_cons, List.flatMap_cons]
        have hns := Emitter.content?_eq_some hr
        have hleft := hm.trans (Emitter.adds_emitAll hns (fun _ hitem => hitem) m')
        have hemitted : (Emitter.mk h.graph id).emitAll ((Emitter.mk h.graph id).items r.content) m' =
            (h.graph.resultsFrom m id r, _) :=
          Prod.ext (Emitter.emitAll_of_adds hns (fun _ hitem => hitem) hm) rfl
        have hmild : ∀ result ∈ h.graph.resultsFrom m id r, FailsMildly result.2 := by
          intro result hresult
          obtain ⟨item, -, rfl⟩ := List.mem_map.mp hresult
          exact hh.failsMildly_emit hid item m
        rw [Graph.outcome_generateEach_of_selects hr hselects hemitted, outcome_collectResults _ hmild,
          ih hids hleft]
        exact (settled_append options.bestEffort (fun declarations outputs =>
          (⟨r.key, r.content.sharedLibrary, declarations⟩ : NamespaceOutput) :: outputs) _ _ _ _).symm
      · rw [if_neg hselects, Graph.outcome_generateEach_of_not_selects hr hselects, ih hids hm]

/-- Where failing declarations are skipped, every repository is generated. From a coherent memo, the output
is what the items of each repository give alone. -/
theorem exists_generateEach (hbest : options.bestEffort = true) {ids : List RepositoryId}
    (hids : ∀ id ∈ ids, id ∈ h.graph.buildOrder) (m : Memo) : ∃ outputs skipped,
      (h.graph.generateEach options ids m).1.outcome = .ok (outputs, skipped) ∧
      (h.graph.CoherentOn ids m →
        outputs = (h.graph.selected options ids).map (fun (id, r) => h.graph.outputOf id r) ∧
        skipped = (h.graph.selected options ids).flatMap fun (id, r) =>
          skippedOf (h.graph.resultsOf id r)) := by
  have houtcome : (h.graph.generateEach options ids m).1.outcome = _ :=
    hh.outcome_generateEach hids (.refl h.graph m)
  rw [hbest] at houtcome
  refine ⟨_, _, houtcome, fun hm => ?_⟩
  have hresults : ∀ selected ∈ h.graph.selected options ids,
      h.graph.resultsFrom m selected.1 selected.2 = h.graph.resultsOf selected.1 selected.2 := by
    intro selected hselected
    obtain ⟨id, hid, hfound⟩ := List.mem_filterMap.mp hselected
    obtain ⟨r, hr, hfound⟩ := Option.bind_eq_some_iff.mp hfound
    obtain ⟨-, hfound⟩ := Option.ite_none_right_eq_some.mp hfound
    obtain rfl := Option.some.inj hfound
    exact List.map_congr_left fun item hitem =>
      congrArg (item, ·) (Emitter.emit_eq_alone (Emitter.content?_eq_some hr) hitem (hm id hid))
  constructor
  · refine List.map_congr_left fun selected hselected => ?_
    dsimp only [Graph.outputFrom, Graph.outputOf]
    rw [hresults selected hselected]
  · rw [List.flatMap_def, List.flatMap_def]
    refine congrArg List.flatten (List.map_congr_left fun selected hselected => ?_)
    exact congrArg skippedOf (hresults selected hselected)

end History.Consistent

/-- What generating comes to, by what the items of each selected repository give. -/
theorem Obtained.outcome_generate {g : Graph} (hg : Obtained g) (options : Options) {m m' : Memo}
    (hm : g.Adds m m') :
    (g.generate options m').1.outcome = (do
      let (namespaces, skipped) ← settled options.bestEffort
        ((g.selected options g.buildOrder).map fun (id, r) => g.outputFrom m id r)
        ((g.selected options g.buildOrder).flatMap fun (id, r) => skippedOf (g.resultsFrom m id r))
      return Graph.reportOf options namespaces skipped) := by
  obtain ⟨h, hh, rfl⟩ := hg.exists_consistent
  rw [Graph.outcome_generate, hh.outcome_generateEach (fun _ hid => hid) hm]

/-- Where failing declarations are skipped, generating ends with a report, whatever was registered since the
graph was linked and whatever was decided before: each declaration of a linked repository fails for
reasons of its own only. Without earlier decisions, or after such as would be taken afresh, the report
emits and skips what the items of each repository give alone. -/
theorem generate_bestEffort {g : Graph} (hg : Obtained g) {options : Options}
    (hbest : options.bestEffort = true) (m : Memo) :
    (∀ id ∈ g.buildOrder, ∀ item m fault, (((Emitter.mk g id).emit item).run.run m).1 = .error fault →
      fault.OfDeclaration ∧ fault.isStructural = false) ∧
    ∃ report, (g.generate options m).1.outcome = .ok report ∧
      (g.CoherentOn g.buildOrder m →
        report.namespaces = (g.selected options g.buildOrder).map (fun (id, r) => g.outputOf id r) ∧
        report.skipped = (g.selected options g.buildOrder).flatMap fun (id, r) =>
          skippedOf (g.resultsOf id r)) := by
  obtain ⟨h, hh, rfl⟩ := hg.exists_consistent
  refine ⟨fun id hid item m fault hfault => ?_, ?_⟩
  · have hmild := hh.failsMildly_emit hid item m fault hfault
    exact ⟨hmild, hmild.isStructural⟩
  · obtain ⟨outputs, skipped, houtcome, hcoherent⟩ := hh.exists_generateEach hbest (fun _ hid => hid) m
    obtain ⟨missingMandatory, hreport⟩ := Graph.exists_generate_of_generateEach houtcome
    exact ⟨_, hreport, hcoherent⟩

/-- A constant that is emitted alone fails exactly as its type does. -/
theorem Emitter.alone_constant (e : Emitter) (identifier : String) (place : Place) (c : Constant) :
    ∃ make, e.alone ⟨identifier, place, .constant c⟩ = make <$> e.graph.decide e.id c.type := by
  refine ⟨fun decided => .constant
    { identifier := e.identifier none c.name.native
      managedName := c.name.managed
      typeName := if c.type.spec.nativeSpelling.any fun s => (classify s).category == .text then "string"
        else e.graph.typeName e.id decided .native
      value := c.value }, ?_⟩
  have hnone : ({} : Memo).get? ⟨e.id, place, .value⟩ = none := by simp [Memo.get?]
  rw [alone, emit]
  dsimp only [constant, resolve]
  rw [map_eq_pure_bind EmittedDeclaration.constant, bind_assoc, run_bind, run_resolve, hnone]
  cases e.graph.decide e.id c.type <;> rfl

theorem skippedOf_constant_cons (e : Emitter) (identifier : String) (place : Place) (c : Constant)
    (results : List (WorkItem × Except Fault EmittedDeclaration)) :
    skippedOf ((⟨identifier, place, .constant c⟩, e.alone ⟨identifier, place, .constant c⟩) :: results) =
      match e.graph.decide e.id c.type with
      | .ok _ => skippedOf results
      | .error fault => ⟨identifier, fault⟩ :: skippedOf results := by
  obtain ⟨make, hmake⟩ := e.alone_constant identifier place c
  rw [hmake]
  cases e.graph.decide e.id c.type <;> rfl

namespace Sample

def constant (name type ctype : String) : Description.Constant where
  name := some name
  value := some "0"
  type := some { name := some type, ctype := some ctype }

/-- Constants of a type of `GLib`, of an unknown type, and of a type that leads back to itself. -/
def jobDescription : Description where
  includes := [{ name := some "GLib", version := some "2.0" }]
  namespaceInfo := {
    name := some "Job", version := some "2.0"
    aliases := [
      { name := some "Loop", ctype := some "JLoop",
        target := some { name := some "Round", ctype := some "JRound" } },
      { name := some "Round", ctype := some "JRound",
        target := some { name := some "Loop", ctype := some "JLoop" } }]
    constants := [constant "LIMIT" "GLib.Pid" "GPid", constant "MISSING" "Missing" "JMissing",
      constant "ENDLESS" "Loop" "JLoop"] }

/-- `Job` linked, and then a namespace registered whose include is missing. -/
def job : Graph :=
  ({} : Graph).after [.register glib, .register jobDescription, .link,
    .register (description "Late" ["Missing"] [])]

def jobRepository : Repository where
  content := {
    key := ⟨"Job", "2.0"⟩
    aliases := [
      ⟨.pascal "Loop", .ofString "JLoop", .scalar ⟨some "Round", some (.ofString "JRound")⟩ .aliasTarget⟩,
      ⟨.pascal "Round", .ofString "JRound", .scalar ⟨some "Loop", some (.ofString "JLoop")⟩ .aliasTarget⟩]
    constants := [
      ⟨.pascal "LIMIT", none, "0", .scalar ⟨some "GLib.Pid", some (.ofString "GPid")⟩ .constant⟩,
      ⟨.pascal "MISSING", none, "0", .scalar ⟨some "Missing", some (.ofString "JMissing")⟩ .constant⟩,
      ⟨.pascal "ENDLESS", none, "0", .scalar ⟨some "Loop", some (.ofString "JLoop")⟩ .constant⟩] }
  includes := [⟨⟨"GLib", "2.0"⟩, "Job-2.0", some ⟨0⟩⟩]

def lateRepository : Repository where
  content := { key := ⟨"Late", "2.0"⟩ }
  includes := [⟨⟨"Missing", "2.0"⟩, "Late-2.0", none⟩]

set_option maxRecDepth 4000 in
theorem job_eq : job = {
    repositories := [glibRepository, jobRepository, lateRepository]
    positions := [(⟨"Late", "2.0"⟩, ⟨2⟩), (⟨"Job", "2.0"⟩, ⟨1⟩), (⟨"GLib", "2.0"⟩, ⟨0⟩)]
    edges := [(⟨0⟩, ⟨1⟩)]
    buildOrder := [⟨0⟩, ⟨1⟩] } := by
  cbv

theorem items_job : (Emitter.mk job ⟨1⟩).items jobRepository.content =
    [⟨"Job.LIMIT", .constant 0, .constant jobRepository.content.constants[0]⟩,
      ⟨"Job.MISSING", .constant 1, .constant jobRepository.content.constants[1]⟩,
      ⟨"Job.ENDLESS", .constant 2, .constant jobRepository.content.constants[2]⟩] := by
  rw [job_eq]
  cbv

theorem selected_job : job.selected {} job.buildOrder = [(⟨0⟩, glibRepository), (⟨1⟩, jobRepository)] := by
  rw [job_eq]
  cbv

theorem skippedOf_resultsOf_job : skippedOf (job.resultsOf ⟨1⟩ jobRepository) =
    [⟨"Job.MISSING", .unresolvedSymbol "Missing" "Job-2.0"⟩,
      ⟨"Job.ENDLESS", .aliasCycle ["Job.Loop", "Job.Round", "Job.Loop"]⟩] := by
  simp only [Graph.resultsOf, items_job, List.map_cons, skippedOf_constant_cons]
  rw [job_eq]
  decide +kernel

end Sample

open Sample in
theorem generate_bestEffort_job : ∃ report, (job.generate {} {}).1.outcome = .ok report ∧
    report.namespaces.map (·.key) = [⟨"GLib", "2.0"⟩, ⟨"Job", "2.0"⟩] ∧
    report.skipped = [⟨"Job.MISSING", .unresolvedSymbol "Missing" "Job-2.0"⟩,
      ⟨"Job.ENDLESS", .aliasCycle ["Job.Loop", "Job.Round", "Job.Loop"]⟩] := by
  have hjob : Obtained job := Obtained.empty.after _
  have hbest : ({} : Options).bestEffort = true := rfl
  obtain ⟨-, report, houtcome, hcoherent⟩ := generate_bestEffort hjob hbest {}
  obtain ⟨hnamespaces, hskipped⟩ := hcoherent fun id _ => Graph.coherent_empty job id
  rw [selected_job] at hnamespaces hskipped
  have hglib : skippedOf (job.resultsOf ⟨0⟩ glibRepository) = [] := rfl
  refine ⟨report, houtcome, ?_, ?_⟩
  · rw [hnamespaces]
    rfl
  · simp only [hskipped, List.flatMap_cons, List.flatMap_nil, hglib, skippedOf_resultsOf_job,
      List.nil_append, List.append_nil]

end Interop
