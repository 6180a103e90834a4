import Interop.Proofs.Schedule

/-! The account of a run. Every item is either emitted, under the identifier that it stands under, or skipped
under it, so that each declaration of a namespace is accounted for exactly once. The account of a namespace is
the same in every run, whichever namespaces are selected. Main statement: `generate_accounts`. -/

namespace Interop

/-! ### Identifiers -/

/-- Whatever a computation gives if it does not fail has a property. -/
def Gives {α : Type} (P : α → Prop) (x : Deciding α) : Prop := ∀ m a, (x.run.run m).1 = .ok a → P a

namespace Gives

variable {α β : Type} {P : α → Prop} {Q : β → Prop} {x : Deciding α}

theorem any (x : Deciding α) : Gives (fun _ => True) x := fun _ _ _ => trivial

theorem pure {a : α} (h : P a) : Gives P (Pure.pure a) := by
  rintro m _ ⟨⟩
  exact h

theorem bind {next : α → Deciding β} (h : Gives P x) (hnext : ∀ a, P a → Gives Q (next a)) :
    Gives Q (x >>= next) := by
  intro m b hb
  rw [run_bind] at hb
  have hx := h m
  generalize x.run.run m = left at hb hx
  obtain ⟨result, left⟩ := left
  cases result with
  | error fault => cases hb
  | ok a => exact hnext a (hx a rfl) left b hb

theorem map {f : α → β} (h : Gives P x) (hf : ∀ a, P a → Q (f a)) : Gives Q (f <$> x) := by
  rw [map_eq_pure_bind]
  exact h.bind fun a ha => .pure (hf a ha)

end Gives

namespace Emitter

variable (e : Emitter) {ns : Namespace}

theorem gives_function (place : Place) (owner : Option SymbolName) (c : Callable) :
    Gives (·.identifier = e.identifier owner c.name.native) (e.function place owner c) :=
  (Gives.any _).bind fun _ _ => (Gives.any _).bind fun _ _ => (Gives.any _).bind fun _ _ => .pure rfl

theorem gives_callback (place : Place) (c : Callback) :
    Gives (·.identifier = e.identifier none c.name.native) (e.callback place c) :=
  (Gives.any _).bind fun _ _ => (Gives.any _).bind fun _ _ => .pure rfl

theorem gives_signal (place : Place) (owner : SymbolName) (s : Signal) :
    Gives (·.identifier = e.signalIdentifier owner s) (e.signal place owner s) :=
  (Gives.any _).bind fun _ _ => (Gives.any _).bind fun _ _ => .pure rfl

theorem gives_layout (place : Place) (identifier : String) (name : SymbolName) (ctype : Option Spelling)
    (fields : List Field) (folder : Emitted.Folder) :
    Gives (·.identifier = identifier) (e.layout place identifier name ctype fields folder) :=
  (Gives.any _).bind fun _ _ => .pure rfl

theorem gives_classLayout (place : Place) (identifier : String) (c : Class) :
    Gives (·.identifier = identifier) (e.classLayout place identifier c) :=
  (e.gives_layout place identifier c.name c.ctype c.fields .classes).bind fun _ hlayout =>
    (Gives.any _).bind fun _ _ => .pure hlayout

theorem gives_constant (place : Place) (c : Constant) :
    Gives (·.identifier = e.identifier none c.name.native) (e.constant place c) :=
  (Gives.any _).bind fun _ _ => .pure rfl

/-- What is emitted for an item has the identifier that the item stands under. -/
theorem gives_emit {item : WorkItem} (h : e.workAt? ns item.place = some (item.identifier, item.work)) :
    Gives (·.identifier = item.identifier) (e.emit item) := by
  obtain ⟨identifier, place, work⟩ := item
  dsimp only at h ⊢
  cases place with
  | type holder =>
      cases holder with
      | enumeration i | bitfield i =>
          obtain ⟨d, -, hwork⟩ := Option.map_eq_some_iff.mp h
          obtain ⟨rfl, rfl⟩ := Prod.mk.inj hwork
          exact .pure rfl
      | classType i =>
          obtain ⟨c, -, hwork⟩ := Option.map_eq_some_iff.mp h
          obtain ⟨rfl, rfl⟩ := Prod.mk.inj hwork
          exact (e.gives_classLayout _ _ c).map fun _ hlayout => hlayout
      | record i | union i | layout slot =>
          obtain ⟨declared, -, hwork⟩ := Option.map_eq_some_iff.mp h
          obtain ⟨rfl, rfl⟩ := Prod.mk.inj hwork
          exact (e.gives_layout _ _ _ _ _ _).map fun _ hlayout => hlayout
      | interfaceType i | free => cases h
  | callable holder kind i =>
      obtain ⟨c, -, hwork⟩ := Option.map_eq_some_iff.mp h
      obtain ⟨rfl, rfl⟩ := Prod.mk.inj hwork
      exact (e.gives_function _ _ c).map fun _ hfunction => hfunction
  | signal holder i =>
      obtain ⟨owner, -, h⟩ := Option.bind_eq_some_iff.mp h
      obtain ⟨s, -, hwork⟩ := Option.map_eq_some_iff.mp h
      obtain ⟨rfl, rfl⟩ := Prod.mk.inj hwork
      exact (e.gives_signal _ owner s).map fun _ hsignal => hsignal
  | callback i =>
      obtain ⟨c, -, hwork⟩ := Option.map_eq_some_iff.mp h
      obtain ⟨rfl, rfl⟩ := Prod.mk.inj hwork
      exact (e.gives_callback _ c).map fun _ hcallback => hcallback
  | constant i =>
      obtain ⟨c, -, hwork⟩ := Option.map_eq_some_iff.mp h
      obtain ⟨rfl, rfl⟩ := Prod.mk.inj hwork
      exact (e.gives_constant _ c).map fun _ hconstant => hconstant
  | _ => cases h

theorem identifier_of_emitFrom {m : Memo} {item : WorkItem} (hitem : item ∈ e.items ns)
    {declaration : EmittedDeclaration} (h : e.emitFrom m item = .ok declaration) :
    declaration.identifier = item.identifier :=
  e.gives_emit (((e.covers_items ns).mem_iff item).mp hitem).2 m declaration h

end Emitter

/-! ### Accounts -/

/-- What becomes of some items, in their order: each is either emitted, under its own identifier, or skipped
under it for the reason for which it fails. -/
inductive Tallies (emit : WorkItem → Except Fault EmittedDeclaration) :
    List WorkItem → List EmittedDeclaration → List SkippedDeclaration → Prop
  | nil : Tallies emit [] [] []
  | emitted {item : WorkItem} {declaration : EmittedDeclaration} {items : List WorkItem}
      {declarations : List EmittedDeclaration} {skipped : List SkippedDeclaration} :
      emit item = .ok declaration → declaration.identifier = item.identifier →
      Tallies emit items declarations skipped →
      Tallies emit (item :: items) (declaration :: declarations) skipped
  | skipped {item : WorkItem} {fault : Fault} {items : List WorkItem}
      {declarations : List EmittedDeclaration} {skipped : List SkippedDeclaration} :
      emit item = .error fault → Tallies emit items declarations skipped →
      Tallies emit (item :: items) declarations (⟨item.identifier, fault⟩ :: skipped)

theorem tallies_of_identifier {emit : WorkItem → Except Fault EmittedDeclaration} {items : List WorkItem}
    (h : ∀ item ∈ items, ∀ declaration, emit item = .ok declaration →
      declaration.identifier = item.identifier) :
    Tallies emit items (emittedOf (items.map fun item => (item, emit item)))
      (skippedOf (items.map fun item => (item, emit item))) := by
  induction items with
  | nil => exact .nil
  | cons item items ih =>
      obtain ⟨hitem, hitems⟩ := List.forall_mem_cons.mp h
      rw [List.map_cons]
      cases hemit : emit item with
      | ok declaration => exact .emitted hemit (hitem declaration hemit) (ih hitems)
      | error fault => exact .skipped hemit (ih hitems)

/-- What becomes of a namespace in a run. -/
structure Account where
  output : NamespaceOutput
  skipped : List SkippedDeclaration

namespace Account

/-- An account of a repository: the items of all that its namespace declares are told in it. -/
structure Of (account : Account) (g : Graph) (m : Memo) (id : RepositoryId) (r : Repository) : Prop where
  key_eq : account.output.key = r.key
  library_eq : account.output.library = r.content.sharedLibrary
  exists_items : ∃ items, (Emitter.mk g id).Covers r.content (fun _ => True) items ∧
    Tallies ((Emitter.mk g id).emitFrom m) items account.output.declarations account.skipped

/-- The accounts among some that a run is to give. -/
def selected (options : Options) (accounts : List Account) : List Account :=
  accounts.filter fun account => options.selects account.output.key

/-- The report of a run that gives some accounts. -/
def report (options : Options) (accounts : List Account) : Report :=
  Graph.reportOf options (accounts.map (·.output)) (accounts.flatMap (·.skipped))

end Account

namespace Graph

variable (g : Graph) (m : Memo)

def accountOf (id : RepositoryId) (r : Repository) : Account :=
  ⟨g.outputFrom m id r, skippedOf (g.resultsFrom m id r)⟩

def accounts (ids : List RepositoryId) : List Account :=
  ids.filterMap fun id => (g.repository? id).map (g.accountOf m id)

variable {g m} {options : Options} {ids : List RepositoryId}

theorem of_accountOf (id : RepositoryId) (r : Repository) : (g.accountOf m id r).Of g m id r where
  key_eq := rfl
  library_eq := rfl
  exists_items := ⟨_, (Emitter.mk g id).covers_items r.content,
    tallies_of_identifier fun _ hitem _ => (Emitter.mk g id).identifier_of_emitFrom hitem⟩

theorem forall₂_accounts (h : ∀ id ∈ ids, ∃ r, g.repository? id = some r) :
    List.Forall₂ (fun id account => ∃ r, g.repository? id = some r ∧ account.Of g m id r) ids
      (g.accounts m ids) := by
  induction ids with
  | nil => exact .nil
  | cons id ids ih =>
      obtain ⟨⟨r, hr⟩, hids⟩ := List.forall_mem_cons.mp h
      rw [accounts, List.filterMap_cons, hr, Option.map_some]
      exact .cons ⟨r, hr, of_accountOf id r⟩ (ih hids)

/-- The accounts of the selected repositories are the selected accounts. -/
theorem selected_accounts :
    Account.selected options (g.accounts m ids) =
      (g.selected options ids).map fun (id, r) => g.accountOf m id r := by
  induction ids with
  | nil => rfl
  | cons id ids ih =>
      cases hr : g.repository? id with
      | none =>
          rw [accounts, selected, List.filterMap_cons, List.filterMap_cons, hr]
          exact ih
      | some r =>
          rw [accounts, List.filterMap_cons, hr, selected_cons hr]
          by_cases hselects : options.selects r.key
          · rw [if_pos hselects, List.map_cons, ← ih]
            exact List.filter_cons_of_pos hselects
          · rw [if_neg hselects, ← ih]
            exact List.filter_cons_of_neg hselects

theorem report_selected_accounts :
    Account.report options (Account.selected options (g.accounts m ids)) = reportOf options
      ((g.selected options ids).map fun (id, r) => g.outputFrom m id r)
      ((g.selected options ids).flatMap fun (id, r) => skippedOf (g.resultsFrom m id r)) := by
  rw [selected_accounts, Account.report, List.map_map, List.flatMap_map]
  rfl

end Graph

/-- Nothing is lost or told twice in a run that skips failing declarations. There is one account for each
linked repository, in the order of building, that tells of each of its declarations once, in their order. A
run gives the accounts of the namespaces that it is asked for, and all of them if it is asked for none. So it
is with runs one after another, from any decisions on, and under all schedules, from decisions that would be
taken afresh. -/
theorem generate_accounts {g : Graph} (hg : Obtained g) (m : Memo) :
    ∃ accounts : List Account,
      List.Forall₂ (fun id account => ∃ r, g.repository? id = some r ∧ account.Of g m id r) g.buildOrder
        accounts ∧
      (∀ options : Options, options.namespaces = [] → Account.selected options accounts = accounts) ∧
      ∀ options : Options, options.bestEffort = true →
        (∀ left, g.Adds m left → (g.generate options left).1.outcome =
          .ok (Account.report options (Account.selected options accounts))) ∧
        (g.CoherentOn g.buildOrder m → ∀ jobs run left, g.Generates { options with jobs } m run left →
          run.outcome = .ok (Account.report options (Account.selected options accounts))) := by
  have hrepository : ∀ id ∈ g.buildOrder, ∃ r, g.repository? id = some r := by
    obtain ⟨h, hh, rfl⟩ := hg.exists_consistent
    exact fun id hid => hh.exists_repository_of_mem hid
  refine ⟨g.accounts m g.buildOrder, Graph.forall₂_accounts hrepository, fun options hall => ?_,
    fun options hbest => ?_⟩
  · refine List.filter_eq_self.mpr fun account _ => ?_
    rw [Options.selects, hall]
    rfl
  · have hruns : ∀ left, g.Adds m left → (g.generate options left).1.outcome =
        .ok (Account.report options (Account.selected options (g.accounts m g.buildOrder))) := by
      intro left hleft
      rw [hg.outcome_generate options hleft, hbest, Graph.report_selected_accounts]
      rfl
    refine ⟨hruns, fun hm jobs run left hrun => ?_⟩
    rw [hrun.eq hm, ← Graph.generate_of_coherent hm]
    exact hruns m (.refl g m)

open Sample in
theorem generate_accounts_job : ∃ full part : Report,
    (job.generate {} {}).1.outcome = .ok full ∧
    (job.generate { namespaces := ["Job"] } {}).1.outcome = .ok part ∧
    full.namespaces.map (·.key) = [⟨"GLib", "2.0"⟩, ⟨"Job", "2.0"⟩] ∧
    part.namespaces = full.namespaces.drop 1 ∧ ∃ others, full.skipped = others ++ part.skipped := by
  have hjob : Obtained job := Obtained.empty.after _
  obtain ⟨accounts, haccounts, hall, hruns⟩ := generate_accounts hjob {}
  have hfull := (hruns {} rfl).1 {} (.refl job {})
  have hpart := (hruns { namespaces := ["Job"] } rfl).1 {} (.refl job {})
  rw [hall {} rfl] at hfull
  have horder : job.buildOrder = [⟨0⟩, ⟨1⟩] := by rw [job_eq]
  have hglib : job.repository? ⟨0⟩ = some glibRepository := by
    rw [job_eq]
    rfl
  have hrepository : job.repository? ⟨1⟩ = some jobRepository := by
    rw [job_eq]
    rfl
  rw [horder] at haccounts
  rcases haccounts with _ | ⟨⟨r, hr, hfirst⟩, _ | ⟨⟨r', hr', hsecond⟩, _ | _⟩⟩
  rename_i first second
  cases hglib.symm.trans hr
  cases hrepository.symm.trans hr'
  have hselected : Account.selected { namespaces := ["Job"] } [first, second] = [second] := by
    rw [Account.selected, List.filter_cons_of_neg, List.filter_cons_of_pos, List.filter_nil]
    · rw [hsecond.key_eq]
      decide
    · rw [hfirst.key_eq]
      decide
  rw [hselected] at hpart
  refine ⟨_, _, hfull, hpart, ?_, rfl, first.skipped, ?_⟩
  · show [first.output.key, second.output.key] = _
    rw [hfirst.key_eq, hsecond.key_eq]
    rfl
  · exact List.flatMap_cons

end Interop
