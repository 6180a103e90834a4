import Mathlib.Logic.Relation
import Mathlib.Logic.Hydra
import Interop.Proofs.BestEffort

/-! Schedules. The items of a namespace are emitted at the same time, by tasks that share what was decided:
a task looks for a decision, takes one if there is none, and keeps it unless another task was faster. In
whatever order the tasks make these steps, each ends as if it were alone, and together they leave the same
decisions. Main statement: `schedules_agree`. -/

namespace Interop

/-- A computation among others: about to go on, or with a decision taken for a reference and not yet kept. -/
inductive Task (α : Type) where
  | ready (script : Script α)
  | decided (site : Site) (reference : TypeReference) (d : DecidedType) (next : DecidedType → Script α)

namespace Task

variable {α : Type} {g : Graph} {id other : RepositoryId} {m m' : Memo} {task task' : Task α}

/-- What a task has left to do. -/
def script : Task α → Script α
  | ready s => s
  | decided site reference _ next => .ask site reference next

/-- The steps of a task; between any two of them other tasks may change the memo. -/
inductive Step (g : Graph) : Task α → Memo → Task α → Memo → Prop
  | found {site : Site} {reference : TypeReference} {next : DecidedType → Script α} {m : Memo}
      {d : DecidedType} :
      m.get? site = some d → Step g (ready (.ask site reference next)) m (ready (next d)) m
  | decides {site : Site} {reference : TypeReference} {next : DecidedType → Script α} {m : Memo}
      {d : DecidedType} :
      m.get? site = none → g.decide site.repository reference = .ok d →
      Step g (ready (.ask site reference next)) m (decided site reference d next) m
  | fails {site : Site} {reference : TypeReference} {next : DecidedType → Script α} {m : Memo}
      {fault : Fault} :
      m.get? site = none → g.decide site.repository reference = .error fault →
      Step g (ready (.ask site reference next)) m (ready (.done (.error fault))) m
  | keeps {site : Site} {reference : TypeReference} {next : DecidedType → Script α} {m : Memo}
      {d kept : DecidedType} :
      (m.keep site d).get? site = some kept →
      Step g (decided site reference d next) m (ready (next kept)) (m.keep site d)

/-- A task of a repository: it asks for the references of the repository, and what it decided is what would
be decided afresh. -/
def Sound (g : Graph) (id : RepositoryId) : Task α → Prop
  | ready s => s.Asks (g.Asked id)
  | decided site reference d next =>
    g.decide site.repository reference = .ok d ∧ (Script.ask site reference next).Asks (g.Asked id)

theorem Step.sound (h : Step g task m task' m') (htask : task.Sound g id) : task'.Sound g id := by
  cases h with
  | found => exact htask.2 _
  | decides _ hd => exact ⟨hd, htask⟩
  | fails => exact trivial
  | keeps => exact htask.2.2 _

theorem Step.adds (h : Step g task m task' m') (htask : task.Sound g id) : g.Adds m m' := by
  cases h with
  | keeps => exact .keep m htask.2.1.2 htask.1
  | _ => exact .refl g m

/-- What is kept for a reference is what would be decided afresh, whoever was faster. -/
theorem get?_keep_of_coherent (hm : g.Coherent id m) {site : Site} {reference : TypeReference}
    {d : DecidedType} (hasked : g.Asked id site reference) (hd : g.decide site.repository reference = .ok d)
    (site' : Site) (d' : DecidedType) :
    (m.keep site d).get? site' = some d' ↔ m.get? site' = some d' ∨ (site', d') = (site, d) := by
  cases hget : m.get? site with
  | none => exact Graph.get?_keep_of_none hget
  | some kept =>
      have hkept : kept = d := Except.ok.inj ((hm site reference kept hasked hget).symm.trans hd)
      rw [Memo.get?_keep, if_neg fun hboth => by simp [hget] at hboth]
      constructor
      · exact Or.inl
      · rintro (hsome | heq)
        · exact hsome
        · obtain ⟨rfl, rfl⟩ := Prod.mk.inj heq
          rw [hget, hkept]

/-- A step changes neither the result of a task nor the decisions that are kept or still to be kept. -/
theorem Step.preserves (h : Step g task m task' m') (htask : task.Sound g id) (hm : g.Coherent id m) :
    task'.script.answer g = task.script.answer g ∧
      ∀ site d, (m'.get? site = some d ∨ (site, d) ∈ task'.script.decisions g) ↔
        (m.get? site = some d ∨ (site, d) ∈ task.script.decisions g) := by
  cases h with
  | @found asked reference next _ found hget =>
      have hfresh := hm asked reference found htask.1 hget
      exact ⟨(Script.answer_ask hfresh).symm, fun site d =>
        (Script.kept_or_mem_decisions_ask hfresh hget site d).symm⟩
  | decides => exact ⟨rfl, fun _ _ => Iff.rfl⟩
  | fails _ hfault =>
      exact ⟨by simp only [script, Script.answer, hfault], by simp [script, Script.decisions, hfault]⟩
  | @keeps asked reference next _ fresh kept hget =>
      obtain ⟨hfresh, hasks⟩ := htask
      have hkept : kept = fresh :=
        Except.ok.inj ((hm.keep hasks.1 hfresh asked reference kept hasks.1 hget).symm.trans hfresh)
      subst hkept
      refine ⟨(Script.answer_ask hfresh).symm, fun site d => ?_⟩
      simp only [script]
      rw [get?_keep_of_coherent hm hasks.1 hfresh, Script.decisions_ask hfresh, List.mem_cons, or_assoc]

end Task

/-- Tasks, and the decisions that they share. -/
structure Pool (α : Type) where
  tasks : List (Task α)
  memo : Memo

namespace Pool

variable {α : Type} {g : Graph} {id other : RepositoryId} {p p' : Pool α}

/-- One of the tasks makes a step. -/
inductive Step (g : Graph) : Pool α → Pool α → Prop
  | task {before after : List (Task α)} {task task' : Task α} {m m' : Memo} :
      Task.Step g task m task' m' → Step g ⟨before ++ task :: after, m⟩ ⟨before ++ task' :: after, m'⟩

/-- The tasks make steps in any order. The number of workers only restricts the order. -/
abbrev Schedule (g : Graph) : Pool α → Pool α → Prop := Relation.ReflTransGen (Step g)

/-- All tasks are done. -/
def Finished (p : Pool α) (results : List (Except Fault α)) : Prop :=
  p.tasks = results.map fun result => .ready (.done result)

theorem finished_map_snd {β : Type} (results : List (β × Except Fault α)) (m : Memo) :
    Finished ⟨results.map fun (_, result) => .ready (.done result), m⟩ (results.map Prod.snd) := by
  rw [Finished, List.map_map]
  rfl

/-! ### What a schedule preserves -/

/-- All tasks are tasks of a repository. -/
def Sound (g : Graph) (id : RepositoryId) (p : Pool α) : Prop := ∀ task ∈ p.tasks, task.Sound g id

/-- The results that the tasks have when every decision is taken afresh. -/
def answers (g : Graph) (p : Pool α) : List (Except Fault α) := p.tasks.map (·.script.answer g)

/-- A decision is kept, or it is one that a task still takes. -/
def Holds (g : Graph) (p : Pool α) (site : Site) (d : DecidedType) : Prop :=
  p.memo.get? site = some d ∨ ∃ task ∈ p.tasks, (site, d) ∈ task.script.decisions g

theorem Step.sound (h : Step g p p') (hp : p.Sound g id) : p'.Sound g id := by
  obtain ⟨hstep⟩ := h
  rw [Sound, List.forall_mem_append, List.forall_mem_cons] at hp ⊢
  exact ⟨hp.1, hstep.sound hp.2.1, hp.2.2⟩

theorem Step.adds (h : Step g p p') (hp : p.Sound g id) : g.Adds p.memo p'.memo := by
  obtain ⟨hstep⟩ := h
  exact hstep.adds (hp _ (by simp))

theorem Step.answers_eq (h : Step g p p') (hp : p.Sound g id) (hm : g.Coherent id p.memo) :
    p'.answers g = p.answers g := by
  obtain ⟨hstep⟩ := h
  have hanswer := (hstep.preserves (hp _ (by simp)) hm).1
  simp only [answers, List.map_append, List.map_cons, hanswer]

theorem Step.holds_iff (h : Step g p p') (hp : p.Sound g id) (hm : g.Coherent id p.memo) (site : Site)
    (d : DecidedType) : p'.Holds g site d ↔ p.Holds g site d := by
  obtain ⟨hstep⟩ := h
  have hiff := (hstep.preserves (hp _ (by simp)) hm).2 site d
  simp only [Holds, List.mem_append, List.mem_cons, or_and_right, exists_or, exists_eq_left]
  -- decisions of the task move to the memo; those of the others stay
  grind

section Schedule

variable (h : Schedule g p p') (hp : p.Sound g id)

include h hp

theorem Schedule.sound : p'.Sound g id := by
  induction h with
  | refl => exact hp
  | tail _ hstep ih => exact hstep.sound ih

theorem Schedule.adds : g.Adds p.memo p'.memo := by
  induction h with
  | refl => exact .refl g p.memo
  | tail hrun hstep ih => exact ih.trans (hstep.adds (Schedule.sound hrun hp))

variable (hm : g.Coherent id p.memo)

include hm

theorem Schedule.answers_eq : p'.answers g = p.answers g := by
  induction h with
  | refl => rfl
  | tail hrun hstep ih =>
      have hcoherent := (Schedule.adds hrun hp).coherent hm
      exact (hstep.answers_eq (Schedule.sound hrun hp) hcoherent).trans ih

theorem Schedule.holds_iff (site : Site) (d : DecidedType) : p'.Holds g site d ↔ p.Holds g site d := by
  induction h with
  | refl => rfl
  | tail hrun hstep ih =>
      have hcoherent := (Schedule.adds hrun hp).coherent hm
      exact (hstep.holds_iff (Schedule.sound hrun hp) hcoherent site d).trans ih

/-- When all tasks are done, their results are the answers of the beginning, and what is kept is what was
kept or to be decided then. -/
theorem Schedule.finished {results : List (Except Fault α)} (hdone : p'.Finished results) :
    results = p.answers g ∧ ∀ site d, p'.memo.get? site = some d ↔ p.Holds g site d := by
  have hanswers : p'.answers g = results := by
    rw [answers, hdone, List.map_map]
    exact List.map_id _
  refine ⟨hanswers.symm.trans (Schedule.answers_eq h hp hm), fun site d => ?_⟩
  rw [← Schedule.holds_iff h hp hm site d, Holds, hdone]
  simp [Task.script, Script.decisions]

end Schedule

end Pool

/-! ### Every schedule comes to an end -/

namespace Task

variable {α : Type} {g : Graph} {m m' : Memo} {task task' : Task α}

theorem done_or_exists_step (task : Task α) (m : Memo) :
    (∃ result, task = ready (.done result)) ∨ ∃ task' left, Step g task m task' left := by
  rcases task with (result | ⟨site, reference, next⟩) | ⟨site, reference, d, next⟩
  · exact Or.inl ⟨result, rfl⟩
  · cases hget : m.get? site with
    | some found => exact Or.inr ⟨_, _, .found hget⟩
    | none =>
        cases hfresh : g.decide site.repository reference with
        | error fault => exact Or.inr ⟨_, _, .fails hget hfresh⟩
        | ok fresh => exact Or.inr ⟨_, _, .decides hget hfresh⟩
  · obtain ⟨kept, hkept⟩ : ∃ kept, (m.keep site d).get? site = some kept := by
      rw [Memo.get?_keep]
      cases hget : m.get? site with
      | none => exact ⟨d, by simp⟩
      | some kept => exact ⟨kept, by simp⟩
    exact Or.inr ⟨_, _, .keeps hkept⟩

/-- A task leads to another by a step, whatever is kept. -/
def Next (g : Graph) (after before : Task α) : Prop := ∃ m m', Step g before m after m'

theorem acc_ready (s : Script α) : Acc (Next g) (ready s) := by
  induction s with
  | done => exact ⟨_, fun _ ⟨_, _, hstep⟩ => nomatch hstep⟩
  | ask site reference next ih =>
      have hdecided : ∀ d, Acc (Next g) (decided site reference d next) := by
        refine fun d => ⟨_, ?_⟩
        rintro _ ⟨_, _, hstep⟩
        cases hstep with
        | keeps => exact ih _
      refine ⟨_, ?_⟩
      rintro _ ⟨_, _, hstep⟩
      cases hstep with
      | found => exact ih _
      | decides => exact hdecided _
      | fails => exact ⟨_, fun _ ⟨_, _, hstep⟩ => nomatch hstep⟩

/-- No task makes steps for ever. -/
theorem acc (task : Task α) : Acc (Next g) task := by
  cases task with
  | ready s => exact acc_ready s
  | decided site reference d next =>
      refine ⟨_, ?_⟩
      rintro _ ⟨_, _, hstep⟩
      cases hstep with
      | keeps => exact acc_ready _

end Task

namespace Pool

variable {α : Type} {g : Graph}

/-- A script that nothing interrupts is run as a whole. -/
theorem schedule_run (before after : List (Task α)) (s : Script α) (m : Memo) :
    Schedule g ⟨before ++ .ready s :: after, m⟩
      ⟨before ++ .ready (.done ((s.run g).run.run m).1) :: after, ((s.run g).run.run m).2⟩ := by
  induction s generalizing m with
  | done result => rw [Script.run_done]
  | ask site reference next ih =>
      rw [Script.run_ask]
      cases hget : m.get? site with
      | some found => exact .head (.task (.found hget)) (ih found m)
      | none =>
          cases hfresh : g.decide site.repository reference with
          | error fault => exact .single (.task (.fails hget hfresh))
          | ok fresh =>
              have hkept : (m.keep site fresh).get? site = some fresh := by
                rw [Memo.get?_keep, if_pos ⟨rfl, hget⟩]
              exact .head (.task (.decides hget hfresh)) (.head (.task (.keeps hkept)) (ih fresh _))

theorem exists_finished_or_step (p : Pool α) : (∃ results, p.Finished results) ∨ ∃ p', Step g p p' := by
  obtain ⟨tasks, m⟩ := p
  by_cases hdone : ∀ task ∈ tasks, ∃ result, Task.ready (.done result) = task
  · obtain ⟨results, hresults⟩ : tasks ∈ Set.range (List.map fun result => .ready (.done result)) := by
      rw [Set.range_list_map]
      exact hdone
    exact Or.inl ⟨results, hresults.symm⟩
  · push Not at hdone
    obtain ⟨task, hmem, hdone⟩ := hdone
    obtain ⟨before, after, rfl⟩ := List.append_of_mem hmem
    rcases Task.done_or_exists_step (g := g) task m with ⟨result, rfl⟩ | ⟨task', left, hstep⟩
    · exact absurd rfl (hdone result)
    · exact Or.inr ⟨_, .task hstep⟩

/-- No schedule goes on for ever. -/
theorem wellFounded_step : WellFounded fun p' p : Pool α => Step g p p' := by
  have hmultiset : WellFounded (Relation.CutExpand (Task.Next (α := α) g)) :=
    WellFounded.cutExpand ⟨Task.acc⟩
  refine Subrelation.wf ?_ (InvImage.wf (fun p : Pool α => (p.tasks : Multiset (Task α))) hmultiset)
  have hcoe : ∀ (before after : List (Task α)) (task : Task α),
      (↑(before ++ task :: after) : Multiset (Task α)) = ↑(before ++ after) + {task} := by
    intro before after task
    rw [← Multiset.coe_singleton, Multiset.coe_add, Multiset.coe_eq_coe]
    exact List.perm_middle.trans (List.perm_append_singleton _ _).symm
  rintro _ _ ⟨hstep⟩
  simp only [InvImage, hcoe]
  exact Relation.cutExpand_add_single _ ⟨_, _, hstep⟩

end Pool

/-! ### Emission -/

namespace Emitter

variable {e : Emitter} {ns : Namespace} {items : List WorkItem} {tasks : List (Task EmittedDeclaration)}
  {m : Memo} {p : Pool EmittedDeclaration}

/-- A task that emits an item and asks for references of the repository. -/
def Begins (e : Emitter) (item : WorkItem) (task : Task EmittedDeclaration) : Prop :=
  ∃ s : Script EmittedDeclaration,
    task = .ready s ∧ s.run e.graph = e.emit item ∧ s.Asks (e.graph.Asked e.id)

/-- A task for each item, none of which has made a step. -/
def Starts (e : Emitter) : List WorkItem → List (Task EmittedDeclaration) → Prop :=
  List.Forall₂ e.Begins

/-- What emitting an item alone keeps. -/
def keptAlone (e : Emitter) (item : WorkItem) : Memo := ((e.emit item).run.run {}).2

theorem exists_starts (hns : e.content? = some ns) (hitems : ∀ item ∈ items, item ∈ e.items ns) :
    ∃ tasks, e.Starts items tasks := by
  induction items with
  | nil => exact ⟨[], .nil⟩
  | cons item items ih =>
      obtain ⟨hitem, hitems⟩ := List.forall_mem_cons.mp hitems
      obtain ⟨s, hrun, hs⟩ := exists_script hns hitem
      obtain ⟨tasks, htasks⟩ := ih hitems
      exact ⟨.ready s :: tasks, .cons ⟨s, rfl, hrun, hs⟩ htasks⟩

theorem Begins.spec {item : WorkItem} {task : Task EmittedDeclaration} (h : e.Begins item task) :
    task.Sound e.graph e.id ∧ task.script.answer e.graph = e.alone item ∧
      ∀ site d, (site, d) ∈ task.script.decisions e.graph ↔ (e.keptAlone item).get? site = some d := by
  obtain ⟨s, rfl, hrun, hs⟩ := h
  obtain ⟨hanswer, hkept⟩ := Script.run_eq_answer hs (Graph.coherent_empty e.graph e.id)
  rw [hrun] at hanswer hkept
  refine ⟨hs, hanswer.symm, fun site d => ?_⟩
  rw [keptAlone, hkept]
  simp [Task.script, Memo.get?]

theorem Starts.sound (h : e.Starts items tasks) : Pool.Sound e.graph e.id ⟨tasks, m⟩ := by
  induction h with
  | nil => simp [Pool.Sound]
  | cons hbegins _ ih => exact List.forall_mem_cons.mpr ⟨hbegins.spec.1, ih⟩

theorem Starts.answers (h : e.Starts items tasks) :
    Pool.answers e.graph ⟨tasks, m⟩ = items.map e.alone := by
  induction h with
  | nil => rfl
  | cons hbegins _ ih => exact congrArg₂ List.cons hbegins.spec.2.1 ih

theorem Starts.exists_decisions_iff (h : e.Starts items tasks) (site : Site) (d : DecidedType) :
    (∃ task ∈ tasks, (site, d) ∈ task.script.decisions e.graph) ↔
      ∃ item ∈ items, (e.keptAlone item).get? site = some d := by
  induction h with
  | nil => simp
  | cons hbegins _ ih => rw [List.exists_mem_cons_iff, List.exists_mem_cons_iff, ih, hbegins.spec.2.2]

/-- Whatever the schedule, each item is emitted as if it were alone, and what is kept in the end is what was
kept before and what each item alone keeps. -/
theorem Starts.finished (h : e.Starts items tasks) (hm : e.graph.Coherent e.id m)
    (hrun : Pool.Schedule e.graph ⟨tasks, m⟩ p) {results : List (Except Fault EmittedDeclaration)}
    (hdone : p.Finished results) :
    results = items.map e.alone ∧ ∀ site d, p.memo.get? site = some d ↔
      m.get? site = some d ∨ ∃ item ∈ items, (e.keptAlone item).get? site = some d := by
  obtain ⟨hresults, hkept⟩ := Pool.Schedule.finished hrun h.sound hm hdone
  refine ⟨hresults.trans h.answers, fun site d => ?_⟩
  rw [hkept, Pool.Holds, h.exists_decisions_iff]

/-- Emitting items one after another is a schedule. -/
theorem Starts.schedule_emitAll (h : e.Starts items tasks) (m : Memo) (before : List (Task EmittedDeclaration)) :
    Pool.Schedule e.graph ⟨before ++ tasks, m⟩
      ⟨before ++ (e.emitAll items m).1.map fun (_, result) => .ready (.done result), (e.emitAll items m).2⟩ := by
  induction h generalizing before m with
  | nil => exact .refl
  | @cons item task items tasks hbegins _ ih =>
      obtain ⟨s, rfl, hrun, -⟩ := hbegins
      have hitem := Pool.schedule_run (g := e.graph) before tasks s m
      rw [hrun] at hitem
      have hitems := ih ((e.emit item).run.run m).2 (before ++ [.ready (.done ((e.emit item).run.run m).1)])
      rw [List.append_assoc, List.append_assoc] at hitems
      exact hitem.trans hitems

/-- What is kept after emitting items one after another. -/
theorem get?_emitAll (hns : e.content? = some ns) (hitems : ∀ item ∈ items, item ∈ e.items ns)
    (hm : e.graph.Coherent e.id m) (site : Site) (d : DecidedType) :
    (e.emitAll items m).2.get? site = some d ↔
      m.get? site = some d ∨ ∃ item ∈ items, (e.keptAlone item).get? site = some d := by
  obtain ⟨tasks, htasks⟩ := exists_starts hns hitems
  exact (htasks.finished hm (htasks.schedule_emitAll m []) (Pool.finished_map_snd _ _)).2 site d

/-- Items are emitted under some schedule; the results come in the order of the items. -/
def EmitsAll (e : Emitter) (items : List WorkItem) (m : Memo)
    (results : List (WorkItem × Except Fault EmittedDeclaration)) (left : Memo) : Prop :=
  results.map Prod.fst = items ∧ ∃ tasks, e.Starts items tasks ∧
    Pool.Schedule e.graph ⟨tasks, m⟩ ⟨results.map fun (_, result) => .ready (.done result), left⟩

theorem map_fst_emitAll (items : List WorkItem) (m : Memo) : (e.emitAll items m).1.map Prod.fst = items := by
  induction items generalizing m with
  | nil => rfl
  | cons item items ih => exact congrArg (item :: ·) (ih _)

theorem emitsAll_emitAll (hns : e.content? = some ns) (hitems : ∀ item ∈ items, item ∈ e.items ns) (m : Memo) :
    e.EmitsAll items m (e.emitAll items m).1 (e.emitAll items m).2 := by
  obtain ⟨tasks, htasks⟩ := exists_starts hns hitems
  exact ⟨map_fst_emitAll items m, tasks, htasks, htasks.schedule_emitAll m []⟩

variable {results : List (WorkItem × Except Fault EmittedDeclaration)} {left : Memo} {other : RepositoryId}

theorem EmitsAll.results_eq (h : e.EmitsAll items m results left) (hm : e.graph.Coherent e.id m) :
    results = items.map fun item => (item, e.alone item) := by
  obtain ⟨rfl, tasks, htasks, hrun⟩ := h
  have hresults := (htasks.finished hm hrun (Pool.finished_map_snd results left)).1
  rw [List.map_map, List.map_inj_left] at hresults
  rw [List.map_map]
  refine (List.map_id results).symm.trans (List.map_congr_left fun result hresult => ?_)
  exact Prod.ext rfl (hresults result hresult)

theorem EmitsAll.adds (h : e.EmitsAll items m results left) : e.graph.Adds m left := by
  obtain ⟨-, tasks, htasks, hrun⟩ := h
  exact Pool.Schedule.adds hrun htasks.sound

end Emitter

namespace Graph

/-- What generating makes of the results of a repository. -/
def collected (options : Options) (r : Repository)
    (results : List (WorkItem × Except Fault EmittedDeclaration)) :
    Logged RunError (List EmittedDeclaration × List SkippedDeclaration) := do
  Logged.note .info s!"Generating {r.key.canonicalName} ({results.length} declarations)"
  collectResults options.bestEffort results

/-- Emits the selected namespaces among some repositories one after another, the items of each under some
schedule. -/
inductive GeneratesEach (g : Graph) (options : Options) : List RepositoryId → Memo →
    Logged RunError (List NamespaceOutput × List SkippedDeclaration) → Memo → Prop
  | nil {m : Memo} : GeneratesEach g options [] m (pure ([], [])) m
  | absent {id : RepositoryId} {ids : List RepositoryId} {m left : Memo}
      {outputs : Logged RunError (List NamespaceOutput × List SkippedDeclaration)} :
      g.repository? id = none → GeneratesEach g options ids m outputs left →
      GeneratesEach g options (id :: ids) m outputs left
  | passed {id : RepositoryId} {ids : List RepositoryId} {r : Repository} {m left : Memo}
      {outputs : Logged RunError (List NamespaceOutput × List SkippedDeclaration)} :
      g.repository? id = some r → ¬options.selects r.key → GeneratesEach g options ids m outputs left →
      GeneratesEach g options (id :: ids) m (do
        Logged.note .debug s!"Skipping namespace {r.key.canonicalName}"
        outputs) left
  | aborted {id : RepositoryId} {ids : List RepositoryId} {r : Repository} {m left : Memo}
      {results : List (WorkItem × Except Fault EmittedDeclaration)} {error : RunError} :
      g.repository? id = some r → options.selects r.key →
      (Emitter.mk g id).EmitsAll ((Emitter.mk g id).items r.content) m results left →
      (collected options r results).outcome = .error error →
      GeneratesEach g options (id :: ids) m ⟨(collected options r results).events, .error error⟩ left
  | emitted {id : RepositoryId} {ids : List RepositoryId} {r : Repository} {m left last : Memo}
      {results : List (WorkItem × Except Fault EmittedDeclaration)} {declarations : List EmittedDeclaration}
      {skipped : List SkippedDeclaration}
      {outputs : Logged RunError (List NamespaceOutput × List SkippedDeclaration)} :
      g.repository? id = some r → options.selects r.key →
      (Emitter.mk g id).EmitsAll ((Emitter.mk g id).items r.content) m results left →
      (collected options r results).outcome = .ok (declarations, skipped) →
      GeneratesEach g options ids left outputs last →
      GeneratesEach g options (id :: ids) m (do
        let _ ← collected options r results
        let (outputs, otherSkipped) ← outputs
        return (⟨r.key, r.content.sharedLibrary, declarations⟩ :: outputs, skipped ++ otherSkipped)) last

/-- The report of what was generated, with the mandatory identifiers that are missing. -/
def reportOn (options : Options) (outputs : Logged RunError (List NamespaceOutput × List SkippedDeclaration)) :
    Logged RunError Report := do
  let (namespaces, skipped) ← outputs
  let report : Report := { namespaces, skipped }
  let missing := options.mandatory.filter fun identifier =>
    !report.declarations.any (·.identifier == identifier)
  let _ ← Logged.forEach missing fun identifier =>
    Logged.note .warn s!"Mandatory declaration {identifier} was not generated"
  return { report with missingMandatory := missing }

/-- Generating with schedules: a report, and the decisions that are left. -/
def Generates (g : Graph) (options : Options) (m : Memo) (report : Logged RunError Report) (left : Memo) : Prop :=
  ∃ outputs, g.GeneratesEach options g.buildOrder m outputs left ∧ report = reportOn options outputs

/-- The decisions that any number of earlier runs leave, also such that ended with an error, where all that
was decided before them is what would be decided afresh. -/
inductive Used (g : Graph) : Memo → Prop
  | unused {m : Memo} : g.CoherentOn g.buildOrder m → Used g m
  | generated {options : Options} {m left : Memo} {report : Logged RunError Report} :
      Used g m → g.Generates options m report left → Used g left

variable {g : Graph} {options : Options} {ids : List RepositoryId} {m left : Memo}

theorem collected_emitAll (r : Repository) (id : RepositoryId) (items : List WorkItem) (m : Memo) :
    collected options r ((Emitter.mk g id).emitAll items m).1 = (do
      Logged.note .info s!"Generating {r.key.canonicalName} ({items.length} declarations)"
      collectResults options.bestEffort ((Emitter.mk g id).emitAll items m).1) := by
  have hlength := congrArg List.length ((Emitter.mk g id).map_fst_emitAll items m)
  rw [List.length_map] at hlength
  rw [collected, hlength]

theorem generate_eq_reportOn :
    (g.generate options m).1 = reportOn options (g.generateEach options g.buildOrder m).1 := rfl

/-- Emitting one after another is emitting under some schedule. -/
theorem generatesEach_generateEach (ids : List RepositoryId) (m : Memo) :
    g.GeneratesEach options ids m (g.generateEach options ids m).1 (g.generateEach options ids m).2 := by
  induction ids generalizing m with
  | nil => exact .nil
  | cons id ids ih =>
      rw [generateEach]
      split
      · next hr => exact .absent hr (ih m)
      · next r hr =>
          split
          · next hselects =>
              have hns := Emitter.content?_eq_some hr
              have hemits := Emitter.emitsAll_emitAll hns (fun _ hitem => hitem) m
              dsimp only
              rw [← collected_emitAll]
              cases hcollected : (collected options r _).outcome with
              | error error => exact .aborted hr hselects hemits hcollected
              | ok outputs => exact .emitted hr hselects hemits hcollected (ih _)
          · next hselects => exact .passed hr hselects (ih m)

section Results

variable {outputs : Logged RunError (List NamespaceOutput × List SkippedDeclaration)}

theorem GeneratesEach.adds (h : g.GeneratesEach options ids m outputs left) : g.Adds m left := by
  induction h with
  | nil => exact .refl g _
  | absent _ _ ih => exact ih
  | passed _ _ _ ih => exact ih
  | aborted _ _ hemits _ => exact hemits.adds
  | emitted _ _ hemits _ _ ih => exact hemits.adds.trans ih

theorem results_eq_emitAll {id : RepositoryId} {r : Repository} (hr : g.repository? id = some r)
    {results : List (WorkItem × Except Fault EmittedDeclaration)}
    (hemits : (Emitter.mk g id).EmitsAll ((Emitter.mk g id).items r.content) m results left)
    (hm : g.Coherent id m) :
    results = ((Emitter.mk g id).emitAll ((Emitter.mk g id).items r.content) m).1 := by
  have hns := Emitter.content?_eq_some hr
  rw [hemits.results_eq hm, Emitter.emitAll_of_coherent hns (fun _ hitem => hitem) hm]

/-- Under whatever schedules, the same is generated as by emitting one after another. -/
theorem GeneratesEach.eq (h : g.GeneratesEach options ids m outputs left) (hm : g.CoherentOn ids m) :
    outputs = (g.generateEach options ids m).1 := by
  induction h with
  | nil => rfl
  | absent hr _ ih =>
      rw [generateEach, hr]
      exact ih (List.forall_mem_cons.mp hm).2
  | passed hr hselects _ ih =>
      rw [generateEach, hr, ih (List.forall_mem_cons.mp hm).2]
      dsimp only
      rw [if_neg hselects]
  | aborted hr hselects hemits hcollected =>
      obtain rfl := results_eq_emitAll hr hemits (List.forall_mem_cons.mp hm).1
      rw [generateEach, hr]
      dsimp only
      rw [if_pos hselects, ← collected_emitAll, hcollected]
  | @emitted id ids r m left last _ _ _ _ hr hselects hemits hcollected _ ih =>
      obtain ⟨hid, hids⟩ := List.forall_mem_cons.mp hm
      obtain rfl := results_eq_emitAll hr hemits hid
      have hns := Emitter.content?_eq_some hr
      have hleft : g.CoherentOn ids left := fun other hother => hemits.adds.coherent (hids other hother)
      have hall : g.CoherentOn ids ((Emitter.mk g id).emitAll ((Emitter.mk g id).items r.content) m).2 :=
        fun other hother => (Emitter.adds_emitAll hns (fun _ hitem => hitem) m).coherent (hids other hother)
      rw [generateEach, hr]
      dsimp only
      rw [if_pos hselects, ← collected_emitAll, hcollected, ih hleft, generateEach_of_coherent ids hleft hall]

end Results

theorem Used.coherentOn (h : g.Used m) : g.CoherentOn g.buildOrder m := by
  induction h with
  | unused hm => exact hm
  | generated _ hgenerates ih =>
      obtain ⟨outputs, heach, -⟩ := hgenerates
      exact fun id hid => heach.adds.coherent (ih id hid)

/-- The number of workers is not looked at. -/
theorem generateEach_jobs (jobs : Option Nat) (ids : List RepositoryId) (m : Memo) :
    g.generateEach { options with jobs } ids m = g.generateEach options ids m := by
  induction ids generalizing m with
  | nil => rfl
  | cons id ids ih =>
      simp only [generateEach, ih]
      rfl

theorem Generates.eq {report : Logged RunError Report} {jobs : Option Nat}
    (h : g.Generates { options with jobs } m report left) (hm : g.CoherentOn g.buildOrder m) :
    report = (g.generate options {}).1 := by
  obtain ⟨outputs, heach, rfl⟩ := h
  calc reportOn { options with jobs } outputs
    _ = reportOn options (g.generateEach options g.buildOrder m).1 := by
      rw [heach.eq hm, generateEach_jobs]
      rfl
    _ = (g.generate options m).1 := generate_eq_reportOn.symm
    _ = (g.generate options {}).1 := generate_of_coherent hm

theorem exists_generates (options : Options) (jobs : Option Nat) (m : Memo) :
    ∃ report left, g.Generates { options with jobs } m report left :=
  ⟨_, _, _, generatesEach_generateEach g.buildOrder m, rfl⟩

end Graph

/-- The order of evaluation does not matter. Every schedule of the items of a linked repository comes to an
end. Whatever the order of the items and of their steps, each of them is then emitted as if it were alone,
and the same decisions are kept as by emitting one after another. So the report depends neither on the
workers nor on earlier runs, be they complete or not. -/
theorem schedules_agree {g : Graph} (hg : Obtained g) :
    WellFounded (fun p' p : Pool EmittedDeclaration => Pool.Step g p p') ∧
    (∀ id ∈ g.buildOrder, ∃ r, g.repository? id = some r ∧
      ∀ items m, items.Perm ((Emitter.mk g id).items r.content) → g.Coherent id m →
        (∃ tasks, (Emitter.mk g id).Starts items tasks) ∧
        ∀ tasks p, (Emitter.mk g id).Starts items tasks → Pool.Schedule g ⟨tasks, m⟩ p →
          (∀ p', ¬Pool.Step g p p') →
            p.Finished (items.map (Emitter.mk g id).alone) ∧
            ∀ site, p.memo.get? site =
              ((Emitter.mk g id).emitAll ((Emitter.mk g id).items r.content) m).2.get? site) ∧
    ∀ options jobs m, g.Used m →
      (∃ left, g.Generates { options with jobs } m (g.generate options {}).1 left) ∧
      ∀ report left, g.Generates { options with jobs } m report left → report = (g.generate options {}).1 := by
  obtain ⟨h, hh, rfl⟩ := hg.exists_consistent
  refine ⟨Pool.wellFounded_step, fun id hid => ?_, fun options jobs m hm => ?_⟩
  · obtain ⟨r, hr⟩ := hh.exists_repository_of_mem hid
    have hns := Emitter.content?_eq_some hr
    refine ⟨r, hr, fun items m hperm hm => ⟨Emitter.exists_starts hns fun _ => hperm.mem_iff.mp, ?_⟩⟩
    intro tasks p hstarts hrun hend
    rcases p.exists_finished_or_step (g := h.graph) with ⟨results, hdone⟩ | ⟨p', hstep⟩
    on_goal 2 => exact absurd hstep (hend p')
    obtain ⟨rfl, hkept⟩ := hstarts.finished hm hrun hdone
    refine ⟨hdone, fun site => Option.ext fun d => ?_⟩
    rw [hkept, Emitter.get?_emitAll hns (fun _ hitem => hitem) hm]
    simp only [hperm.mem_iff]
  · obtain ⟨report, left, hgenerates⟩ := h.graph.exists_generates options jobs m
    refine ⟨⟨left, ?_⟩, fun report left hgenerates => hgenerates.eq hm.coherentOn⟩
    rwa [← hgenerates.eq hm.coherentOn]

open Sample in
theorem schedules_agree_job :
    (∃ tasks p, (Emitter.mk job ⟨1⟩).Starts ((Emitter.mk job ⟨1⟩).items jobRepository.content).reverse tasks ∧
      Pool.Schedule job ⟨tasks, {}⟩ p ∧
      p.Finished (((Emitter.mk job ⟨1⟩).items jobRepository.content).reverse.map (Emitter.mk job ⟨1⟩).alone)) ∧
    ∃ left, job.Generates { jobs := some 8 } {} (job.generate {} {}).1 left := by
  have hjob : Obtained job := Obtained.empty.after _
  obtain ⟨hends, hitems, hreports⟩ := schedules_agree hjob
  have hempty : job.Used {} := .unused fun id _ => job.coherent_empty id
  refine ⟨?_, (hreports {} (some 8) {} hempty).1⟩
  have hmem : (⟨1⟩ : RepositoryId) ∈ job.buildOrder := by
    rw [job_eq]
    decide
  obtain ⟨r, hr, hschedules⟩ := hitems ⟨1⟩ hmem
  obtain rfl : jobRepository = r := by
    rw [job_eq] at hr
    exact Option.some.inj hr
  obtain ⟨⟨tasks, hstarts⟩, hfinished⟩ :=
    hschedules _ {} (List.reverse_perm _) (job.coherent_empty ⟨1⟩)
  obtain ⟨p, hrun, hend⟩ := hends.has_min {p | Pool.Schedule job ⟨tasks, {}⟩ p} ⟨_, .refl⟩
  have hstop : ∀ p', ¬Pool.Step job p p' := fun p' hstep => hend p' (hrun.tail hstep) hstep
  exact ⟨tasks, p, hstarts, hrun, (hfinished tasks p hstarts hrun hstop).1⟩

end Interop
