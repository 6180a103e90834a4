import Interop.Proofs.Script
import Interop.Proofs.Inventory

/-! Coherent memos: what is kept for the declared references of a repository is what would be decided
afresh. From a coherent memo every item is emitted as if it were alone, and the memo stays coherent, so
that a report does not depend on what was decided before. Main statements: `generate_of_coherent`,
`adds_generate`. -/

namespace Interop

namespace Graph

/-- A question of a repository: one of its references at its site. -/
def Asked (g : Graph) (id : RepositoryId) (site : Site) (reference : TypeReference) : Prop :=
  site.repository = id ∧ g.referenceAt? site = some reference

/-- The decisions kept for the references of a repository are what would be decided afresh. -/
def Coherent (g : Graph) (id : RepositoryId) (m : Memo) : Prop :=
  ∀ site reference d, g.Asked id site reference → m.get? site = some d →
    g.decide site.repository reference = .ok d

theorem coherent_empty (g : Graph) (id : RepositoryId) : g.Coherent id {} := by
  intro site reference d _ h
  simp [Memo.get?] at h

variable {g : Graph} {id other : RepositoryId} {m : Memo}

theorem get?_keep_of_none {site site' : Site} {d d' : DecidedType} (h : m.get? site = none) :
    (m.keep site d).get? site' = some d' ↔ m.get? site' = some d' ∨ (site', d') = (site, d) := by
  rw [Memo.get?_keep, Prod.mk.injEq]
  by_cases hsite : site = site'
  · subst hsite
    rw [if_pos ⟨rfl, h⟩, h, Option.some.injEq]
    constructor
    · rintro rfl
      exact Or.inr ⟨rfl, rfl⟩
    · rintro (hnone | ⟨-, rfl⟩)
      · cases hnone
      · rfl
  · rw [if_neg fun hboth => hsite hboth.1]
    constructor
    · exact Or.inl
    · rintro (hkept | ⟨rfl, -⟩)
      · exact hkept
      · exact absurd rfl hsite

/-- From one memo to another nothing is lost, and all that is new are decisions on declared references, as
they are taken afresh. -/
structure Adds (g : Graph) (m m' : Memo) : Prop where
  stays : ∀ site d, m.get? site = some d → m'.get? site = some d
  fresh : ∀ site d, m'.get? site = some d → m.get? site = some d ∨
    ∃ reference, g.referenceAt? site = some reference ∧ g.decide site.repository reference = .ok d

theorem Adds.refl (g : Graph) (m : Memo) : g.Adds m m where
  stays _ _ h := h
  fresh _ _ h := Or.inl h

theorem Adds.trans {m' m'' : Memo} (h : g.Adds m m') (h' : g.Adds m' m'') : g.Adds m m'' where
  stays site d hget := h'.stays site d (h.stays site d hget)
  fresh site d hget := (h'.fresh site d hget).elim (h.fresh site d) Or.inr

theorem Adds.keep (m : Memo) {site : Site} {reference : TypeReference} {d : DecidedType}
    (hreference : g.referenceAt? site = some reference) (hd : g.decide site.repository reference = .ok d) :
    g.Adds m (m.keep site d) where
  stays site' d' hget := by
    rw [Memo.get?_keep, if_neg, hget]
    rintro ⟨rfl, hnone⟩
    rw [hget] at hnone
    cases hnone
  fresh site' d' hget := by
    rw [Memo.get?_keep] at hget
    split at hget
    · next hsite =>
        cases hget
        rw [← hsite.1]
        exact Or.inr ⟨reference, hreference, hd⟩
    · exact Or.inl hget

theorem Adds.coherent {m' : Memo} (h : g.Adds m m') (hm : g.Coherent id m) : g.Coherent id m' := by
  intro site reference d hasked hget
  rcases h.fresh site d hget with hkept | ⟨reference', hreference, hd⟩
  · exact hm site reference d hasked hkept
  · rwa [Option.some.inj (hasked.2.symm.trans hreference)]

theorem Coherent.keep (hm : g.Coherent id m) {site : Site} {reference : TypeReference} {d : DecidedType}
    (hasked : g.Asked other site reference) (hd : g.decide site.repository reference = .ok d) :
    g.Coherent id (m.keep site d) :=
  (Adds.keep m hasked.2 hd).coherent hm

end Graph

namespace Script

variable {α : Type} {g : Graph} {id other : RepositoryId}

/-- The result with every decision taken afresh. -/
def answer (g : Graph) : Script α → Except Fault α
  | done result => result
  | ask site reference next =>
    match g.decide site.repository reference with
    | .error fault => .error fault
    | .ok d => (next d).answer g

/-- The decisions on the way to the result. -/
def decisions (g : Graph) : Script α → List (Site × DecidedType)
  | done _ => []
  | ask site reference next =>
    match g.decide site.repository reference with
    | .error _ => []
    | .ok d => (site, d) :: (next d).decisions g

theorem answer_ask {site : Site} {reference : TypeReference} {next : DecidedType → Script α} {d : DecidedType}
    (hd : g.decide site.repository reference = .ok d) :
    (ask site reference next).answer g = (next d).answer g := by
  rw [answer, hd]

theorem decisions_ask {site : Site} {reference : TypeReference} {next : DecidedType → Script α}
    {d : DecidedType} (hd : g.decide site.repository reference = .ok d) :
    (ask site reference next).decisions g = (site, d) :: (next d).decisions g := by
  rw [decisions, hd]

/-- A decision that is kept already adds nothing to those that are kept or still to be taken. -/
theorem kept_or_mem_decisions_ask {site : Site} {reference : TypeReference} {next : DecidedType → Script α}
    {d : DecidedType} {m : Memo} (hd : g.decide site.repository reference = .ok d)
    (hget : m.get? site = some d) (site' : Site) (d' : DecidedType) :
    m.get? site' = some d' ∨ (site', d') ∈ (ask site reference next).decisions g ↔
      m.get? site' = some d' ∨ (site', d') ∈ (next d).decisions g := by
  rw [decisions_ask hd, List.mem_cons, Prod.mk.injEq]
  constructor
  · rintro (hkept | ⟨rfl, rfl⟩ | hlater)
    · exact Or.inl hkept
    · exact Or.inl hget
    · exact Or.inr hlater
  · exact Or.imp_right Or.inr

/-- From a coherent memo, a run takes the decisions that would be taken afresh. -/
theorem run_eq_answer {s : Script α} (hs : s.Asks (g.Asked id)) {m : Memo} (hm : g.Coherent id m) :
    ((s.run g).run.run m).1 = s.answer g ∧
      ∀ site d, ((s.run g).run.run m).2.get? site = some d ↔
        m.get? site = some d ∨ (site, d) ∈ s.decisions g := by
  induction s generalizing m with
  | done result =>
      rw [run_done]
      refine ⟨rfl, fun site d => ?_⟩
      simp [decisions]
  | ask asked reference next ih =>
      rw [run_ask]
      cases hget : m.get? asked with
      | some found =>
          have hfresh := hm asked reference found hs.1 hget
          obtain ⟨hanswer, hkept⟩ := ih found (hs.2 found) hm
          refine ⟨hanswer.trans (answer_ask hfresh).symm, fun site d => ?_⟩
          rw [hkept, kept_or_mem_decisions_ask hfresh hget]
      | none =>
          cases hfresh : g.decide asked.repository reference with
          | error fault =>
              refine ⟨by simp only [answer, hfresh], fun site d => ?_⟩
              simp [decisions, hfresh]
          | ok fresh =>
              obtain ⟨hanswer, hkept⟩ := ih fresh (hs.2 fresh) (hm.keep hs.1 hfresh)
              refine ⟨hanswer.trans (answer_ask hfresh).symm, fun site d => ?_⟩
              rw [hkept, Graph.get?_keep_of_none hget, decisions_ask hfresh, List.mem_cons, or_assoc]

/-- A run adds decisions taken afresh. -/
theorem adds_run {s : Script α} (hs : s.Asks (g.Asked id)) (m : Memo) :
    g.Adds m ((s.run g).run.run m).2 := by
  induction s generalizing m with
  | done result =>
      rw [run_done]
      exact .refl g m
  | ask asked reference next ih =>
      rw [run_ask]
      cases m.get? asked with
      | some found => exact ih found (hs.2 found) m
      | none =>
          cases hfresh : g.decide asked.repository reference with
          | error fault => exact .refl g m
          | ok fresh => exact (Graph.Adds.keep m hs.1.2 hfresh).trans (ih fresh (hs.2 fresh) _)

end Script

namespace Emitter

variable {e : Emitter} {ns : Namespace} {m m' : Memo} {other : RepositoryId}

theorem content?_eq_some {g : Graph} {id : RepositoryId} {r : Repository} (hr : g.repository? id = some r) :
    (Emitter.mk g id).content? = some r.content := by
  rw [content?, hr, Option.map_some]

/-- What emitting an item gives when nothing was decided before. -/
def alone (e : Emitter) (item : WorkItem) : Except Fault EmittedDeclaration :=
  ((e.emit item).run.run {}).1

/-- The references of an item are asked for at its place. -/
theorem asked_of_mem_items (hns : e.content? = some ns) {item : WorkItem} (hitem : item ∈ e.items ns)
    (slot : TypeSlot) (reference : TypeReference) (h : item.work.referenceAt? slot = some reference) :
    e.graph.Asked e.id ⟨e.id, item.place, slot⟩ reference := by
  obtain ⟨r, hr, rfl⟩ := Option.map_eq_some_iff.mp hns
  refine ⟨rfl, ?_⟩
  rw [Graph.referenceAt?, hr]
  exact e.declaredIn_items hitem slot reference h

/-- Emitting an item is a computation that asks for references of the repository only. -/
theorem exists_script (hns : e.content? = some ns) {item : WorkItem} (hitem : item ∈ e.items ns) :
    ∃ s : Script EmittedDeclaration, s.run e.graph = e.emit item ∧ s.Asks (e.graph.Asked e.id) := by
  have hasks := asked_of_mem_items hns hitem
  obtain ⟨s, hrun, hs, -⟩ := e.scripted_emit (Q := fun _ => True) item hasks fun _ _ _ => trivial
  exact ⟨s, hrun, hs⟩

theorem emit_eq_alone (hns : e.content? = some ns) {item : WorkItem} (hitem : item ∈ e.items ns)
    (hm : e.graph.Coherent e.id m) : ((e.emit item).run.run m).1 = e.alone item := by
  obtain ⟨s, hrun, hs⟩ := exists_script hns hitem
  have hempty := Graph.coherent_empty e.graph e.id
  rw [alone, ← hrun]
  calc ((s.run e.graph).run.run m).1
    _ = s.answer e.graph := (Script.run_eq_answer hs hm).1
    _ = ((s.run e.graph).run.run {}).1 := (Script.run_eq_answer hs hempty).1.symm

theorem adds_emit (hns : e.content? = some ns) {item : WorkItem} (hitem : item ∈ e.items ns) (m : Memo) :
    e.graph.Adds m ((e.emit item).run.run m).2 := by
  obtain ⟨s, hrun, hs⟩ := exists_script hns hitem
  rw [← hrun]
  exact Script.adds_run hs m

theorem adds_emitAll (hns : e.content? = some ns) {items : List WorkItem}
    (hitems : ∀ item ∈ items, item ∈ e.items ns) (m : Memo) : e.graph.Adds m (e.emitAll items m).2 := by
  induction items generalizing m with
  | nil => exact .refl e.graph m
  | cons item items ih =>
      obtain ⟨hitem, hitems⟩ := List.forall_mem_cons.mp hitems
      exact (adds_emit hns hitem m).trans (ih hitems _)

/-- From a coherent memo, items emitted one after another are emitted like each alone. -/
theorem emitAll_of_coherent (hns : e.content? = some ns) {items : List WorkItem}
    (hitems : ∀ item ∈ items, item ∈ e.items ns) (hm : e.graph.Coherent e.id m) :
    (e.emitAll items m).1 = items.map fun item => (item, e.alone item) := by
  induction items generalizing m with
  | nil => rfl
  | cons item items ih =>
      obtain ⟨hitem, hitems⟩ := List.forall_mem_cons.mp hitems
      rw [List.map_cons, ← ih hitems ((adds_emit hns hitem m).coherent hm), ← emit_eq_alone hns hitem hm]
      rfl

end Emitter

namespace Graph

variable {g : Graph} {options : Options} {m m' : Memo}

/-- A memo that is coherent for some repositories. -/
def CoherentOn (g : Graph) (ids : List RepositoryId) (m : Memo) : Prop := ∀ id ∈ ids, g.Coherent id m

theorem adds_generateEach (ids : List RepositoryId) (m : Memo) :
    g.Adds m (g.generateEach options ids m).2 := by
  induction ids generalizing m with
  | nil => exact .refl g m
  | cons id ids ih =>
      rw [generateEach]
      split
      · exact ih m
      · next r hr =>
          have hns := Emitter.content?_eq_some hr
          have hleft := Emitter.adds_emitAll hns (fun item hitem => hitem) m
          split
          · dsimp only
            split
            · exact hleft
            · exact hleft.trans (ih _)
          · exact ih m

/-- From coherent memos, the same is generated. -/
theorem generateEach_of_coherent (ids : List RepositoryId) (hm : g.CoherentOn ids m)
    (hm' : g.CoherentOn ids m') :
    (g.generateEach options ids m).1 = (g.generateEach options ids m').1 := by
  induction ids generalizing m m' with
  | nil => rfl
  | cons id ids ih =>
      obtain ⟨hid, hids⟩ := List.forall_mem_cons.mp hm
      obtain ⟨hid', hids'⟩ := List.forall_mem_cons.mp hm'
      rw [generateEach, generateEach]
      split
      · exact ih hids hids'
      · next r hr =>
          have hns := Emitter.content?_eq_some hr
          have hresults : ((Emitter.mk g id).emitAll ((Emitter.mk g id).items r.content) m).1 =
              ((Emitter.mk g id).emitAll ((Emitter.mk g id).items r.content) m').1 := by
            rw [Emitter.emitAll_of_coherent hns (fun item hitem => hitem) hid,
              Emitter.emitAll_of_coherent hns (fun item hitem => hitem) hid']
          have hleft : ∀ m, g.CoherentOn ids m → g.CoherentOn ids
              ((Emitter.mk g id).emitAll ((Emitter.mk g id).items r.content) m).2 :=
            fun m hm other hother =>
              (Emitter.adds_emitAll hns (fun item hitem => hitem) m).coherent (hm other hother)
          have hrest := ih (hleft m hids) (hleft m' hids')
          split
          · dsimp only
            rw [hresults]
            split
            · rfl
            · rw [hrest]
          · dsimp only
            rw [ih hids hids']

/-- A report does not depend on what was decided before, if that is what would be decided afresh. -/
theorem generate_of_coherent (hm : g.CoherentOn g.buildOrder m) :
    (g.generate options m).1 = (g.generate options {}).1 := by
  have heach : (g.generateEach options g.buildOrder m).1 = (g.generateEach options g.buildOrder {}).1 :=
    generateEach_of_coherent g.buildOrder hm fun id _ => coherent_empty g id
  rw [generate, generate]
  dsimp only
  rw [heach]

/-- Generating adds decisions taken afresh. -/
theorem adds_generate (g : Graph) (options : Options) (m : Memo) : g.Adds m (g.generate options m).2 :=
  adds_generateEach g.buildOrder m

end Graph

end Interop
