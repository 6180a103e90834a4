import Interop.Proofs.Coherence

/-! What a memo answers. A reference is answered by the decision that is kept for it, or else by a fresh one.
Deciding adds to a memo only what it would have answered anyway. So an item is emitted as from the memo that
a run began with, whatever was emitted before it, and also where a decision kept since long would be another
one today. Main statement: `emitAll_of_adds`. -/

namespace Interop

namespace Graph

/-- What a memo answers for a reference: the decision that is kept, or else a fresh one. -/
def answer (g : Graph) (m : Memo) (site : Site) (reference : TypeReference) : Except Fault DecidedType :=
  ((g.resolve site reference).run.run m).1

variable {g : Graph} {m m' : Memo}

theorem answer_of_some {site : Site} {d : DecidedType} (h : m.get? site = some d)
    (reference : TypeReference) : g.answer m site reference = .ok d := by
  rw [answer, run_resolve, h]

theorem answer_of_none {site : Site} (h : m.get? site = none) (reference : TypeReference) :
    g.answer m site reference = g.decide site.repository reference := by
  rw [answer, run_resolve, h]
  cases g.decide site.repository reference <;> rfl

/-- Decisions that are added do not change the answers for the declared references. -/
theorem Adds.answer_eq (h : g.Adds m m') {site : Site} {reference : TypeReference}
    (hreference : g.referenceAt? site = some reference) :
    g.answer m' site reference = g.answer m site reference := by
  cases hkept : m.get? site with
  | some d => rw [answer_of_some hkept, answer_of_some (h.stays site d hkept)]
  | none =>
      rw [answer_of_none hkept]
      cases hadded : m'.get? site with
      | none => exact answer_of_none hadded reference
      | some d =>
          rw [answer_of_some hadded]
          rcases h.fresh site d hadded with hsome | ⟨other, hother, hd⟩
          · rw [hkept] at hsome
            cases hsome
          · rw [hreference] at hother
            cases hother
            exact hd.symm

end Graph

/-- The result with every decision as a memo answers it. -/
def Script.answerFrom {α : Type} (g : Graph) (m : Memo) : Script α → Except Fault α
  | done result => result
  | ask site reference next => g.answer m site reference >>= fun d => (next d).answerFrom g m

theorem Script.run_of_adds {α : Type} {g : Graph} {id : RepositoryId} {s : Script α}
    (hs : s.Asks (g.Asked id)) {m m' : Memo} (h : g.Adds m m') :
    ((s.run g).run.run m').1 = s.answerFrom g m := by
  induction s generalizing m' with
  | done result => rw [run_done, answerFrom]
  | ask site reference next ih =>
      obtain ⟨⟨-, hreference⟩, hnext⟩ := hs
      rw [run_ask, answerFrom, ← h.answer_eq hreference]
      cases hkept : m'.get? site with
      | some d =>
          rw [Graph.answer_of_some hkept]
          exact ih d (hnext d) h
      | none =>
          rw [Graph.answer_of_none hkept]
          cases hfresh : g.decide site.repository reference with
          | error fault => rfl
          | ok d => exact ih d (hnext d) (h.trans (.keep m' hreference hfresh))

namespace Emitter

variable {e : Emitter} {ns : Namespace} {m m' : Memo}

/-- What emitting an item gives when some decisions were taken before. -/
def emitFrom (e : Emitter) (m : Memo) (item : WorkItem) : Except Fault EmittedDeclaration :=
  ((e.emit item).run.run m).1

theorem emitFrom_of_adds (hns : e.content? = some ns) {item : WorkItem} (hitem : item ∈ e.items ns)
    (h : e.graph.Adds m m') : e.emitFrom m' item = e.emitFrom m item := by
  obtain ⟨s, hrun, hs⟩ := exists_script hns hitem
  rw [emitFrom, emitFrom, ← hrun, Script.run_of_adds hs h, Script.run_of_adds hs (.refl e.graph m)]

/-- Items emitted one after another are emitted like each from the first memo. -/
theorem emitAll_of_adds (hns : e.content? = some ns) {items : List WorkItem}
    (hitems : ∀ item ∈ items, item ∈ e.items ns) (h : e.graph.Adds m m') :
    (e.emitAll items m').1 = items.map fun item => (item, e.emitFrom m item) := by
  induction items generalizing m' with
  | nil => rfl
  | cons item items ih =>
      obtain ⟨hitem, hitems⟩ := List.forall_mem_cons.mp hitems
      rw [List.map_cons, ← ih hitems (h.trans (adds_emit hns hitem m')), ← emitFrom_of_adds hns hitem h]
      rfl

end Emitter

end Interop
