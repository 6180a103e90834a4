import Interop.Proofs.References
import Interop.Proofs.Emission

/-! Computations that take decisions, one decision after another. Emitting an item asks for decisions on
the references declared at its place and nothing else. Main statement: `scripted_emit`. -/

namespace Interop

/-- A computation up to its end, or up to the next decision that it asks for. -/
inductive Script (α : Type) where
  | done (result : Except Fault α)
  | ask (site : Site) (reference : TypeReference) (next : DecidedType → Script α)

namespace Script

variable {α β : Type} {g : Graph}

/-- The computation, with its decisions taken once. -/
def run (g : Graph) : Script α → Deciding α
  | done result => liftExcept result
  | ask site reference next => g.resolve site reference >>= fun decided => (next decided).run g

def bind (next : α → Script β) : Script α → Script β
  | done (.ok a) => next a
  | done (.error fault) => done (.error fault)
  | ask site reference rest => ask site reference fun decided => (rest decided).bind next

/-- Every question has a property. -/
def Asks (P : Site → TypeReference → Prop) : Script α → Prop
  | done _ => True
  | ask site reference next => P site reference ∧ ∀ decided, (next decided).Asks P

/-- Every fault that does not come from a decision has a property. -/
def Raises (Q : Fault → Prop) : Script α → Prop
  | done result => ∀ fault, result = .error fault → Q fault
  | ask _ _ next => ∀ decided, (next decided).Raises Q

theorem asks_bind {P : Site → TypeReference → Prop} {s : Script α} {next : α → Script β} (h : s.Asks P)
    (hnext : ∀ a, (next a).Asks P) : (s.bind next).Asks P := by
  induction s with
  | done result =>
      cases result with
      | error fault => trivial
      | ok a => exact hnext a
  | ask site reference rest ih => exact ⟨h.1, fun decided => ih decided (h.2 decided)⟩

theorem raises_bind {Q : Fault → Prop} {s : Script α} {next : α → Script β} (h : s.Raises Q)
    (hnext : ∀ a, (next a).Raises Q) : (s.bind next).Raises Q := by
  induction s with
  | done result =>
      cases result with
      | error fault =>
          rintro _ ⟨⟩
          exact h fault rfl
      | ok a => exact hnext a
  | ask site reference rest ih => exact fun decided => ih decided (h decided)

theorem run_bind (s : Script α) (next : α → Script β) :
    (s.bind next).run g = s.run g >>= fun a => (next a).run g := by
  induction s with
  | done result => cases result <;> rfl
  | ask site reference rest ih =>
      rw [bind, run, run, bind_assoc]
      exact bind_congr ih

/-! ### Runs -/

theorem run_done (result : Except Fault α) (m : Memo) :
    ((done result).run g).run.run m = (result, m) := by
  cases result <;> rfl

theorem run_ask (site : Site) (reference : TypeReference) (next : DecidedType → Script α) (m : Memo) :
    ((ask site reference next).run g).run.run m = match m.get? site with
      | some d => ((next d).run g).run.run m
      | none => match g.decide site.repository reference with
        | .error fault => (.error fault, m)
        | .ok d => ((next d).run g).run.run (m.keep site d) := by
  rw [run, Interop.run_bind, run_resolve]
  cases m.get? site with
  | some d => rfl
  | none => cases g.decide site.repository reference <;> rfl

/-- A fault of a run comes from the script or from a decision that it asks for. -/
theorem fault_of_run {P : Site → TypeReference → Prop} {Q : Fault → Prop} {s : Script α} (hs : s.Asks P)
    (hraises : s.Raises Q) {m : Memo} {fault : Fault} (h : ((s.run g).run.run m).1 = .error fault) :
    Q fault ∨ ∃ site reference, P site reference ∧ g.decide site.repository reference = .error fault := by
  induction s generalizing m with
  | done result =>
      rw [run_done] at h
      exact Or.inl (hraises fault h)
  | ask asked reference next ih =>
      rw [run_ask] at h
      cases hasked : m.get? asked with
      | some found =>
          rw [hasked] at h
          exact ih found (hs.2 found) (hraises found) h
      | none =>
          rw [hasked] at h
          cases hfresh : g.decide asked.repository reference with
          | error other =>
              rw [hfresh] at h
              cases h
              exact Or.inr ⟨asked, reference, hs.1, hfresh⟩
          | ok fresh =>
              rw [hfresh] at h
              exact ih fresh (hs.2 fresh) (hraises fresh) h

end Script

/-! ### Emission -/

/-- A computation that is a script with given questions and faults. -/
def Scripted {α : Type} (g : Graph) (P : Site → TypeReference → Prop) (Q : Fault → Prop) (x : Deciding α) :
    Prop :=
  ∃ s : Script α, s.run g = x ∧ s.Asks P ∧ s.Raises Q

namespace Scripted

variable {α β : Type} {g : Graph} {P : Site → TypeReference → Prop} {Q : Fault → Prop}

theorem pure (a : α) : Scripted g P Q (Pure.pure a) :=
  ⟨.done (.ok a), rfl, trivial, by rintro _ ⟨⟩⟩

theorem ofExcept {x : Except Fault α} (h : ∀ fault, x = .error fault → Q fault) :
    Scripted g P Q (liftExcept x) :=
  ⟨.done x, rfl, trivial, h⟩

theorem bind {x : Deciding α} {next : α → Deciding β} (h : Scripted g P Q x)
    (hnext : ∀ a, Scripted g P Q (next a)) : Scripted g P Q (x >>= next) := by
  obtain ⟨s, rfl, hasks, hraises⟩ := h
  choose script hrun hasks' hraises' using hnext
  refine ⟨s.bind script, ?_, Script.asks_bind hasks hasks', Script.raises_bind hraises hraises'⟩
  rw [Script.run_bind]
  exact bind_congr hrun

theorem resolve {site : Site} {reference : TypeReference} (h : P site reference) :
    Scripted g P Q (g.resolve site reference) := by
  refine ⟨.ask site reference fun decided => .done (.ok decided), ?_, ⟨h, fun _ => trivial⟩, ?_⟩
  · exact bind_pure (g.resolve site reference)
  · rintro _ _ ⟨⟩

theorem map {x : Deciding α} (f : α → β) (h : Scripted g P Q x) : Scripted g P Q (f <$> x) := by
  rw [map_eq_pure_bind]
  exact h.bind fun a => .pure (f a)

theorem listMapM {f : α → Deciding β} {items : List α} (h : ∀ a ∈ items, Scripted g P Q (f a)) :
    Scripted g P Q (items.mapM f) := by
  induction items with
  | nil => exact .pure []
  | cons a items ih =>
      rw [List.mapM_cons]
      refine (h a (by simp)).bind fun b => ?_
      exact (ih fun c hc => h c (List.mem_cons_of_mem _ hc)).bind fun rest => .pure _

theorem optionMapM {f : α → Deciding β} {item : Option α} (h : ∀ a, item = some a → Scripted g P Q (f a)) :
    Scripted g P Q (item.mapM f) := by
  cases item with
  | none => exact .pure none
  | some a => exact (h a rfl).map some

end Scripted

namespace Emitter

variable (e : Emitter) {P : Site → TypeReference → Prop} {Q : Fault → Prop} {place : Place}

theorem scripted_resolve {α : Type} {slot : TypeSlot} {reference : TypeReference}
    (h : P ⟨e.id, place, slot⟩ reference) {make : DecidedType → Deciding α}
    (hmake : ∀ d, Scripted e.graph P Q (make d)) :
    Scripted e.graph P Q (e.resolve place slot reference >>= make) :=
  (Scripted.resolve h).bind hmake

section Parameters

variable {list : ParameterList} {result : TypeReference}
  (h : ∀ slot reference, list.referenceAt? result slot = some reference → P ⟨e.id, place, slot⟩ reference)

include h

theorem asks_declared {p : Parameter} {i : Nat} (hp : (p, i) ∈ list.declared.zipIdx) :
    P ⟨e.id, place, .parameter i⟩ p.type := by
  refine h (.parameter i) p.type ?_
  rw [ParameterList.referenceAt?, List.mk_mem_zipIdx_iff_getElem?.mp hp, Option.map_some]

theorem scripted_nativeParameters (throws : Bool) :
    Scripted e.graph P Q (e.nativeParameters place list throws) := by
  refine Scripted.bind (.optionMapM fun p hp => ?_) fun receiver => ?_
  · refine e.scripted_resolve (h .receiver p.type ?_) fun d => .pure _
    rw [ParameterList.referenceAt?, hp, Option.map_some]
  · refine Scripted.bind (.listMapM fun (p, i) hp => ?_) fun declared => .pure _
    exact e.scripted_resolve (e.asks_declared h hp) fun d => .pure _

theorem scripted_managedParameters : Scripted e.graph P Q (e.managedParameters place list) := by
  refine .listMapM fun (p, i) hp => ?_
  exact e.scripted_resolve (e.asks_declared h (List.mem_of_mem_filter hp)) fun d => .pure _

end Parameters

theorem scripted_function (owner : Option SymbolName) (c : Callable)
    (h : ∀ slot reference, c.parameters.referenceAt? c.returnValue.type slot = some reference →
      P ⟨e.id, place, slot⟩ reference) :
    Scripted e.graph P Q (e.function place owner c) := by
  refine e.scripted_resolve (h .result _ rfl) fun returned => ?_
  refine (e.scripted_nativeParameters h c.throws).bind fun native => ?_
  exact (e.scripted_managedParameters h).bind fun managed => .pure _

theorem scripted_callback (c : Callback)
    (h : ∀ slot reference, c.parameters.referenceAt? c.returnValue.type slot = some reference →
      P ⟨e.id, place, slot⟩ reference) :
    Scripted e.graph P Q (e.callback place c) := by
  refine e.scripted_resolve (h .result _ rfl) fun returned => ?_
  exact (e.scripted_nativeParameters h c.throws).bind fun native => .pure _

theorem scripted_signal (owner : SymbolName) (s : Signal)
    (h : ∀ slot reference, s.parameters.referenceAt? s.returnValue.type slot = some reference →
      P ⟨e.id, place, slot⟩ reference) :
    Scripted e.graph P Q (e.signal place owner s) := by
  refine e.scripted_resolve (h .result _ rfl) fun returned => ?_
  refine Scripted.bind (.listMapM fun (p, i) hp => ?_) fun arguments => .pure _
  exact e.scripted_resolve (e.asks_declared h hp) fun d => .pure _

theorem scripted_layout (identifier : String) (name : SymbolName) (ctype : Option Spelling)
    (fields : List Field) (folder : Emitted.Folder)
    (h : ∀ slot reference, fieldReferenceAt? fields slot = some reference →
      P ⟨e.id, place, slot⟩ reference) :
    Scripted e.graph P Q (e.layout place identifier name ctype fields folder) := by
  refine Scripted.bind (.listMapM fun (f, i) hf => ?_) fun emitted => .pure _
  refine e.scripted_resolve (h (.field i) f.type ?_) fun d => .pure _
  rw [fieldReferenceAt?, List.mk_mem_zipIdx_iff_getElem?.mp hf, Option.map_some]

theorem scripted_classLayout (identifier : String) (c : Class)
    (h : ∀ slot reference, fieldReferenceAt? c.fields slot = some reference →
      P ⟨e.id, place, slot⟩ reference)
    (hQ : ∀ name fault, e.graph.lookupSymbol e.id name = .error fault → Q fault) :
    Scripted e.graph P Q (e.classLayout place identifier c) := by
  refine (e.scripted_layout identifier c.name c.ctype c.fields .classes h).bind fun layout => ?_
  refine (Scripted.ofExcept fun fault hfault => ?_).bind fun inheritance => .pure _
  obtain ⟨_, name, _, -, -, hname⟩ := mapM_eq_error.mp hfault
  rcases bind_eq_error.mp hname with hlookup | ⟨symbol, -, hmanaged⟩
  · exact hQ name fault hlookup
  · cases hmanaged

theorem scripted_constant (c : Constant)
    (h : ∀ slot reference, valueReferenceAt? c.type slot = some reference →
      P ⟨e.id, place, slot⟩ reference) :
    Scripted e.graph P Q (e.constant place c) :=
  e.scripted_resolve (h .value _ rfl) fun _ => .pure _

/-- An item asks for the references of what it emits, at its place; the only other faults are those of
looking up base types. -/
theorem scripted_emit (item : WorkItem)
    (h : ∀ slot reference, item.work.referenceAt? slot = some reference →
      P ⟨e.id, item.place, slot⟩ reference)
    (hQ : ∀ name fault, e.graph.lookupSymbol e.id name = .error fault → Q fault) :
    Scripted e.graph P Q (e.emit item) := by
  unfold emit
  obtain ⟨identifier, place, work⟩ := item
  cases work with
  | callable owner c => exact (e.scripted_function owner c h).map _
  | callback c => exact (e.scripted_callback c h).map _
  | signal owner s => exact (e.scripted_signal owner s h).map _
  | layout name ctype fields folder =>
      exact (e.scripted_layout identifier name ctype fields folder h).map _
  | classLayout c => exact (e.scripted_classLayout identifier c h hQ).map _
  | enumeration declared => exact .pure _
  | constant c => exact (e.scripted_constant c h).map _

end Emitter

end Interop
