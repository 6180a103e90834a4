import Interop.Proofs.Signatures

/-! User data. A managed signature leaves out the parameters that are named as user data. It keeps the first
parameter all the same, and leaves out one that only names itself. Main statement: `managed_kept`. -/

namespace Interop

namespace ParameterList

variable (list : ParameterList) {p : Parameter} {i : Nat}

/-- Some parameter names a position as that of its user data. -/
def IsNamed (i : Nat) : Prop := ∃ q ∈ list.declared, q.closure = some i

/-- A parameter other than the one at a position names it. -/
def IsNamedByOther (i : Nat) : Prop := ∃ j q, j ≠ i ∧ list.declared[j]? = some q ∧ q.closure = some i

/-- Parameters of a list with their positions, in ascending order: all but those whose position is named and
not zero. -/
structure KeptAs (kept : List (Parameter × Nat)) : Prop where
  ascending : (kept.map (·.2)).Pairwise (· < ·)
  mem_iff : ∀ p i, (p, i) ∈ kept ↔ list.declared[i]? = some p ∧ (i = 0 ∨ ¬list.IsNamed i)

variable {list}

theorem mem_userDataPositions : i ∈ list.userDataPositions ↔ i ≠ 0 ∧ list.IsNamed i := by
  rw [userDataPositions, List.mem_filter, List.mem_filterMap, bne_iff_ne, and_comm]
  rfl

theorem keptAs_managedWithPositions : list.KeptAs list.managedWithPositions where
  ascending := by
    have hpositions : (list.declared.zipIdx.map (·.2)).Pairwise (· < ·) := by
      rw [List.zipIdx_map_snd]
      exact List.pairwise_lt_range'
    exact hpositions.sublist (List.filter_sublist.map _)
  mem_iff p i := by
    rw [managedWithPositions, List.mem_filter, List.mk_mem_zipIdx_iff_getElem?, Bool.not_eq_true',
      Bool.eq_false_iff, Ne, List.contains_iff_mem, mem_userDataPositions, not_and_or, Ne, not_not]

/-- A position is named by its own parameter or by another one. -/
theorem isNamed_iff (hp : list.declared[i]? = some p) :
    list.IsNamed i ↔ list.IsNamedByOther i ∨ p.closure = some i := by
  constructor
  · rintro ⟨q, hq, hclosure⟩
    obtain ⟨j, hj⟩ := List.getElem?_of_mem hq
    by_cases hji : j = i
    · subst hji
      rw [hp] at hj
      cases hj
      exact .inr hclosure
    · exact .inl ⟨j, q, hji, hj, hclosure⟩
  · rintro (⟨j, q, -, hq, hclosure⟩ | hclosure)
    · exact ⟨q, List.mem_of_getElem? hq, hclosure⟩
    · exact ⟨p, List.mem_of_getElem? hp, hclosure⟩

/-- A parameter is kept exactly if no other one names it, unless it is the first one and another one names it,
or it is a later one that names itself and no other one does. -/
theorem KeptAs.mem_iff_isNamedByOther {kept : List (Parameter × Nat)} (h : list.KeptAs kept)
    (hp : list.declared[i]? = some p) :
    ((p, i) ∈ kept ↔ ¬list.IsNamedByOther i) ↔
      ¬(i = 0 ∧ list.IsNamedByOther i) ∧ ¬(i ≠ 0 ∧ p.closure = some i ∧ ¬list.IsNamedByOther i) := by
  rw [h.mem_iff, isNamed_iff hp]
  tauto

end ParameterList

/-- A managed signature keeps, in their order, the declared parameters whose position no parameter names as
that of its user data, and the first one in any case; the instance does not matter. So it leaves out just
those that another parameter names, but for two cases: the first parameter stays though another one names it,
and a later one that names itself goes though no other one does. Whatever was decided before, a callable that
is emitted has one managed entry for each parameter kept, under its name and in the same order. -/
theorem managed_kept (list : ParameterList) :
    ∃ kept, list.KeptAs kept ∧
      (∀ receiver, ({ list with receiver } : ParameterList).managed = kept.map (·.1)) ∧
      (∀ p i, list.declared[i]? = some p → (((p, i) ∈ kept ↔ ¬list.IsNamedByOther i) ↔
        ¬(i = 0 ∧ list.IsNamedByOther i) ∧ ¬(i ≠ 0 ∧ p.closure = some i ∧ ¬list.IsNamedByOther i))) ∧
      ∀ (e : Emitter) (ns : Namespace) (m : Memo) (item : WorkItem) (throws : Bool)
        (declaration : EmittedDeclaration) (shown : List Emitted.Parameter), e.content? = some ns →
        item ∈ e.items ns → item.work.signature? = some (list, throws) →
        e.emitFrom m item = .ok declaration → declaration.managed? = some shown →
        List.Forall₂ (fun p entry => ∃ d, entry = e.parameter p.1 (e.graph.passParameter p.1 d .managed 0) .managed)
          kept shown := by
  have hkept := list.keptAs_managedWithPositions
  refine ⟨list.managedWithPositions, hkept, fun _ => rfl, fun p i hp => hkept.mem_iff_isNamedByOther hp, ?_⟩
  intro e ns m item throws declaration shown hns hitem hsignature h hshown
  have hentries := (Emitter.showsBy_any hns hitem h).managed hsignature hshown
  rw [ParameterList.managedUses, ParameterList.managed, List.map_map, List.forall₂_map_left_iff] at hentries
  refine hentries.imp fun p entry hentry => ?_
  obtain ⟨d, -, heq⟩ := hentry
  exact ⟨d, heq⟩

open Sample in
theorem managed_kept_add : ∃ f, (Emitter.mk idle ⟨0⟩).emitFrom {} addItem = .ok (.function f) ∧
    f.managedParameters.length = 3 := by
  obtain ⟨kept, hkept, hmanaged, -, hentries⟩ := managed_kept add.parameters
  obtain ⟨f, hf⟩ := exists_emitFrom_idle {} (.inl rfl) "Idle.add" (.callable .free .function 0) none
  have hitem : addItem ∈ (Emitter.mk idle ⟨0⟩).items idleRepository.content := by
    rw [items_idle]
    exact .head _
  have hshown := hentries _ _ {} addItem true _ _ (Emitter.content?_eq_some repository?_idle) hitem rfl hf rfl
  refine ⟨f, hf, ?_⟩
  rw [← hshown.length_eq, ← List.length_map (f := Prod.fst), ← hmanaged none]
  rfl

open Sample in
/-- The user data of the second parameter is kept, and the last parameter, which names itself, is not. -/
theorem misnamed_add :
    add.parameters.IsNamedByOther 0 ∧ add.parameters.declared[0]? = some (addressed "data") ∧
    addressed "data" ∈ add.parameters.managed ∧
    ¬add.parameters.IsNamedByOther 4 ∧ add.parameters.declared[4]? = some (addressed "object" (some 4)) ∧
    addressed "object" (some 4) ∉ add.parameters.managed := by
  refine ⟨⟨1, _, by decide, rfl, rfl⟩, rfl, by decide, ?_, rfl, by decide⟩
  rintro ⟨j, q, hj, hq, hclosure⟩
  obtain ⟨hlt, rfl⟩ := List.getElem?_eq_some_iff.mp hq
  have hnone : ∀ j : Fin 5, j.val ≠ 4 → add.parameters.declared[j].closure ≠ some 4 := by decide
  exact hnone ⟨j, hlt⟩ hj hclosure

end Interop
