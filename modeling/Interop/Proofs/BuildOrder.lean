import Interop.Proofs.DepthFirst
import Interop.Proofs.Reach
import Interop.Proofs.Traversal
import Mathlib.Data.Finset.Range

/-! The order of the positions of an include relation. A search along the includes leaves the
including positions before the included ones unless there is a cycle, and the position that the check
of the order stops at lies on one. -/

namespace Interop.DependencyOrder

open Relation

/-- One position includes another. -/
def Step (relation : List (List Nat)) (i j : Nat) : Prop := j ∈ includedBy relation i

/-- The included positions are positions of the relation. -/
def InRange (relation : List (List Nat)) : Prop :=
  ∀ i j, Step relation i j → j < relation.length

variable {relation : List (List Nat)}

theorem Step.lt {i j : Nat} (h : Step relation i j) : i < relation.length := by
  by_contra hlt
  rw [Step, includedBy, List.getElem?_eq_none (by omega)] at h
  simp at h

theorem mem_includersOf {i j : Nat} : j ∈ includersOf relation i ↔ Step relation j i := by
  simp only [includersOf, List.mem_filter, List.mem_range, List.contains_iff_mem]
  exact ⟨fun h => h.2, fun h => ⟨Step.lt h, h⟩⟩

theorem mem_range_of_mem_includersOf (relation : List (List Nat)) :
    ∀ i ∈ Finset.range relation.length, ∀ j ∈ includersOf relation i,
      j ∈ Finset.range relation.length :=
  fun _ _ _ hj => Finset.mem_range.mpr (Step.lt (mem_includersOf.mp hj))

theorem includersOf_eq_swap :
    (fun a b => b ∈ includersOf relation a) = Function.swap (Step relation) := by
  funext a b
  exact propext mem_includersOf

/-- Paths along the including positions are paths of the relation the other way round. -/
theorem transGen_includersOf {i j : Nat} :
    TransGen (fun a b => b ∈ includersOf relation a) i j ↔ TransGen (Step relation) j i := by
  rw [includersOf_eq_swap, transGen_swap]

theorem reflTransGen_includersOf {i j : Nat} :
    ReflTransGen (fun a b => b ∈ includersOf relation a) i j ↔
      ReflTransGen (Step relation) j i := by
  rw [includersOf_eq_swap, reflTransGen_swap]

/-- What the whole search leaves: every position once, none of them its own includer, settled. -/
theorem walk_all {s : Walk}
    (h : walk (includersOf relation) relation.length (List.range relation.length) {} = .ok s) :
    s.left.Perm (List.range relation.length) ∧ (∀ i ∈ s.left, ¬Step relation i i) ∧
      Settled (includersOf relation) s.left := by
  have hbound := mem_range_of_mem_includersOf relation
  have hnodes : ∀ i ∈ List.range relation.length, i ∈ Finset.range relation.length := by simp
  have hdepth := card_unentered_range relation.length
  obtain ⟨added, hadded⟩ := exists_continues hbound hnodes h
  have hleft : s.left = added := by simpa using hadded.left
  have hentered : ∀ i, i ∈ s.entered ↔ i ∈ added := by simpa using hadded.entered
  refine ⟨?_, ?_, ?_⟩
  · rw [hleft, List.perm_ext_iff_of_nodup hadded.nodup List.nodup_range]
    intro i
    constructor
    · intro hi
      simpa using hadded.within i hi
    · intro hi
      exact (hentered i).mp (mem_entered hbound hnodes hdepth h i hi)
  · intro i hi hloop
    exact hadded.loopless i (hleft ▸ hi) (mem_includersOf.mpr hloop)
  · refine settled_walk hbound hnodes hdepth h (by simp) ?_
    intro later a earlier hnil
    simp at hnil

/-- In an order without misplaced positions the included ones come first. -/
theorem earlier_of_misplaced?_eq_none {before rest : List Nat}
    (h : misplaced? relation before rest = none) :
    ∀ earlier i later, rest = earlier ++ i :: later →
      ∀ j, Step relation i j → j = i ∨ j ∈ before ∨ j ∈ earlier := by
  induction rest generalizing before with
  | nil => simp
  | cons first rest ih =>
      rw [misplaced?] at h
      split at h
      · cases h
      · next hfirst =>
          intro earlier i later heq j hj
          cases earlier with
          | nil =>
              obtain ⟨rfl, rfl⟩ := List.cons.inj heq
              have hmem := List.find?_eq_none.mp hfirst j hj
              simp only [List.contains_eq_mem, List.mem_cons, Bool.not_eq_true', decide_eq_false_iff_not,
                not_not] at hmem
              exact hmem.imp_right Or.inl
          | cons e earlier =>
              obtain ⟨rfl, rfl⟩ := List.cons.inj heq
              rcases ih h earlier i later rfl j hj with hj | hj | hj
              · exact Or.inl hj
              · rcases List.mem_cons.mp hj with rfl | hj
                · exact Or.inr (Or.inr (by simp))
                · exact Or.inr (Or.inl hj)
              · exact Or.inr (Or.inr (List.mem_cons_of_mem _ hj))

theorem exists_of_misplaced?_eq_some {before rest : List Nat} {j : Nat}
    (h : misplaced? relation before rest = some j) :
    ∃ earlier i later, rest = earlier ++ i :: later ∧ Step relation i j ∧
      j ≠ i ∧ j ∉ before ∧ j ∉ earlier := by
  induction rest generalizing before with
  | nil => simp [misplaced?] at h
  | cons first rest ih =>
      rw [misplaced?] at h
      split at h
      · next found hfound =>
          cases h
          have hmem := List.mem_of_find?_eq_some hfound
          have hnot := List.find?_some hfound
          simp only [Bool.not_eq_true', List.contains_eq_mem, decide_eq_false_iff_not,
            List.mem_cons, not_or] at hnot
          exact ⟨[], first, rest, rfl, hmem, hnot.1, hnot.2, by simp⟩
      · obtain ⟨earlier, i, later, rfl, hj, hne, hbefore, hearlier⟩ := ih h
        simp only [List.mem_cons, not_or] at hbefore
        refine ⟨first :: earlier, i, later, rfl, hj, hne, hbefore.2, ?_⟩
        simp only [List.mem_cons, not_or]
        exact ⟨hbefore.1, hearlier⟩

/-- An order holds every position once, after all that it includes. -/
theorem order_eq_ok {found : List Nat} (h : order relation = .ok found) :
    found.Perm (List.range relation.length) ∧
      ∀ earlier i later, found = earlier ++ i :: later →
        ∀ j, Step relation i j → j ∈ earlier := by
  simp only [order, bind_eq_ok] at h
  obtain ⟨s, hwalk, h⟩ := h
  split at h
  · cases h
  · next hplaced =>
      cases h
      obtain ⟨hperm, hloop, -⟩ := walk_all hwalk
      refine ⟨hperm, ?_⟩
      intro earlier i later heq j hj
      rcases earlier_of_misplaced?_eq_none hplaced earlier i later heq j hj with hj' | hj' | hj'
      · subst hj'
        exact absurd hj (hloop j (by rw [heq]; simp))
      · simp at hj'
      · exact hj'

/-- Included positions stand before the including ones. -/
theorem idxOf_lt_of_order {found : List Nat} (h : order relation = .ok found) {i j : Nat}
    (hstep : Step relation i j) : found.idxOf j < found.idxOf i := by
  obtain ⟨hperm, hearlier⟩ := order_eq_ok h
  have hi : i ∈ found := hperm.mem_iff.mpr (List.mem_range.mpr hstep.lt)
  obtain ⟨earlier, later, rfl, hnot⟩ := List.eq_append_cons_of_mem hi
  have hj := hearlier earlier i later rfl j hstep
  rw [List.idxOf_append_of_mem hj, List.idxOf_append_of_notMem hnot, List.idxOf_cons_self]
  exact List.idxOf_lt_length_of_mem hj

/-- Where there is an order, there is no cycle. -/
theorem not_transGen_of_order {found : List Nat} (h : order relation = .ok found) (i : Nat) :
    ¬TransGen (Step relation) i i := by
  have hlt : ∀ {i j}, TransGen (Step relation) i j → found.idxOf j < found.idxOf i := by
    intro i j hpath
    induction hpath with
    | single hstep => exact idxOf_lt_of_order h hstep
    | tail _ hstep ih => exact (idxOf_lt_of_order h hstep).trans ih
  exact fun hpath => lt_irrefl _ (hlt hpath)

/-- A position that no order can hold includes itself, directly or not. -/
theorem transGen_of_order_eq_error (hrange : InRange relation) {j : Nat}
    (h : order relation = .error j) : TransGen (Step relation) j j := by
  simp only [order, bind_eq_error] at h
  rcases h with hwalk | ⟨s, hwalk, h⟩
  · exact .single (mem_includersOf.mp (mem_next_of_walk_error hwalk))
  · split at h
    · next hmisplaced =>
        cases h
        obtain ⟨hperm, -, hsettled⟩ := walk_all hwalk
        obtain ⟨earlier, i, later, heq, hstep, hne, -, hearlier⟩ :=
          exists_of_misplaced?_eq_some hmisplaced
        have hnodup : s.left.Nodup := hperm.nodup_iff.mpr List.nodup_range
        have hj : j ∈ later := by
          have hmem : j ∈ s.left := hperm.mem_iff.mpr (List.mem_range.mpr (hrange i j hstep))
          rw [heq] at hmem
          simpa [hearlier, hne] using hmem
        obtain ⟨between, rest, rfl⟩ := List.append_of_mem hj
        have hback := hsettled (earlier ++ i :: between) j rest (by simp [heq]) i
          (mem_includersOf.mpr hstep)
        -- The including position was left later, so it cannot stand behind the included one.
        rcases hback with hmem | hback
        · rw [heq, List.nodup_append] at hnodup
          simp [hmem] at hnodup
        · exact (transGen_includersOf.mp hback).tail hstep
    · cases h

theorem exists_order_iff (hrange : InRange relation) :
    (∃ found, order relation = .ok found) ↔ ∀ i, ¬TransGen (Step relation) i i := by
  constructor
  · rintro ⟨found, h⟩
    exact not_transGen_of_order h
  · intro hacyclic
    cases h : order relation with
    | ok found => exact ⟨found, rfl⟩
    | error i => exact absurd (transGen_of_order_eq_error hrange h) (hacyclic i)

/-- The component of a position: all that it includes and is included by, however indirectly. -/
theorem mem_component_iff {i j : Nat} (hi : i < relation.length) :
    j ∈ component relation i ↔
      ReflTransGen (Step relation) i j ∧ ReflTransGen (Step relation) j i := by
  have hbound : ∀ a ∈ List.range relation.length, ∀ b ∈ includersOf relation a,
      b ∈ List.range relation.length :=
    fun _ _ _ hb => List.mem_range.mpr (Step.lt (mem_includersOf.mp hb))
  have hreach : ∀ {a b}, a < relation.length →
      (b ∈ Reach.nodes (includersOf relation) relation.length a ↔
        ReflTransGen (Step relation) b a) := by
    intro a b ha
    rw [Reach.mem_nodes_iff hbound (by simp) (List.mem_range.mpr ha), reflTransGen_includersOf]
  simp only [component, List.mem_filter, List.mem_range, Bool.and_eq_true, List.contains_iff_mem]
  constructor
  · rintro ⟨hj, h, h'⟩
    exact ⟨(hreach hj).mp h', (hreach hi).mp h⟩
  · rintro ⟨h, h'⟩
    have hj : j < relation.length := by
      cases h'.cases_head with
      | inl heq => exact heq ▸ hi
      | inr hstep =>
          obtain ⟨_, hstep, -⟩ := hstep
          exact hstep.lt
    exact ⟨hj, (hreach hi).mpr h', (hreach hj).mpr h⟩

theorem nodup_component (relation : List (List Nat)) (i : Nat) : (component relation i).Nodup :=
  List.nodup_range.filter _

end Interop.DependencyOrder
