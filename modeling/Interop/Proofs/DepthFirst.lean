import Interop.DependencyOrder
import Mathlib.Data.Finset.Card
import Mathlib.Data.Finset.SDiff
import Mathlib.Logic.Relation

/-! The order in which a depth-first search leaves its nodes. A node that is left after one of its
neighbours comes from a node without way back; a node that is left before its neighbour is reached
from it, so the two lie on a cycle. -/

namespace Interop.DependencyOrder

open Relation

variable {next : Nat → List Nat} {bound : Finset Nat}

/-- A search that has gone on from one state to another: it has entered and left some nodes, all of
them for the first time and within bounds, and none of them its own neighbour. -/
structure Continues (next : Nat → List Nat) (bound : Finset Nat) (added : List Nat)
    (s t : Walk) : Prop where
  left : t.left = added ++ s.left
  entered : ∀ a, a ∈ t.entered ↔ a ∈ s.entered ∨ a ∈ added
  nodup : added.Nodup
  fresh : ∀ a ∈ added, a ∉ s.entered
  within : ∀ a ∈ added, a ∈ bound
  loopless : ∀ a ∈ added, a ∉ next a

namespace Continues

variable {s t u : Walk} {added more : List Nat} {node : Nat}

theorem refl (next : Nat → List Nat) (bound : Finset Nat) (s : Walk) :
    Continues next bound [] s s where
  left := rfl
  entered := by simp
  nodup := List.nodup_nil
  fresh := by simp
  within := by simp
  loopless := by simp

theorem trans (h : Continues next bound added s t) (h' : Continues next bound more t u) :
    Continues next bound (more ++ added) s u where
  left := by rw [h'.left, h.left, List.append_assoc]
  entered a := by rw [h'.entered, h.entered, List.mem_append, or_assoc, or_comm (a := a ∈ added)]
  nodup := by
    refine List.nodup_append.mpr ⟨h'.nodup, h.nodup, ?_⟩
    rintro a ha b hb rfl
    exact h'.fresh a ha ((h.entered a).mpr (Or.inr hb))
  fresh a ha := by
    rcases List.mem_append.mp ha with ha | ha
    · exact fun hs => h'.fresh a ha ((h.entered a).mpr (Or.inl hs))
    · exact h.fresh a ha
  within a ha := (List.mem_append.mp ha).elim (h'.within a) (h.within a)
  loopless a ha := (List.mem_append.mp ha).elim (h'.loopless a) (h.loopless a)

/-- Entering a node, going on behind it, and leaving it. -/
theorem visit (hbound : node ∈ bound) (hfresh : node ∉ s.entered) (hloop : node ∉ next node)
    (h : Continues next bound added { s with entered := node :: s.entered } t) :
    Continues next bound (node :: added) s { t with left := node :: t.left } where
  left := by rw [h.left]; rfl
  entered a := by
    rw [h.entered]
    simp only [List.mem_cons]
    tauto
  nodup := List.nodup_cons.mpr ⟨fun hmem => h.fresh node hmem (by simp), h.nodup⟩
  fresh a ha := by
    rcases List.mem_cons.mp ha with rfl | ha
    · exact hfresh
    · exact fun hs => h.fresh a ha (List.mem_cons_of_mem _ hs)
  within a ha := by
    rcases List.mem_cons.mp ha with rfl | ha
    · exact hbound
    · exact h.within a ha
  loopless a ha := by
    rcases List.mem_cons.mp ha with rfl | ha
    · exact hloop
    · exact h.loopless a ha

/-- The nodes that are entered and not left stay the same. -/
theorem isOpen_iff (h : Continues next bound added s t) (a : Nat) :
    (a ∈ t.entered ∧ a ∉ t.left) ↔ (a ∈ s.entered ∧ a ∉ s.left) := by
  rw [h.entered, h.left, List.mem_append]
  have := h.fresh a
  tauto

end Continues

/-- The nodes within bounds that are still to be entered. -/
def unentered (bound : Finset Nat) (s : Walk) : Finset Nat := bound \ s.entered.toFinset

theorem card_unentered_enter {s : Walk} {node : Nat} (hbound : node ∈ bound)
    (hfresh : node ∉ s.entered) :
    (unentered bound { s with entered := node :: s.entered }).card < (unentered bound s).card := by
  rw [unentered, List.toFinset_cons, Finset.sdiff_insert]
  apply Finset.card_erase_lt_of_mem
  simp [hbound, hfresh]

theorem card_unentered_le {s t : Walk} {added : List Nat} (h : Continues next bound added s t) :
    (unentered bound t).card ≤ (unentered bound s).card := by
  apply Finset.card_le_card
  apply Finset.sdiff_subset_sdiff le_rfl
  intro a ha
  simp only [List.mem_toFinset] at ha ⊢
  exact (h.entered a).mpr (Or.inl ha)

theorem card_unentered_range (n : Nat) : (unentered (Finset.range n) {}).card ≤ n := by
  simp [unentered]

/-- Where no step is left, every node has been entered. -/
theorem mem_entered_of_card {s : Walk} {node : Nat} (hnode : node ∈ bound)
    (hdepth : (unentered bound s).card ≤ 0) : node ∈ s.entered := by
  by_contra hfresh
  have hmem : node ∈ unentered bound s := by simp [unentered, hnode, hfresh]
  have := Finset.card_pos.mpr ⟨node, hmem⟩
  omega

/-- What a search goes on to. -/
theorem exists_continues (hbound : ∀ a ∈ bound, ∀ b ∈ next a, b ∈ bound) {depth : Nat}
    {nodes : List Nat} {s t : Walk} (hnodes : ∀ a ∈ nodes, a ∈ bound)
    (h : walk next depth nodes s = .ok t) : ∃ added, Continues next bound added s t := by
  fun_induction walk next depth nodes s generalizing t with
  | case1 =>
      cases h
      exact ⟨[], .refl ..⟩
  | case2 s node rest =>
      cases h
      exact ⟨[], .refl ..⟩
  | case3 s depth node rest hentered ih =>
      exact ih (fun a ha => hnodes a (List.mem_cons_of_mem _ ha)) h
  | case4 => cases h
  | case5 => cases h
  | case6 s depth node rest hentered hloop inner hinner ihinner ih =>
      obtain ⟨behind, hbehind⟩ := ihinner (hbound node (hnodes node (by simp))) hinner
      obtain ⟨after, hafter⟩ := ih (fun a ha => hnodes a (List.mem_cons_of_mem _ ha)) h
      have hvisit := hbehind.visit (hnodes node (by simp)) (by simpa using hentered) (by simpa using hloop)
      exact ⟨after ++ node :: behind, hvisit.trans hafter⟩

/-- A search deep enough enters all nodes. -/
theorem mem_entered (hbound : ∀ a ∈ bound, ∀ b ∈ next a, b ∈ bound) {depth : Nat}
    {nodes : List Nat} {s t : Walk} (hnodes : ∀ a ∈ nodes, a ∈ bound)
    (hdepth : (unentered bound s).card ≤ depth) (h : walk next depth nodes s = .ok t) :
    ∀ a ∈ nodes, a ∈ t.entered := by
  fun_induction walk next depth nodes s generalizing t with
  | case1 => simp
  | case2 s node rest =>
      cases h
      exact fun a ha => mem_entered_of_card (hnodes a ha) hdepth
  | case3 s depth node rest hentered ih =>
      have hrest : ∀ a ∈ rest, a ∈ bound := fun a ha => hnodes a (List.mem_cons_of_mem _ ha)
      obtain ⟨added, hadded⟩ := exists_continues hbound hrest h
      intro a ha
      rcases List.mem_cons.mp ha with rfl | ha
      · exact (hadded.entered a).mpr (Or.inl (by simpa using hentered))
      · exact ih hrest hdepth h a ha
  | case4 => cases h
  | case5 => cases h
  | case6 s depth node rest hentered hloop inner hinner ihinner ih =>
      have hnode := hnodes node (by simp)
      have hrest : ∀ a ∈ rest, a ∈ bound := fun a ha => hnodes a (List.mem_cons_of_mem _ ha)
      obtain ⟨behind, hbehind⟩ := exists_continues hbound (hbound node hnode) hinner
      have hvisit := hbehind.visit hnode (by simpa using hentered) (by simpa using hloop)
      obtain ⟨after, hafter⟩ := exists_continues hbound hrest h
      intro a ha
      rcases List.mem_cons.mp ha with rfl | ha
      · exact (hafter.entered a).mpr (Or.inl ((hvisit.entered a).mpr (by simp)))
      · exact ih hrest ((card_unentered_le hvisit).trans hdepth) h a ha

/-- How the nodes left lie: every neighbour of a node has been left before it, or leads back to
it. -/
def Settled (next : Nat → List Nat) (left : List Nat) : Prop :=
  ∀ later a earlier, left = later ++ a :: earlier →
    ∀ b ∈ next a, b ∈ earlier ∨ TransGen (fun a b => b ∈ next a) b a

theorem Settled.cons {left : List Nat} {node : Nat} (h : Settled next left)
    (hnode : ∀ b ∈ next node, b ∈ left ∨ TransGen (fun a b => b ∈ next a) b node) :
    Settled next (node :: left) := by
  intro later a earlier hleft
  cases later with
  | nil =>
      obtain ⟨rfl, rfl⟩ := List.cons.inj hleft
      exact hnode
  | cons first later =>
      rw [List.cons_append] at hleft
      exact h later a earlier (List.cons.inj hleft).2

/-- If every node entered and not left leads to the nodes searched next, what is left in the end is
settled. -/
theorem settled_walk (hbound : ∀ a ∈ bound, ∀ b ∈ next a, b ∈ bound) {depth : Nat}
    {nodes : List Nat} {s t : Walk} (hnodes : ∀ a ∈ nodes, a ∈ bound)
    (hdepth : (unentered bound s).card ≤ depth) (h : walk next depth nodes s = .ok t)
    (hopen : ∀ a, a ∈ s.entered ∧ a ∉ s.left →
      ∀ b ∈ nodes, TransGen (fun a b => b ∈ next a) a b)
    (hsettled : Settled next s.left) : Settled next t.left := by
  fun_induction walk next depth nodes s generalizing t with
  | case1 =>
      cases h
      exact hsettled
  | case2 =>
      cases h
      exact hsettled
  | case3 s depth node rest hentered ih =>
      exact ih (fun a ha => hnodes a (List.mem_cons_of_mem _ ha)) hdepth h
        (fun a ha b hb => hopen a ha b (List.mem_cons_of_mem _ hb)) hsettled
  | case4 => cases h
  | case5 => cases h
  | case6 s depth node rest hentered hloop inner hinner ihinner ih =>
      have hnode := hnodes node (by simp)
      have hfresh : node ∉ s.entered := by simpa using hentered
      have hloop : node ∉ next node := by simpa using hloop
      have hdepth' := (card_unentered_enter hnode hfresh).trans_le hdepth
      obtain ⟨behind, hbehind⟩ := exists_continues hbound (hbound node hnode) hinner
      have hvisit := hbehind.visit hnode hfresh hloop
      -- Behind the node, only the node itself is open besides what was open before.
      have hinnerOpen : ∀ a, a ∈ node :: s.entered ∧ a ∉ s.left →
          ∀ b ∈ next node, TransGen (fun a b => b ∈ next a) a b := by
        rintro a ⟨ha, hleft⟩ b hb
        rcases List.mem_cons.mp ha with rfl | ha
        · exact .single hb
        · exact (hopen a ⟨ha, hleft⟩ node (by simp)).tail hb
      have hinnerSettled := ihinner (hbound node hnode) (by omega) hinner hinnerOpen hsettled
      have hall := mem_entered hbound (hbound node hnode) (by omega) hinner
      apply ih (fun a ha => hnodes a (List.mem_cons_of_mem _ ha))
        ((card_unentered_le hvisit).trans hdepth) h
      · intro a ha b hb
        exact hopen a ((hvisit.isOpen_iff a).mp ha) b (List.mem_cons_of_mem _ hb)
      · apply hinnerSettled.cons
        intro b hb
        by_cases hleft : b ∈ inner.left
        · exact Or.inl hleft
        · obtain ⟨hentered', hleft'⟩ := (hbehind.isOpen_iff b).mp ⟨hall b hb, hleft⟩
          rcases List.mem_cons.mp hentered' with rfl | hentered'
          · exact absurd hb hloop
          · exact Or.inr (hopen b ⟨hentered', hleft'⟩ node (by simp))

/-- A search fails only at a node that is its own neighbour. -/
theorem mem_next_of_walk_error {depth : Nat} {nodes : List Nat} {s : Walk} {node : Nat}
    (h : walk next depth nodes s = .error node) : node ∈ next node := by
  fun_induction walk next depth nodes s with
  | case1 => cases h
  | case2 => cases h
  | case3 s depth first rest hentered ih => exact ih h
  | case4 s depth first rest hentered hloop =>
      cases h
      simpa using hloop
  | case5 s depth first rest hentered hloop failed hinner ihinner =>
      cases h
      exact ihinner hinner
  | case6 s depth first rest hentered hloop inner hinner ihinner ih => exact ih h

end Interop.DependencyOrder
