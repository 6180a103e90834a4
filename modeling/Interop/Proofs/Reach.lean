import Interop.Reach
import Mathlib.Data.List.Perm.Subperm
import Mathlib.Logic.Relation

/-! What a breadth-first search finds. On a set of nodes that no neighbour leaves, a search with at
least as many steps as there are nodes ends with an empty queue. It has then reached exactly the nodes
that paths lead to, further steps add nothing, and renaming the nodes renames what is reached. The order
is breadth-first: the neighbours of the nodes, node by node, without repeats; so no node comes before one
that fewer edges lead to. -/

namespace Interop.Reach

open Relation

variable {α : Type} [BEq α] [LawfulBEq α]

theorem mem_fresh {seen neighbours : List α} {a : α} :
    a ∈ fresh seen neighbours ↔ a ∈ neighbours ∧ a ∉ seen := by
  simp [fresh, List.mem_eraseDups]

/-- Dropping repeats and keeping what a test passes may change places. -/
theorem eraseDups_filter (p : α → Bool) : ∀ l : List α, (l.filter p).eraseDups = l.eraseDups.filter p
  | [] => by simp
  | a :: rest => by
    have ih := eraseDups_filter p (rest.filter fun b => !b == a)
    rw [List.filter_filter] at ih
    by_cases ha : p a
    · rw [List.filter_cons_of_pos ha, List.eraseDups_cons, List.eraseDups_cons, List.filter_cons_of_pos ha,
        ← ih, List.filter_filter]
      simp only [Bool.and_comm]
    · rw [List.filter_cons_of_neg ha, List.eraseDups_cons, List.filter_cons_of_neg ha, ← ih]
      congr 1
      refine List.filter_congr fun b _ => ?_
      by_cases hb : b = a
      · simp [hb, ha]
      · simp [hb]
termination_by l => l.length
decreasing_by exact Nat.lt_succ_of_le (List.length_filter_le ..)

/-- Repeats are never found first. -/
theorem findSome?_eraseDups {β : Type} (f : α → Option β) :
    ∀ l : List α, l.eraseDups.findSome? f = l.findSome? f
  | [] => by simp
  | a :: rest => by
    rw [List.eraseDups_cons, List.findSome?_cons, List.findSome?_cons, findSome?_eraseDups f]
    cases ha : f a with
    | some b => rfl
    | none =>
        induction rest with
        | nil => rfl
        | cons b rest ih =>
            by_cases hb : b = a
            · subst hb
              rw [List.filter_cons_of_neg (by simp), List.findSome?_cons, ha]
              exact ih
            · rw [List.filter_cons_of_pos (by simpa using hb), List.findSome?_cons, List.findSome?_cons]
              cases f b with
              | some _ => rfl
              | none => exact ih
termination_by l => l.length
decreasing_by exact Nat.lt_succ_of_le (List.length_filter_le ..)

/-- Neighbours behind some nodes add those that are fresh. -/
theorem eraseDups_append_eq (seen neighbours : List α) :
    (seen ++ neighbours).eraseDups = seen.eraseDups ++ fresh seen.eraseDups neighbours := by
  rw [List.eraseDups_append, List.removeAll, eraseDups_filter, fresh]
  congr 1
  refine List.filter_congr fun a _ => ?_
  rw [List.elem_eq_contains, Bool.not_inj_iff, Bool.eq_iff_iff]
  simp [List.mem_eraseDups]

/-- A search in progress: the nodes left, and those still in the queue, all within bounds. They are the start
and the neighbours of the nodes left, node by node, without repeats. -/
structure Exploring (next : α → List α) (bound : List α) (start : α) (left queue : List α) : Prop where
  order : left ++ queue = (start :: left.flatMap next).eraseDups
  within : ∀ a ∈ left ++ queue, a ∈ bound

namespace Exploring

variable {next : α → List α} {bound left queue : List α} {start node : α}

omit [LawfulBEq α] in
theorem init (hstart : start ∈ bound) : Exploring next bound start [] [start] where
  order := by simp [List.eraseDups_cons]
  within := by simpa using hstart

theorem nodup (h : Exploring next bound start left queue) : (left ++ queue).Nodup := by
  rw [h.order]
  exact nodup_eraseDups _

theorem closed (h : Exploring next bound start left queue) : ∀ a ∈ left, ∀ b ∈ next a, b ∈ left ++ queue := by
  intro a ha b hb
  rw [h.order, List.mem_eraseDups]
  exact List.mem_cons_of_mem _ (List.mem_flatMap.mpr ⟨a, ha, hb⟩)

theorem length_le (h : Exploring next bound start left queue) :
    (left ++ queue).length ≤ bound.length :=
  (List.subperm_of_subset h.nodup h.within).length_le

omit [LawfulBEq α] in
theorem leave_eq (neighbours : List α) :
    left ++ [node] ++ (queue ++ fresh (left ++ node :: queue) neighbours) =
      left ++ node :: queue ++ fresh (left ++ node :: queue) neighbours := by
  simp only [List.append_assoc, List.cons_append, List.nil_append]

/-- Leaving the first node of the queue. -/
theorem step (hbound : ∀ a ∈ bound, ∀ b ∈ next a, b ∈ bound)
    (h : Exploring next bound start left (node :: queue)) :
    Exploring next bound start (left ++ [node])
      (queue ++ fresh (left ++ node :: queue) (next node)) := by
  refine ⟨?_, ?_⟩
  · rw [leave_eq, List.flatMap_append, List.flatMap_singleton, ← List.cons_append, eraseDups_append_eq,
      ← h.order]
  · rw [leave_eq]
    intro a ha
    rcases List.mem_append.mp ha with ha | ha
    · exact h.within a ha
    · exact hbound node (h.within node (by simp)) a (mem_fresh.mp ha).1

/-- With steps enough for all nodes, the queue runs empty, and more steps change nothing. -/
theorem explore (hbound : ∀ a ∈ bound, ∀ b ∈ next a, b ∈ bound) {steps : Nat}
    (h : Exploring next bound start left queue) (hsteps : bound.length ≤ left.length + steps) :
    ∃ found, (∀ more, Reach.explore next (steps + more) (left ++ queue) queue = found) ∧
      Exploring next bound start found [] := by
  induction steps generalizing left queue with
  | zero =>
      have hlength := h.length_le
      have hqueue : queue = [] := by
        rw [List.length_append] at hlength
        exact List.eq_nil_of_length_eq_zero (by omega)
      subst hqueue
      refine ⟨left, ?_, h⟩
      intro more
      cases more <;> simp only [Reach.explore, List.append_nil]
  | succ steps ih =>
      cases queue with
      | nil =>
          refine ⟨left, ?_, h⟩
          intro more
          rw [Nat.add_right_comm, Reach.explore, List.append_nil]
      | cons node queue =>
          obtain ⟨found, hfound, hend⟩ :=
            ih (h.step hbound) (by rw [List.length_append, List.length_singleton]; omega)
          refine ⟨found, ?_, hend⟩
          intro more
          rw [← hfound more, Nat.add_right_comm, Reach.explore, leave_eq]

end Exploring

/-- Whatever is found is behind something that was seen before. -/
theorem exists_path_of_mem_explore {next : α → List α} (steps : Nat) {seen queue : List α}
    (hqueue : ∀ a ∈ queue, a ∈ seen) {a : α} (ha : a ∈ explore next steps seen queue) :
    ∃ start ∈ seen, ReflTransGen (fun a b => b ∈ next a) start a := by
  induction steps generalizing seen queue with
  | zero => exact ⟨a, ha, .refl⟩
  | succ steps ih =>
      cases queue with
      | nil => exact ⟨a, ha, .refl⟩
      | cons node queue =>
          have hsub : ∀ b ∈ queue ++ fresh seen (next node), b ∈ seen ++ fresh seen (next node) := by
            intro b hb
            rcases List.mem_append.mp hb with hb | hb
            · exact List.mem_append_left _ (hqueue b (List.mem_cons_of_mem _ hb))
            · exact List.mem_append_right _ hb
          obtain ⟨start, hstart, hpath⟩ := ih hsub ha
          rcases List.mem_append.mp hstart with hstart | hstart
          · exact ⟨start, hstart, hpath⟩
          · exact ⟨node, hqueue node (by simp), .head (mem_fresh.mp hstart).1 hpath⟩

omit [LawfulBEq α] in
/-- The start comes first. -/
theorem exists_nodes_eq_cons (next : α → List α) (size : Nat) (start : α) :
    ∃ rest, nodes next size start = start :: rest := by
  have hprefix : ∀ (steps : Nat) (seen queue : List α), seen <+: explore next steps seen queue := by
    intro steps
    induction steps with
    | zero => exact fun seen _ => List.prefix_refl seen
    | succ steps ih =>
        intro seen queue
        cases queue with
        | nil => exact List.prefix_refl seen
        | cons node queue => exact (List.prefix_append seen _).trans (ih _ _)
  obtain ⟨rest, hrest⟩ := hprefix size [start] [start]
  exact ⟨rest, hrest.symm⟩

omit [LawfulBEq α] in
/-- From a start without neighbours nothing else is reached. -/
theorem nodes_of_next_eq_nil {next : α → List α} {start : α} (h : next start = []) (size : Nat) :
    nodes next size start = [start] := by
  rcases size with _ | _ | size
  · rfl
  · simp [nodes, explore, h, fresh]
  · simp [nodes, explore, h, fresh]

/-! ### The order -/

/-- A start, and all that paths lead to from it, in breadth-first order: the neighbours of the nodes follow in
the order of the nodes, and each stands where it is met first. -/
structure BreadthFirst (next : α → List α) (start : α) (order : List α) : Prop where
  mem_iff : ∀ a, a ∈ order ↔ ReflTransGen (fun a b => b ∈ next a) start a
  eq_eraseDups : order = (start :: order.flatMap next).eraseDups

/-- Some number of edges lead from a start to a node. -/
inductive Away (next : α → List α) (start : α) : Nat → α → Prop
  | start : Away next start 0 start
  | step {n : Nat} {a b : α} (h : Away next start n a) (hb : b ∈ next a) : Away next start (n + 1) b

omit [BEq α] [LawfulBEq α] in
theorem Away.path {next : α → List α} {start a : α} {n : Nat} (h : Away next start n a) :
    ReflTransGen (fun a b => b ∈ next a) start a := by
  induction h with
  | start => exact .refl
  | step _ hb ih => exact ih.tail hb

omit [BEq α] [LawfulBEq α] in
/-- What comes before a member of a beginning is in the beginning. -/
theorem mem_of_append_eq {before after beginning rest : List α} {b : α}
    (heq : before ++ b :: after = beginning ++ rest) (hnodup : (beginning ++ rest).Nodup) (hb : b ∈ beginning)
    {a : α} (ha : a ∈ before) : a ∈ beginning := by
  rcases List.append_eq_append_iff.mp heq with ⟨more, rfl, -⟩ | ⟨more, rfl, -⟩
  · exact List.mem_append_left _ ha
  · rw [← heq, List.append_assoc] at hnodup
    have hdisjoint := (List.nodup_append.mp hnodup).2.2 b hb b (by simp)
    exact absurd rfl hdisjoint

namespace BreadthFirst

variable {next : α → List α} {start : α} {order : List α} (h : BreadthFirst next start order)

include h

theorem nodup : order.Nodup := by
  rw [h.eq_eraseDups]
  exact nodup_eraseDups _

/-- No node comes before one that fewer edges lead to. -/
theorem exists_away_le {n : Nat} {b : α} (hb : Away next start n b) {before after : List α}
    (horder : order = before ++ b :: after) : ∀ a ∈ before, ∃ m ≤ n, Away next start m a := by
  have hnodup := h.nodup
  have heq := h.eq_eraseDups
  induction hb generalizing before after with
  | start =>
      intro a ha
      rw [List.eraseDups_cons] at heq
      rw [horder] at heq hnodup
      cases before with
      | nil => cases ha
      | cons first before =>
          obtain ⟨rfl, -⟩ := List.cons.inj heq
          simp at hnodup
  | @step n c b hc hb ih =>
      intro a ha
      obtain ⟨left, right, hsplit⟩ := List.append_of_mem ((h.mem_iff c).mpr hc.path)
      -- The neighbours of the nodes up to `c` are a beginning of the order.
      have hbeginning : order = (start :: (left ++ [c]).flatMap next).eraseDups ++
          fresh (start :: (left ++ [c]).flatMap next).eraseDups (right.flatMap next) := by
        rw [← eraseDups_append_eq, List.cons_append, ← List.flatMap_append, List.append_assoc,
          List.singleton_append, ← hsplit]
        exact heq
      rw [horder] at hbeginning
      have hmem : a ∈ (start :: (left ++ [c]).flatMap next).eraseDups := by
        refine mem_of_append_eq hbeginning ?_ ?_ ha
        · rw [← hbeginning, ← horder]
          exact hnodup
        · rw [List.mem_eraseDups]
          exact List.mem_cons_of_mem _ (List.mem_flatMap.mpr ⟨c, by simp, hb⟩)
      rw [List.mem_eraseDups] at hmem
      rcases List.mem_cons.mp hmem with rfl | hmem
      · exact ⟨0, Nat.zero_le _, .start⟩
      · obtain ⟨p, hp, ha⟩ := List.mem_flatMap.mp hmem
        rcases List.mem_append.mp hp with hp | hp
        · obtain ⟨m, hm, hp⟩ := ih hsplit p hp
          exact ⟨m + 1, Nat.succ_le_succ hm, hp.step ha⟩
        · rw [List.mem_singleton] at hp
          exact ⟨n + 1, Nat.le_refl _, hc.step (hp ▸ ha)⟩

/-- What is found first in the order is found at the start, or first among the neighbours. -/
theorem findSome?_eq {β : Type} (f : α → Option β) :
    order.findSome? f = (f start).or ((order.flatMap next).findSome? f) := by
  conv_lhs => rw [h.eq_eraseDups]
  rw [findSome?_eraseDups, List.findSome?_cons]
  cases f start <;> rfl

end BreadthFirst

section Nodes

variable {next : α → List α} {bound : List α} {size : Nat} {start : α}
  (hbound : ∀ a ∈ bound, ∀ b ∈ next a, b ∈ bound) (hsize : bound.length ≤ size)
  (hstart : start ∈ bound)

include hbound hsize hstart

/-- The nodes reached are those that paths lead to. -/
theorem mem_nodes_iff {a : α} :
    a ∈ nodes next size start ↔ ReflTransGen (fun a b => b ∈ next a) start a := by
  constructor
  · intro ha
    obtain ⟨first, hfirst, hpath⟩ := exists_path_of_mem_explore size (by simp) ha
    rw [List.mem_singleton] at hfirst
    rwa [← hfirst]
  · obtain ⟨found, hfound, hend⟩ := (Exploring.init hstart).explore hbound (by simpa using hsize)
    have hnodes : nodes next size start = found := hfound 0
    intro hpath
    induction hpath with
    | refl => exact start_mem next size start
    | tail _ hedge ih =>
        rw [hnodes] at ih ⊢
        simpa using hend.closed _ ih _ hedge

/-- More steps than there are nodes find nothing more. -/
theorem nodes_add (more : Nat) : nodes next (size + more) start = nodes next size start := by
  obtain ⟨found, hfound, -⟩ := (Exploring.init hstart).explore hbound (by simpa using hsize)
  exact (hfound more).trans (hfound 0).symm

/-- The nodes come in breadth-first order. -/
theorem breadthFirst_nodes : BreadthFirst next start (nodes next size start) := by
  refine ⟨fun a => mem_nodes_iff hbound hsize hstart, ?_⟩
  obtain ⟨found, hfound, hend⟩ := (Exploring.init hstart).explore hbound (by simpa using hsize)
  have hnodes : nodes next size start = found := hfound 0
  rw [hnodes, ← hend.order, List.append_nil]

end Nodes

section Renaming

variable {β : Type} [BEq β] [LawfulBEq β] {ρ : α → β} {bound : List α}
  (hρ : ∀ a ∈ bound, ∀ b ∈ bound, ρ a = ρ b → a = b)

include hρ

omit [BEq α] [LawfulBEq α] [BEq β] [LawfulBEq β] in
theorem mem_map_iff {l : List α} (hl : ∀ a ∈ l, a ∈ bound) {a : α} (ha : a ∈ bound) : ρ a ∈ l.map ρ ↔ a ∈ l := by
  rw [List.mem_map]
  constructor
  · rintro ⟨b, hb, heq⟩
    rwa [← hρ b (hl b hb) a ha heq]
  · intro hmem
    exact ⟨a, hmem, rfl⟩

theorem eraseDups_map : ∀ l : List α, (∀ a ∈ l, a ∈ bound) → (l.map ρ).eraseDups = l.eraseDups.map ρ
  | [], _ => rfl
  | a :: rest, hl => by
    rw [List.map_cons, List.eraseDups_cons, List.eraseDups_cons, List.map_cons, List.filter_map,
      eraseDups_map _ fun b hb => hl b (List.mem_cons_of_mem _ (List.mem_of_mem_filter hb))]
    have hfilter : rest.filter ((fun b => !b == ρ a) ∘ ρ) = rest.filter fun b => !b == a := by
      refine List.filter_congr fun b hb => ?_
      have hb' := hl b (List.mem_cons_of_mem _ hb)
      by_cases heq : b = a
      · simp [heq]
      · have hne : ρ b ≠ ρ a := fun h => heq (hρ b hb' a (hl a (by simp)) h)
        simp [heq, hne]
    rw [hfilter]
termination_by l => l.length
decreasing_by exact Nat.lt_succ_of_le (List.length_filter_le ..)

theorem fresh_map {seen neighbours : List α} (hseen : ∀ a ∈ seen, a ∈ bound)
    (hneighbours : ∀ a ∈ neighbours, a ∈ bound) :
    fresh (seen.map ρ) (neighbours.map ρ) = (fresh seen neighbours).map ρ := by
  rw [fresh, eraseDups_map hρ neighbours hneighbours, List.filter_map, fresh]
  congr 1
  refine List.filter_congr fun a ha => ?_
  have hmem := mem_map_iff hρ hseen (hneighbours a (List.mem_eraseDups.mp ha))
  simp only [Function.comp_apply, List.contains_eq_mem, hmem]

variable {next : α → List α} {next' : β → List β}
  (hclosed : ∀ a ∈ bound, ∀ b ∈ next a, b ∈ bound) (hnext : ∀ a ∈ bound, next' (ρ a) = (next a).map ρ)

include hclosed hnext

/-- Renamed neighbours are found as renamed nodes. -/
theorem explore_map (steps : Nat) {seen queue : List α} (hseen : ∀ a ∈ seen, a ∈ bound)
    (hqueue : ∀ a ∈ queue, a ∈ bound) :
    explore next' steps (seen.map ρ) (queue.map ρ) = (explore next steps seen queue).map ρ := by
  induction steps generalizing seen queue with
  | zero => rfl
  | succ steps ih =>
      cases queue with
      | nil => rfl
      | cons node queue =>
          have hnode := hqueue node (by simp)
          have hfresh := fresh_map hρ hseen (hclosed node hnode)
          have hin : ∀ a ∈ fresh seen (next node), a ∈ bound := fun a ha =>
            hclosed node hnode a (mem_fresh.mp ha).1
          rw [List.map_cons, explore, explore, hnext node hnode, hfresh, ← List.map_append,
            ← List.map_append]
          apply ih
          · intro a ha
            exact (List.mem_append.mp ha).elim (hseen a) (hin a)
          · intro a ha
            exact (List.mem_append.mp ha).elim (fun h => hqueue a (List.mem_cons_of_mem _ h)) (hin a)

/-- Searches that have steps enough for the nodes on either side find the same. -/
theorem nodes_map {size size' : Nat} (hsize : bound.length ≤ size)
    (hsize' : bound.length ≤ size') {start : α} (hstart : start ∈ bound) :
    nodes next' size' (ρ start) = (nodes next size start).map ρ := by
  have hclosed' : ∀ a ∈ bound.map ρ, ∀ b ∈ next' a, b ∈ bound.map ρ := by
    rintro a ha b hb
    obtain ⟨a, ha', rfl⟩ := List.mem_map.mp ha
    rw [hnext a ha'] at hb
    obtain ⟨b, hb', rfl⟩ := List.mem_map.mp hb
    exact List.mem_map_of_mem (hclosed a ha' b hb')
  have hlength : (bound.map ρ).length ≤ size' := by rwa [List.length_map]
  have hmem : ∀ a ∈ [start], a ∈ bound := by simpa using hstart
  calc nodes next' size' (ρ start)
      = nodes next' (size' + size) (ρ start) :=
        (nodes_add hclosed' hlength (List.mem_map_of_mem hstart) size).symm
    _ = (nodes next (size' + size) start).map ρ :=
        explore_map hρ hclosed hnext (size' + size) hmem hmem
    _ = (nodes next size start).map ρ := by
        rw [Nat.add_comm, nodes_add hclosed hsize hstart]

end Renaming

end Interop.Reach
