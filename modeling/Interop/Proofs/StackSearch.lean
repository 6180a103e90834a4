import Interop.Proofs.BuildOrder
import Mathlib.Data.List.Sort

/-! The order of positions by two searches with a stack. The first one pushes the unvisited includers
of a node, those of the edges added last first, and appends a node when it comes to the top again; the
second one goes from every node of the reversed order back along the edges and must not find a second
node. Main statement: `order_eq`, the two searches find what `DependencyOrder.order` finds. -/

namespace Interop

open Relation DependencyOrder

namespace StackSearch

/-- Adds an edge in front of the others, unless there is one already. -/
def addEdge (edges : List (Nat × Nat)) (edge : Nat × Nat) : List (Nat × Nat) :=
  if edges.contains edge then edges else edge :: edges

/-- The included and the including positions of a relation, in the order in which they are
declared. -/
def pairs (relation : List (List Nat)) : List (Nat × Nat) :=
  (List.range relation.length).flatMap fun i => (includedBy relation i).map (·, i)

/-- The edges of a relation, each once, the last one added first. -/
def edges (relation : List (List Nat)) : List (Nat × Nat) := (pairs relation).foldl addEdge []

/-- The nodes that edges from a node lead to. -/
def successors (edges : List (Nat × Nat)) (node : Nat) : List Nat :=
  (edges.filter (·.1 == node)).map (·.2)

/-- The nodes that edges to a node come from. -/
def predecessors (edges : List (Nat × Nat)) (node : Nat) : List Nat :=
  (edges.filter (·.2 == node)).map (·.1)

/-- Pushes those of some neighbours that have not been entered. A node among its own neighbours is a
cycle. -/
def push (entered : List Nat) (node : Nat) : List Nat → List Nat → Except Nat (List Nat)
  | [], stack => .ok stack
  | next :: rest, stack =>
    if next = node then .error node
    else push entered node rest (if entered.contains next then stack else next :: stack)

end StackSearch

open StackSearch in
/-- Searches until the stack is empty. A node is entered when it first is on top, and left when it is
on top again. -/
def DependencyOrder.Walk.search (next : Nat → List Nat) (stack : List Nat) (s : Walk) :
    Option (Except Nat Walk) :=
  match stack with
  | [] => some (.ok s)
  | node :: rest =>
    if s.entered.contains node then
      (if s.left.contains node then s else { s with left := node :: s.left }) |>.search next rest
    else
      match push (node :: s.entered) node (next node) (node :: rest) with
      | .error loop => some (.error loop)
      | .ok stack => { s with entered := node :: s.entered } |>.search next stack
partial_fixpoint

namespace StackSearch

/-- Searches from every node that has not been entered before. -/
def searchAll (next : Nat → List Nat) : List Nat → Walk → Option (Except Nat Walk)
  | [], s => some (.ok s)
  | node :: rest, s =>
    if s.entered.contains node then searchAll next rest s
    else
      match s.search next [node] with
      | none => none
      | some (.error loop) => some (.error loop)
      | some (.ok s) => searchAll next rest s

/-- The first node of a stack that has not been entered, and the stack with its neighbours. -/
def nextNode? (next : Nat → List Nat) (entered : List Nat) : List Nat → Option (Nat × List Nat)
  | [] => none
  | node :: rest =>
    if entered.contains node then nextNode? next entered rest
    else
      some (node, ((next node).filter fun a => !(node :: entered).contains a).reverse ++ rest)

/-- Searches from every node of an order. A search that finds a second node has found a cycle. -/
def check (next : Nat → List Nat) (entered : List Nat) : List Nat → Except Nat Unit
  | [] => .ok ()
  | node :: rest =>
    match nextNode? next entered [node] with
    | none => check next entered rest
    | some (first, stack) =>
      match nextNode? next (first :: entered) stack with
      | none => check next (first :: entered) rest
      | some (second, _) => .error second

/-- An order of the positions, or a position on a cycle; nothing if a search does not end. -/
def order (relation : List (List Nat)) : Option (Except Nat (List Nat)) :=
  match searchAll (successors (edges relation)) (List.range relation.length) {} with
  | none => none
  | some (.error loop) => some (.error loop)
  | some (.ok s) =>
    some ((check (predecessors (edges relation)) [] s.left).map fun _ => s.left)

/-! ### Edges

The edges are the declared pairs without repeats, in reverse. -/

section EraseDups

variable {α : Type} [BEq α]

theorem eraseDups_sublist : ∀ l : List α, l.eraseDups.Sublist l
  | [] => by simp
  | a :: rest => by
    rw [List.eraseDups_cons]
    exact ((eraseDups_sublist _).trans List.filter_sublist).cons_cons a
termination_by l => l.length
decreasing_by exact Nat.lt_succ_of_le (List.length_filter_le ..)

theorem find?_eraseDups [LawfulBEq α] (p : α → Bool) : ∀ l : List α, l.eraseDups.find? p = l.find? p
  | [] => by simp
  | a :: rest => by
    rw [List.eraseDups_cons, List.find?_cons, List.find?_cons, find?_eraseDups p, List.find?_filter]
    cases ha : p a with
    | true => rfl
    | false =>
        -- What is erased are copies of an item that is not looked for.
        have hp : (fun b => decide ((!b == a) = true ∧ p b = true)) = p := by
          funext b
          by_cases hb : b = a
          · simp [hb, ha]
          · simp [hb]
        rw [hp]
termination_by l => l.length
decreasing_by exact Nat.lt_succ_of_le (List.length_filter_le ..)

end EraseDups

theorem foldl_addEdge (pairs found : List (Nat × Nat)) :
    pairs.foldl addEdge found =
      (pairs.filter fun e => !found.contains e).eraseDups.reverse ++ found := by
  induction pairs generalizing found with
  | nil => simp
  | cons e pairs ih =>
      rw [List.foldl_cons, ih, addEdge]
      by_cases he : e ∈ found
      · simp [he]
      · rw [if_neg (by simpa using he), List.filter_cons_of_pos (by simpa using he),
          List.eraseDups_cons, List.reverse_cons, List.append_assoc, List.filter_filter]
        simp only [List.contains_cons, Bool.not_or, List.singleton_append]

theorem edges_eq (relation : List (List Nat)) : edges relation = (pairs relation).eraseDups.reverse := by
  rw [edges, foldl_addEdge]
  simp

theorem mem_pairs {relation : List (List Nat)} {e : Nat × Nat} :
    e ∈ pairs relation ↔ Step relation e.2 e.1 := by
  simp only [pairs, List.mem_flatMap, List.mem_range, List.mem_map]
  constructor
  · rintro ⟨i, -, j, hj, rfl⟩
    exact hj
  · intro h
    exact ⟨e.2, h.lt, e.1, h, rfl⟩

theorem pairwise_pairs (relation : List (List Nat)) :
    (pairs relation).Pairwise fun e f => e.2 ≤ f.2 := by
  rw [pairs, List.pairwise_flatMap]
  constructor
  · intro i _
    exact List.pairwise_map.mpr (List.pairwise_of_forall fun _ _ => le_rfl)
  · refine List.pairwise_lt_range.imp fun hlt e he f hf => ?_
    obtain ⟨_, -, rfl⟩ := List.mem_map.mp he
    obtain ⟨_, -, rfl⟩ := List.mem_map.mp hf
    exact hlt.le

/-- The pairs with one including position are the positions that it includes, in their order. -/
theorem filter_pairs (relation : List (List Nat)) (n : Nat) :
    (pairs relation).filter (·.2 == n) = (includedBy relation n).map (·, n) := by
  have hupTo : ∀ m, ((List.range m).flatMap fun i => (includedBy relation i).map (·, i)).filter
      (·.2 == n) = if n < m then (includedBy relation n).map (·, n) else [] := by
    intro m
    induction m with
    | zero => rfl
    | succ m ih =>
        rw [List.range_succ, List.flatMap_append, List.filter_append, ih, List.flatMap_singleton]
        by_cases hn : n = m
        · subst hn
          simp [List.filter_eq_self]
        · have hnone : ((includedBy relation m).map (·, m)).filter (·.2 == n) = [] := by
            simp [List.filter_eq_nil_iff, Ne.symm hn]
          rw [hnone, List.append_nil]
          by_cases hlt : n < m
          · rw [if_pos hlt, if_pos (by omega)]
          · rw [if_neg hlt, if_neg (by omega)]
  rw [pairs, hupTo]
  split
  · rfl
  · next hlt =>
      rw [includedBy, List.getElem?_eq_none (by omega)]
      rfl

/-- The successors of a node are its includers, the last one first. -/
theorem reverse_successors (relation : List (List Nat)) (n : Nat) :
    (successors (edges relation) n).reverse = includersOf relation n := by
  have hsub := eraseDups_sublist (pairs relation)
  have hnodup := Reach.nodup_eraseDups (pairs relation)
  rw [successors, edges_eq, List.filter_reverse, List.map_reverse, List.reverse_reverse]
  have hsorted : (((pairs relation).eraseDups.filter (·.1 == n)).map (·.2)).Pairwise (· < ·) := by
    rw [List.pairwise_map]
    refine List.Pairwise.imp_of_mem ?_
      ((((pairwise_pairs relation).sublist hsub).and hnodup).sublist List.filter_sublist)
    rintro ⟨j, i⟩ ⟨j', i'⟩ he hf ⟨hle, hne⟩
    have hj : j = n := by simpa using (List.mem_filter.mp he).2
    have hj' : j' = n := by simpa using (List.mem_filter.mp hf).2
    subst hj hj'
    exact lt_of_le_of_ne hle fun h => hne (Prod.ext rfl h)
  have hascending : (includersOf relation n).Pairwise (· < ·) := List.pairwise_lt_range.filter _
  refine List.Perm.eq_of_pairwise' hsorted hascending ?_
  rw [List.perm_ext_iff_of_nodup (hsorted.imp ne_of_lt) (hascending.imp ne_of_lt)]
  intro i
  rw [mem_includersOf]
  simp only [List.mem_map, List.mem_filter, List.mem_eraseDups, mem_pairs, beq_iff_eq]
  constructor
  · rintro ⟨e, ⟨he, rfl⟩, rfl⟩
    exact he
  · intro h
    exact ⟨(n, i), ⟨h, rfl⟩, rfl⟩

/-- Among the predecessors of a node, the one added first is what a search among the included
positions finds. -/
theorem find?_reverse_predecessors (relation : List (List Nat)) (n : Nat) (p : Nat → Bool) :
    (predecessors (edges relation) n).reverse.find? p = (includedBy relation n).find? p := by
  rw [predecessors, edges_eq, List.filter_reverse, List.map_reverse, List.reverse_reverse,
    List.find?_map, List.find?_filter, find?_eraseDups, ← List.find?_filter, filter_pairs,
    List.find?_map]
  cases h : (includedBy relation n).find? p <;> simp [Function.comp_def, h]

/-! ### Searches -/

theorem push_eq (entered : List Nat) (node : Nat) (nodes stack : List Nat) :
    push entered node nodes stack =
      if node ∈ nodes then .error node
      else .ok ((nodes.filter fun a => !entered.contains a).reverse ++ stack) := by
  induction nodes generalizing stack with
  | nil => simp [push]
  | cons next nodes ih =>
      rw [push]
      by_cases hnext : next = node
      · simp [hnext]
      · rw [if_neg hnext, ih]
        by_cases hmem : node ∈ nodes
        · simp [hmem]
        · by_cases hentered : next ∈ entered
          · simp [hmem, hentered, Ne.symm hnext]
          · simp [hmem, hentered, Ne.symm hnext]

variable {succ next : Nat → List Nat} {bound : Finset Nat}

/-- Nodes that have been left are taken off the stack. -/
theorem search_append_left {nodes rest : List Nat} {s : Walk}
    (h : ∀ a ∈ nodes, a ∈ s.entered ∧ a ∈ s.left) :
    s.search succ (nodes ++ rest) = s.search succ rest := by
  induction nodes with
  | nil => rfl
  | cons node nodes ih =>
      obtain ⟨hentered, hleft⟩ := h node (by simp)
      rw [List.cons_append, Walk.search]
      simp only [List.contains_iff_mem, hentered, hleft, if_true]
      exact ih fun a ha => h a (List.mem_cons_of_mem _ ha)

/-- A search with a stack goes through the nodes on it as the search in depth does, which finds the
nodes when it comes to them. The nodes of a list that were entered before they came to the stack, those
of `known`, are not on it. -/
theorem search_walk (hsucc : ∀ a, (succ a).reverse = next a)
    (hbound : ∀ a ∈ bound, ∀ b ∈ next a, b ∈ bound) {depth : Nat} {nodes : List Nat} {s : Walk}
    (hnodes : ∀ a ∈ nodes, a ∈ bound) (hdepth : (unentered bound s).card ≤ depth)
    (known : List Nat) (hknown : ∀ a ∈ known, a ∈ s.entered) (hleft : ∀ a ∈ s.left, a ∈ s.entered)
    (hopen : ∀ a ∈ nodes, a ∉ known → a ∈ s.entered → a ∈ s.left) (rest : List Nat) :
    s.search succ (nodes.filter (fun a => !known.contains a) ++ rest) =
      match walk next depth nodes s with
      | .error loop => some (.error loop)
      | .ok t => t.search succ rest := by
  fun_induction walk next depth nodes s generalizing known rest with
  | case1 => rfl
  | case2 s node nodes =>
      apply search_append_left
      intro a ha
      obtain ⟨ha, hnew⟩ := List.mem_filter.mp ha
      have hentered := mem_entered_of_card (hnodes a ha) hdepth
      exact ⟨hentered, hopen a ha (by simpa using hnew) hentered⟩
  | case3 s depth node nodes hentered ih =>
      have hentered : node ∈ s.entered := by simpa using hentered
      rw [← ih (fun a ha => hnodes a (List.mem_cons_of_mem _ ha)) hdepth known hknown hleft
        (fun a ha => hopen a (List.mem_cons_of_mem _ ha)) rest]
      by_cases hnew : node ∈ known
      · rw [List.filter_cons_of_neg (by simpa using hnew)]
      · rw [List.filter_cons_of_pos (by simpa using hnew)]
        have hstands : ∀ a ∈ [node], a ∈ s.entered ∧ a ∈ s.left := by
          simpa using ⟨hentered, hopen node (by simp) hnew hentered⟩
        exact search_append_left hstands
  | case4 s depth node nodes hentered hloop =>
      have hnew : node ∉ known := fun hmem => hentered (by simpa using hknown node hmem)
      have hloop : node ∈ succ node := by simpa [← hsucc] using hloop
      rw [List.filter_cons_of_pos (by simpa using hnew), List.cons_append, Walk.search,
        if_neg hentered, push_eq, if_pos hloop]
  | case5 s depth node nodes hentered hloop failed hinner ihinner =>
      have hnode := hnodes node (by simp)
      have hfresh : node ∉ s.entered := by simpa using hentered
      have hnew : node ∉ known := fun hmem => hfresh (hknown node hmem)
      have hloop : node ∉ succ node := by simpa [← hsucc] using hloop
      have hdepth' := (card_unentered_enter hnode hfresh).trans_le hdepth
      have hbehind := ihinner (hbound node hnode) (by omega) (node :: s.entered) (fun a ha => ha)
        (fun a ha => List.mem_cons_of_mem _ (hleft a ha)) (fun a _ hout hin => absurd hin hout)
        (node :: (nodes.filter (fun a => !known.contains a) ++ rest))
      rw [List.filter_cons_of_pos (by simpa using hnew), List.cons_append, Walk.search,
        if_neg hentered, push_eq, if_neg hloop, ← List.filter_reverse, hsucc]
      simp only
      rw [hbehind, hinner]
  | case6 s depth node nodes hentered hloop inner hinner ihinner ih =>
      have hnode := hnodes node (by simp)
      have hfresh : node ∉ s.entered := by simpa using hentered
      have hnew : node ∉ known := fun hmem => hfresh (hknown node hmem)
      have hloop' : node ∉ succ node := by simpa [← hsucc] using hloop
      have hdepth' := (card_unentered_enter hnode hfresh).trans_le hdepth
      obtain ⟨behind, hadded⟩ := exists_continues hbound (hbound node hnode) hinner
      have hvisit := hadded.visit hnode hfresh (by simpa using hloop)
      have hbehind := ihinner (hbound node hnode) (by omega) (node :: s.entered) (fun a ha => ha)
        (fun a ha => List.mem_cons_of_mem _ (hleft a ha)) (fun a _ hout hin => absurd hin hout)
        (node :: (nodes.filter (fun a => !known.contains a) ++ rest))
      have hafter := ih (fun a ha => hnodes a (List.mem_cons_of_mem _ ha))
        ((card_unentered_le hvisit).trans hdepth) known
        (fun a ha => (hvisit.entered a).mpr (Or.inl (hknown a ha)))
        (by
          intro a ha
          rw [hvisit.left, List.mem_append] at ha
          exact (hvisit.entered a).mpr (ha.symm.imp_left (hleft a)))
        (by
          intro a ha hout hin
          by_contra hleft'
          obtain ⟨hin, hleft'⟩ := (hvisit.isOpen_iff a).mp ⟨hin, hleft'⟩
          exact hleft' (hopen a (List.mem_cons_of_mem _ ha) hout hin)) rest
      rw [← hafter, List.filter_cons_of_pos (by simpa using hnew), List.cons_append, Walk.search,
        if_neg hentered, push_eq, if_neg hloop', ← List.filter_reverse, hsucc]
      simp only
      rw [hbehind, hinner]
      -- The node is on top again, and has not been left.
      have hagain : node ∈ inner.entered := (hadded.entered node).mpr (by simp)
      have hstill : node ∉ inner.left := by
        rw [hadded.left, List.mem_append]
        rintro (hmem | hmem)
        · exact hadded.fresh node hmem (by simp)
        · exact hfresh (hleft node hmem)
      simp only
      rw [Walk.search]
      simp [hagain, hstill]

theorem walk_cons (depth node : Nat) (nodes : List Nat) (s : Walk) :
    walk next depth (node :: nodes) s = walk next depth [node] s >>= walk next depth nodes := by
  cases depth with
  | zero => cases nodes <;> simp [walk, bind, Except.bind]
  | succ depth =>
      rw [walk, walk]
      by_cases hentered : s.entered.contains node = true
      · rw [if_pos hentered, if_pos hentered, walk]
        rfl
      · rw [if_neg hentered, if_neg hentered]
        split
        · rfl
        · split
          · rfl
          · rw [walk]
            rfl

/-- The searches from all nodes one after another. Between two of them, every node entered has been
left. -/
theorem searchAll_eq (hsucc : ∀ a, (succ a).reverse = next a)
    (hbound : ∀ a ∈ bound, ∀ b ∈ next a, b ∈ bound) {depth : Nat} {nodes : List Nat} {s : Walk}
    (hnodes : ∀ a ∈ nodes, a ∈ bound) (hdepth : (unentered bound s).card ≤ depth)
    (hleft : ∀ a, a ∈ s.left ↔ a ∈ s.entered) :
    searchAll succ nodes s = some (walk next depth nodes s) := by
  induction nodes generalizing s with
  | nil => simp [searchAll, walk]
  | cons node nodes ih =>
      have hnode : ∀ a ∈ [node], a ∈ bound := by simpa using hnodes node (by simp)
      have hrest : ∀ a ∈ nodes, a ∈ bound := fun a ha => hnodes a (List.mem_cons_of_mem _ ha)
      have hsearch := search_walk hsucc hbound hnode hdepth [] (by simp)
        (fun a => (hleft a).mp) (fun a _ _ => (hleft a).mpr) []
      rw [searchAll, walk_cons]
      by_cases hentered : node ∈ s.entered
      · have hskip : walk next depth [node] s = .ok s := by
          cases depth with
          | zero => simp [walk]
          | succ depth => simp [walk, hentered]
        rw [if_pos (by simpa using hentered), hskip, ih hrest hdepth hleft]
        rfl
      · rw [if_neg (by simpa using hentered)]
        cases hwalk : walk next depth [node] s with
        | error loop =>
            rw [hwalk] at hsearch
            simp only [List.contains_nil, Bool.not_false, List.filter_true, List.append_nil] at hsearch
            rw [hsearch]
            rfl
        | ok t =>
            obtain ⟨added, hadded⟩ := exists_continues hbound hnode hwalk
            rw [hwalk] at hsearch
            simp only [List.contains_nil, Bool.not_false, List.filter_true, List.append_nil] at hsearch
            rw [hsearch, Walk.search]
            refine ih hrest ((card_unentered_le hadded).trans hdepth) fun a => ?_
            rw [hadded.left, List.mem_append, hadded.entered, hleft, or_comm]

theorem map_nextNode? (next : Nat → List Nat) (entered stack : List Nat) :
    (nextNode? next entered stack).map Prod.fst = stack.find? fun a => !entered.contains a := by
  induction stack with
  | nil => rfl
  | cons node rest ih =>
      rw [nextNode?, List.find?_cons]
      by_cases hentered : node ∈ entered
      · simp [hentered, ih]
      · simp [hentered]

/-- Going back from the nodes of an order stops where the order has an inclusion the wrong way
round. -/
theorem check_eq (relation : List (List Nat)) {before rest : List Nat} (hnodup : rest.Nodup)
    (hfresh : ∀ a ∈ rest, a ∉ before) :
    check (predecessors (edges relation)) before rest =
      match misplaced? relation before rest with
      | some i => .error i
      | none => .ok () := by
  induction rest generalizing before with
  | nil => rfl
  | cons node rest ih =>
      obtain ⟨hnode, hnodup⟩ := List.nodup_cons.mp hnodup
      have hnew : node ∉ before := hfresh node (by simp)
      have hsecond := map_nextNode? (predecessors (edges relation)) (node :: before)
        (((predecessors (edges relation) node).filter fun a =>
          !(node :: before).contains a).reverse ++ [])
      rw [List.append_nil, ← List.filter_reverse, List.find?_filter] at hsecond
      simp only [and_self, Bool.decide_eq_true] at hsecond
      rw [find?_reverse_predecessors] at hsecond
      rw [check, misplaced?, nextNode?, if_neg (by simpa using hnew)]
      simp only [List.append_nil, ← List.filter_reverse]
      rw [← hsecond]
      cases nextNode? (predecessors (edges relation)) (node :: before)
          ((predecessors (edges relation) node).reverse.filter fun a =>
            !(node :: before).contains a) with
      | some second => rfl
      | none =>
          refine ih hnodup fun a ha => ?_
          rw [List.mem_cons]
          rintro (rfl | hmem)
          · exact hnode ha
          · exact hfresh a (List.mem_cons_of_mem _ ha) hmem

/-- The two searches with a stack end, and find the order or the position on a cycle that the search in
depth and its check find. -/
theorem order_eq (relation : List (List Nat)) :
    order relation = some (DependencyOrder.order relation) := by
  have hbound := mem_range_of_mem_includersOf relation
  have hnodes : ∀ i ∈ List.range relation.length, i ∈ Finset.range relation.length := by simp
  have hdepth := card_unentered_range relation.length
  rw [order, searchAll_eq (reverse_successors relation) hbound hnodes hdepth (by simp),
    DependencyOrder.order]
  cases h : walk (includersOf relation) relation.length (List.range relation.length) {} with
  | error loop => rfl
  | ok s =>
      have hnodup : s.left.Nodup := (walk_all h).1.nodup_iff.mpr List.nodup_range
      simp only [check_eq relation hnodup (fun a _ => List.not_mem_nil)]
      cases hmisplaced : misplaced? relation [] s.left <;>
        simp [bind, Except.bind, Except.map, hmisplaced]

end StackSearch

end Interop
