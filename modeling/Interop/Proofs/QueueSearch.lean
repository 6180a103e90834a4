import Interop.Proofs.Reach

/-! Searching nodes breadth-first. One search asks a node when it leaves the queue, another one when it is met as
a neighbour. Both look at the nodes in one order, that of the nodes reached, so that the first answer in this
order is what either finds. Main statements: `findsLeaving_nodes`, `findsMeeting_nodes`. -/

namespace Interop.Reach

section Searches

variable {α β : Type} (next : α → List α) (answer : α → Option β)

/-- What a search finds that asks the nodes as they leave the queue. Some nodes have been seen, some stand in the
queue, and some neighbours of the node that was left last are still to be looked at; those that have not been
seen are put behind the queue. -/
inductive FindsLeaving : List α → List α → List α → Option β → Prop
  | nothing {seen : List α} : FindsLeaving seen [] [] none
  | answered {seen queue : List α} {node : α} {found : β} (h : answer node = some found) :
    FindsLeaving seen (node :: queue) [] (some found)
  | left {seen queue : List α} {node : α} {result : Option β} (h : answer node = none)
    (rest : FindsLeaving seen queue (next node) result) : FindsLeaving seen (node :: queue) [] result
  | known {seen queue neighbours : List α} {a : α} {result : Option β} (h : a ∈ seen)
    (rest : FindsLeaving seen queue neighbours result) : FindsLeaving seen queue (a :: neighbours) result
  | met {seen queue neighbours : List α} {a : α} {result : Option β} (h : a ∉ seen)
    (rest : FindsLeaving (seen ++ [a]) (queue ++ [a]) neighbours result) :
    FindsLeaving seen queue (a :: neighbours) result

/-- What a search finds that asks the nodes as they are met. Those seen before it are not asked. -/
inductive FindsMeeting : List α → List α → List α → Option β → Prop
  | nothing {seen : List α} : FindsMeeting seen [] [] none
  | left {seen queue : List α} {node : α} {result : Option β}
    (rest : FindsMeeting seen queue (next node) result) : FindsMeeting seen (node :: queue) [] result
  | known {seen queue neighbours : List α} {a : α} {result : Option β} (h : a ∈ seen)
    (rest : FindsMeeting seen queue neighbours result) : FindsMeeting seen queue (a :: neighbours) result
  | answered {seen queue neighbours : List α} {a : α} {found : β} (h : a ∉ seen) (ha : answer a = some found) :
    FindsMeeting seen queue (a :: neighbours) (some found)
  | met {seen queue neighbours : List α} {a : α} {result : Option β} (h : a ∉ seen) (ha : answer a = none)
    (rest : FindsMeeting (seen ++ [a]) (queue ++ [a]) neighbours result) :
    FindsMeeting seen queue (a :: neighbours) result

end Searches

variable {α β : Type} [BEq α] [LawfulBEq α] {next : α → List α} {answer : α → Option β}

theorem fresh_cons_of_mem {seen : List α} {a : α} (h : a ∈ seen) (neighbours : List α) :
    fresh seen (a :: neighbours) = fresh seen neighbours := by
  rw [fresh, List.eraseDups_cons, List.filter_cons_of_neg (by simpa using h), eraseDups_filter, List.filter_filter,
    fresh]
  refine List.filter_congr fun b _ => ?_
  by_cases hb : b = a
  · simp [hb, h]
  · simp [hb]

theorem fresh_cons_of_not_mem {seen : List α} {a : α} (h : a ∉ seen) (neighbours : List α) :
    fresh seen (a :: neighbours) = a :: fresh (seen ++ [a]) neighbours := by
  rw [fresh, List.eraseDups_cons, List.filter_cons_of_pos (by simpa using h), eraseDups_filter, List.filter_filter,
    fresh]
  congr 1
  refine List.filter_congr fun b _ => ?_
  by_cases hb : b = a
  · simp [hb]
  · simp [hb]

/-- Neighbours are looked at one by one, and those that are fresh are put behind the queue. -/
theorem FindsLeaving.look {seen queue neighbours : List α} {result : Option β}
    (h : FindsLeaving next answer (seen ++ fresh seen neighbours) (queue ++ fresh seen neighbours) [] result) :
    FindsLeaving next answer seen queue neighbours result := by
  induction neighbours generalizing seen queue with
  | nil =>
      have hnothing : fresh seen [] = [] := rfl
      rwa [hnothing, List.append_nil, List.append_nil] at h
  | cons a neighbours ih =>
      by_cases ha : a ∈ seen
      · rw [fresh_cons_of_mem ha] at h
        exact .known ha (ih h)
      · rw [fresh_cons_of_not_mem ha] at h
        refine .met ha (ih ?_)
        rwa [List.append_assoc, List.append_assoc]

/-- Neighbours are looked at one by one, and the first fresh one with an answer ends the search. -/
theorem FindsMeeting.look {seen queue neighbours : List α} {result : Option β}
    (h : FindsMeeting next answer (seen ++ fresh seen neighbours) (queue ++ fresh seen neighbours) [] result) :
    FindsMeeting next answer seen queue neighbours (((fresh seen neighbours).findSome? answer).or result) := by
  induction neighbours generalizing seen queue with
  | nil =>
      have hnothing : fresh seen [] = [] := rfl
      rwa [hnothing, List.append_nil, List.append_nil] at h
  | cons a neighbours ih =>
      by_cases ha : a ∈ seen
      · rw [fresh_cons_of_mem ha] at h ⊢
        exact .known ha (ih h)
      · rw [fresh_cons_of_not_mem ha] at h ⊢
        rw [List.findSome?_cons]
        cases hfound : answer a with
        | some found => exact .answered ha hfound
        | none =>
            refine .met ha hfound (ih ?_)
            rwa [List.append_assoc, List.append_assoc]

/-- Searches that go on from what has been explored find the first answer among what is explored later. -/
theorem Exploring.finds (answer : α → Option β) {bound left queue : List α} {start : α}
    (hbound : ∀ a ∈ bound, ∀ b ∈ next a, b ∈ bound) (h : Exploring next bound start left queue) {steps : Nat}
    (hsteps : bound.length ≤ left.length + steps) :
    ∃ later, Reach.explore next steps (left ++ queue) queue = left ++ queue ++ later ∧
      FindsLeaving next answer (left ++ queue) queue [] ((queue ++ later).findSome? answer) ∧
      FindsMeeting next answer (left ++ queue) queue [] (later.findSome? answer) := by
  induction steps generalizing left queue with
  | zero =>
      have hlength := h.length_le
      have hqueue : queue = [] := by
        rw [List.length_append] at hlength
        exact List.eq_nil_of_length_eq_zero (by omega)
      subst hqueue
      exact ⟨[], (List.append_nil _).symm, .nothing, .nothing⟩
  | succ steps ih =>
      cases queue with
      | nil => exact ⟨[], (List.append_nil _).symm, .nothing, .nothing⟩
      | cons node queue =>
          obtain ⟨later, hexplore, hleaving, hmeeting⟩ :=
            ih (h.step hbound) (by rw [List.length_append, List.length_singleton]; omega)
          rw [leave_eq] at hexplore hleaving hmeeting
          refine ⟨fresh (left ++ node :: queue) (next node) ++ later, ?_, ?_, ?_⟩
          · rw [Reach.explore, hexplore, List.append_assoc]
          · rw [List.cons_append, List.findSome?_cons, ← List.append_assoc]
            cases hfound : answer node with
            | some found => exact .answered hfound
            | none => exact .left hfound hleaving.look
          · rw [List.findSome?_append]
            exact .left hmeeting.look

section Nodes

variable {bound : List α} {size : Nat} {start : α} (hbound : ∀ a ∈ bound, ∀ b ∈ next a, b ∈ bound)
  (hsize : bound.length ≤ size) (hstart : start ∈ bound)

include hbound hsize hstart

/-- The nodes reached are asked in their order as they leave the queue. -/
theorem findsLeaving_nodes (answer : α → Option β) :
    FindsLeaving next answer [start] [start] [] ((nodes next size start).findSome? answer) := by
  obtain ⟨later, hexplore, hleaving, -⟩ :=
    (Exploring.init hstart).finds answer hbound (by simpa using hsize)
  rw [List.nil_append] at hexplore hleaving
  rwa [nodes, hexplore]

/-- The nodes reached, but for the start, are asked in their order as they are met. -/
theorem findsMeeting_nodes (answer : α → Option β) :
    ∃ later, nodes next size start = start :: later ∧
      FindsMeeting next answer [start] [start] [] (later.findSome? answer) := by
  obtain ⟨later, hexplore, -, hmeeting⟩ :=
    (Exploring.init hstart).finds answer hbound (by simpa using hsize)
  exact ⟨later, hexplore, hmeeting⟩

end Nodes

end Interop.Reach
