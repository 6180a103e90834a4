/-! Breadth-first search. Main statements: the start is reached, and whatever is reached is reached
once. -/

namespace Interop.Reach

variable {α : Type} [BEq α]

/-- The neighbours that have not been seen, each once. -/
def fresh (seen neighbours : List α) : List α :=
  neighbours.eraseDups.filter fun a => !seen.contains a

/-- Goes on with a search that has seen some nodes, of which those in the queue are still to be
left. -/
def explore (next : α → List α) : Nat → List α → List α → List α
  | 0, seen, _ => seen
  | _ + 1, seen, [] => seen
  | steps + 1, seen, node :: queue =>
    explore next steps (seen ++ fresh seen (next node)) (queue ++ fresh seen (next node))

/-- The nodes reached from a start, nearest first, when no more than `size` nodes can be. -/
def nodes (next : α → List α) (size : Nat) (start : α) : List α :=
  explore next size [start] [start]

theorem mem_explore_of_mem (next : α → List α) (steps : Nat) {seen queue : List α} {a : α}
    (h : a ∈ seen) : a ∈ explore next steps seen queue := by
  induction steps generalizing seen queue with
  | zero => exact h
  | succ steps ih =>
      cases queue with
      | nil => exact h
      | cons node queue => exact ih (List.mem_append_left _ h)

/-- The start is reached. -/
theorem start_mem (next : α → List α) (size : Nat) (start : α) : start ∈ nodes next size start :=
  mem_explore_of_mem next size (List.mem_singleton_self start)

section Nodup

variable [LawfulBEq α]

theorem nodup_eraseDups : ∀ l : List α, l.eraseDups.Nodup
  | [] => by simp
  | a :: rest => by
    rw [List.eraseDups_cons]
    exact List.nodup_cons.mpr ⟨by simp [List.mem_eraseDups], nodup_eraseDups _⟩
termination_by l => l.length
decreasing_by exact Nat.lt_succ_of_le (List.length_filter_le ..)

theorem nodup_append_fresh {seen : List α} (neighbours : List α) (h : seen.Nodup) :
    (seen ++ fresh seen neighbours).Nodup := by
  refine List.nodup_append.mpr ⟨h, List.Pairwise.filter _ (nodup_eraseDups _), ?_⟩
  rintro a ha b hb rfl
  simp [fresh, ha] at hb

/-- A search that starts without repeats has none at its end. -/
theorem nodup_explore (next : α → List α) (steps : Nat) {seen queue : List α} (h : seen.Nodup) :
    (explore next steps seen queue).Nodup := by
  induction steps generalizing seen queue with
  | zero => exact h
  | succ steps ih =>
      cases queue with
      | nil => exact h
      | cons node queue => exact ih (nodup_append_fresh _ h)

/-- Whatever is reached is reached once. -/
theorem nodup_nodes (next : α → List α) (size : Nat) (start : α) :
    (nodes next size start).Nodup :=
  nodup_explore next size (by simp)

end Nodup

end Interop.Reach
