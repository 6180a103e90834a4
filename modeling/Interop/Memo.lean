import Std.Data.HashMap
import Interop.Graph.Decide

/-! Decisions already taken. Every type reference of a declaration has a site, and the first
decision taken for a site stays. -/

namespace Interop

/-- What a callable, a signal or a field belongs to. -/
inductive Holder
  | free
  | enumeration (index : Nat)
  | bitfield (index : Nat)
  | classType (index : Nat)
  | interfaceType (index : Nat)
  | record (index : Nat)
  | union (index : Nat)
  | layout (slot : LayoutSlot)
deriving DecidableEq, Hashable, Repr, Inhabited

deriving instance Hashable for CallableKind

/-- Where in a namespace something is declared. -/
inductive Place
  /-- A type symbol itself, with its fields. -/
  | type (holder : Holder)
  | callable (holder : Holder) (kind : CallableKind) (index : Nat)
  | signal (holder : Holder) (index : Nat)
  | callback (index : Nat)
  | constant (index : Nat)
  | alias (index : Nat)
deriving DecidableEq, Hashable, Repr, Inhabited

/-- Which type reference of a declaration is meant. -/
inductive TypeSlot
  | result
  | receiver
  | parameter (index : Nat)
  | field (index : Nat)
  | value
deriving DecidableEq, Hashable, Repr, Inhabited

/-- The address of a type reference. -/
structure Site where
  repository : RepositoryId
  place : Place
  slot : TypeSlot
deriving DecidableEq, Hashable, Repr, Inhabited

/-- The decisions taken so far. -/
structure Memo where
  entries : Std.HashMap Site DecidedType := {}
deriving Inhabited

namespace Memo

/-- The decision for a site, if one was taken. -/
def get? (memo : Memo) (site : Site) : Option DecidedType := memo.entries[site]?

/-- Keeps a decision for a site, unless there is one already. -/
def keep (memo : Memo) (site : Site) (decided : DecidedType) : Memo :=
  ⟨memo.entries.insertIfNew site decided⟩

/-- A site that has no decision gets one, all others stay as they are. -/
theorem get?_keep (memo : Memo) (site other : Site) (decided : DecidedType) :
    (memo.keep site decided).get? other =
      if site = other ∧ memo.get? site = none then some decided else memo.get? other := by
  unfold keep get?
  simp only [Std.HashMap.getElem?_insertIfNew, beq_iff_eq]
  by_cases h : site = other
  · subst h
    cases hm : memo.entries[site]? with
    | none =>
        have absent : ¬site ∈ memo.entries := by
          rw [Std.HashMap.mem_iff_isSome_getElem?, hm]
          exact Bool.false_ne_true
        simp only [absent, not_false_eq_true, and_self, if_true]
    | some d =>
        have present : site ∈ memo.entries := by
          rw [Std.HashMap.mem_iff_isSome_getElem?, hm]
          rfl
        simp only [present, not_true_eq_false, and_false, if_false, reduceCtorEq]
  · simp [h]

end Memo

/-- A computation that takes decisions; those taken before a failure stay. -/
abbrev Deciding := ExceptT Fault (StateM Memo)

/-- The decision for a reference at a site: an earlier one, or a new one that is kept. -/
def Graph.resolve (g : Graph) (site : Site) (reference : TypeReference) :
    Deciding DecidedType := do
  match (← getThe Memo).get? site with
  | some decided => return decided
  | none =>
    let decided ← liftExcept (g.decide site.repository reference)
    modifyThe Memo (·.keep site decided)
    return decided

end Interop
