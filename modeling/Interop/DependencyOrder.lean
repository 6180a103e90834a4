import Interop.Fault
import Interop.Namespace
import Interop.Reach

/-! The order in which namespaces are built: every namespace after those that it includes. A
depth-first search along the includes proposes an order, a pass over the order checks it, and a
cycle is reported with all the namespaces that include one another through it. -/

namespace Interop

/-- A namespace and what it includes, by their keys. -/
structure IncludeEntry where
  key : NamespaceKey
  includes : List NamespaceKey
deriving Repr, Inhabited

namespace DependencyOrder

/-- The first key that stands in a list for the second time. -/
def firstRepeated? (seen : List NamespaceKey) : List NamespaceKey → Option NamespaceKey
  | [] => none
  | key :: rest => if seen.contains key then some key else firstRepeated? (key :: seen) rest

/-- The position of the entry with a key that another entry includes. -/
def position (entries : List IncludeEntry) (includer key : NamespaceKey) : Except Fault Nat :=
  match entries.findIdx? (·.key == key) with
  | some i => .ok i
  | none => .error (.unresolvedDependency key.canonicalName includer.canonicalName)

/-- The positions of the entries that each entry includes. -/
def positions (entries : List IncludeEntry) : Except Fault (List (List Nat)) :=
  entries.mapM fun entry => entry.includes.mapM (position entries entry.key)

/-- The positions that an entry includes. -/
def includedBy (relation : List (List Nat)) (i : Nat) : List Nat := relation[i]?.getD []

/-- The positions that include an entry, in ascending order. -/
def includersOf (relation : List (List Nat)) (i : Nat) : List Nat :=
  (List.range relation.length).filter fun j => (includedBy relation j).contains i

/-- The state of a depth-first search: the nodes entered, and those left, the last one first. -/
structure Walk where
  entered : List Nat := []
  left : List Nat := []
deriving Repr, Inhabited

/-- Enters the nodes of a list one after another, each together with all that is behind it. A node
that is its own neighbour ends the search. The search is no deeper than `depth`, which has to be at
least the number of nodes not yet entered. -/
def walk (next : Nat → List Nat) (depth : Nat) (nodes : List Nat) (state : Walk) :
    Except Nat Walk :=
  match depth, nodes with
  | _, [] => .ok state
  | 0, _ :: _ => .ok state
  | depth + 1, node :: rest =>
    if state.entered.contains node then walk next (depth + 1) rest state
    else if (next node).contains node then .error node
    else
      match walk next depth (next node) { state with entered := node :: state.entered } with
      | .error loop => .error loop
      | .ok inner => walk next (depth + 1) rest { inner with left := node :: inner.left }
termination_by (depth, nodes.length)

/-- The first inclusion that an order has the wrong way round: the included one of an entry that
does not stand before it. -/
def misplaced? (relation : List (List Nat)) (before : List Nat) : List Nat → Option Nat
  | [] => none
  | i :: rest =>
    match (includedBy relation i).find? fun j => !(i :: before).contains j with
    | some j => some j
    | none => misplaced? relation (i :: before) rest

/-- An order of the positions, or a position on a cycle. -/
def order (relation : List (List Nat)) : Except Nat (List Nat) := do
  let size := relation.length
  let state ← walk (includersOf relation) size (List.range size) {}
  match misplaced? relation [] state.left with
  | some i => .error i
  | none => .ok state.left

/-- The positions that an entry includes and is included by, however indirectly, and itself. -/
def component (relation : List (List Nat)) (i : Nat) : List Nat :=
  let reached := Reach.nodes (includersOf relation) relation.length
  (List.range relation.length).filter fun j => (reached i).contains j && (reached j).contains i

/-- The names of the entries in the component of a position, in ascending order. -/
def cycleNames (entries : List IncludeEntry) (relation : List (List Nat)) (i : Nat) : List String :=
  ((component relation i).filterMap fun j => entries[j]?.map (·.key.canonicalName)).mergeSort
    fun a b => !(b < a)

end DependencyOrder

/-- The positions of entries in an order in which every entry follows those that it includes.
Repeated keys go before unknown includes, and these before cycles. -/
def dependencyOrder (entries : List IncludeEntry) : Except Fault (List Nat) := do
  if let some key := DependencyOrder.firstRepeated? [] (entries.map (·.key)) then
    throw (.duplicateNamespace key.canonicalName)
  let relation ← DependencyOrder.positions entries
  match DependencyOrder.order relation with
  | .ok order => return order
  | .error i => throw (.dependencyCycle (DependencyOrder.cycleNames entries relation i))

end Interop
