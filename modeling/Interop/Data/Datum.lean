/-! Structured data: what a file in one of the data formats holds and what a report is made of. -/

namespace Interop

/-- A structured value. Members of a table keep their order, and a name may occur repeatedly. -/
inductive Datum
  | null
  | boolean (value : Bool)
  | integer (value : Int)
  | text (value : String)
  | list (items : List Datum)
  | table (members : List (String × Datum))
  /-- A value of a format that stands for none of the others: a number that is no integer, or a
  text that is no sequence of Unicode characters. -/
  | foreign
deriving Repr, Inhabited

namespace Datum

def natural (n : Nat) : Datum := .integer n

def texts (items : List String) : Datum := .list (items.map .text)

/-- A value that may be absent. -/
def optional {α : Type} (f : α → Datum) : Option α → Datum
  | none => .null
  | some a => f a

/-- The last member of a table with a given name. -/
def member? (name : String) : Datum → Option Datum
  | .table members => members.reverse.lookup name
  | _ => none

mutual

/-- The value in which every table keeps only the last of the members that share a name. -/
def lastMembers : Datum → Datum
  | .null => .null
  | .boolean b => .boolean b
  | .integer n => .integer n
  | .text s => .text s
  | .list items => .list (lastMembersOfItems items)
  | .table members => .table (lastMembersOfTable members)
  | .foreign => .foreign

/-- `lastMembers` on every item. -/
def lastMembersOfItems : List Datum → List Datum
  | [] => []
  | d :: rest => d.lastMembers :: lastMembersOfItems rest

/-- `lastMembers` on every member that no later member replaces. -/
def lastMembersOfTable : List (String × Datum) → List (String × Datum)
  | [] => []
  | (name, d) :: rest =>
    if rest.any (·.1 == name) then lastMembersOfTable rest
    else (name, d.lastMembers) :: lastMembersOfTable rest

end

end Datum

end Interop
