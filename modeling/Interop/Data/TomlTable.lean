import Interop.Data.Datum

/-! Tables of a TOML document while it is read. A table may be spelled in pieces, and how it came
into being decides which later pieces may still add to it. -/

namespace Interop.Toml

/-- How a table came into being. -/
inductive Origin
  /-- By a longer header, so that its own header may still follow. -/
  | implied
  /-- By a dotted key, so that only dotted keys may add to it. -/
  | dotted
  /-- By its own header. -/
  | defined
deriving DecidableEq

/-- A member of a table under construction. -/
inductive Node
  | value (value : Datum)
  | table (origin : Origin) (members : List (String × Node))
  /-- A list of tables, one for each header in double brackets; the last one stands first. -/
  | tables (elements : List Node)
deriving Inhabited

/-- The members of a table under construction. -/
abbrev Members := List (String × Node)

namespace Members

/-- Puts a member in the place of the one with its name, or behind all others. -/
def put (name : String) (node : Node) : Members → Members
  | [] => [(name, node)]
  | (other, old) :: rest =>
    if other = name then (name, node) :: rest else (other, old) :: put name node rest

/-- Changes the table at a path below a table, creating the tables on the way. Dotted keys pass no
table that has a header; no path passes a finished value, and in a list of tables it takes the
last one. -/
def update (viaDots : Bool) (change : Origin → Members → Option Members) :
    List String → Origin → Members → Option Members
  | [], origin, members => change origin members
  | name :: path, _, members =>
    match members.lookup name with
    | none => do
      let created := if viaDots then Origin.dotted else .implied
      let inner ← update viaDots change path created []
      return put name (.table created inner) members
    | some (.value _) => none
    | some (.table origin inner) =>
      if viaDots && origin == .defined then none
      else do
        let inner ← update viaDots change path origin inner
        return put name (.table origin inner) members
    | some (.tables (.table origin inner :: before)) => do
      let inner ← update viaDots change path origin inner
      return put name (.tables (.table origin inner :: before)) members
    | some (.tables _) => none

/-- Adds the value of a key, whose last part names the new member. -/
def insertKey (key : List String) (value : Datum) (origin : Origin) (members : Members) :
    Option Members :=
  match key.getLast? with
  | none => none
  | some name =>
    let path := key.dropLast
    update true (fun origin members =>
      if (origin == .dotted) == path.isEmpty || (members.lookup name).isSome then none
      else some (put name (.value value) members)) path origin members

/-- Opens the table of a header. -/
def openTable (header : List String) (members : Members) : Option Members :=
  match header.getLast? with
  | none => none
  | some name =>
    update false (fun _ members =>
      match members.lookup name with
      | none => some (put name (.table .defined []) members)
      | some (.table .implied inner) => some (put name (.table .defined inner) members)
      | some _ => none) header.dropLast .defined members

/-- Opens a new element of the list of tables of a header in double brackets. -/
def openElement (header : List String) (members : Members) : Option Members :=
  match header.getLast? with
  | none => none
  | some name =>
    update false (fun _ members =>
      match members.lookup name with
      | none => some (put name (.tables [.table .defined []]) members)
      | some (.tables elements) =>
        some (put name (.tables (.table .defined [] :: elements)) members)
      | some _ => none) header.dropLast .defined members

end Members

mutual

/-- The finished value of a member. -/
def Node.datum : Node → Datum
  | .value value => value
  | .table _ members => .table (datumOfMembers members)
  | .tables elements => .list (datumOfElements [] elements)

/-- The finished members of a table. -/
def datumOfMembers : List (String × Node) → List (String × Datum)
  | [] => []
  | (name, node) :: rest => (name, node.datum) :: datumOfMembers rest

/-- The finished elements of a list of tables, in the order of their headers. -/
def datumOfElements (after : List Datum) : List Node → List Datum
  | [] => after
  | node :: rest => datumOfElements (node.datum :: after) rest

end

end Interop.Toml
