/-! Paths of files. A path keeps the text that wrote it; comparison and sorting go by its parts, so
that `sub//a` and `sub/a` are the same and `a/z` comes before `a.json`. -/

namespace Interop

inductive PathPart
  | root
  /-- The folder itself; it counts only at the start of a path. -/
  | current
  | parent
  | name (text : String)
deriving DecidableEq, Repr, Inhabited

namespace PathPart

def rank : PathPart → Nat
  | root => 0
  | current => 1
  | parent => 2
  | name _ => 3

def text : PathPart → String
  | root => ""
  | current => "."
  | parent => ".."
  | name text => text

/-- Whether a part comes before another one. -/
def before (a b : PathPart) : Bool :=
  a.rank < b.rank || (a.rank == b.rank && decide (a.text < b.text))

end PathPart

structure Path where
  text : String
deriving DecidableEq, Repr, Inhabited

namespace Path

/-- The pieces of a text between its slashes. -/
def splitSlashes : List Char → List (List Char)
  | [] => [[]]
  | c :: rest =>
    if c = '/' then [] :: splitSlashes rest
    else
      match splitSlashes rest with
      | [] => [[c]]
      | piece :: others => (c :: piece) :: others

/-- The pieces of a path between its slashes, empty ones included. -/
def segments (p : Path) : List String := (splitSlashes p.text.toList).map String.ofList

def isAbsolute (p : Path) : Bool := p.text.toList.head? == some '/'

/-- The part that a piece behind the first one writes, if it writes any. -/
def laterPart? : String → Option PathPart
  | "" => none
  | "." => none
  | ".." => some .parent
  | name => some (.name name)

def parts (p : Path) : List PathPart :=
  match p.segments with
  | [] => []
  | first :: others =>
    let start := if p.isAbsolute then some .root
      else if first = "." then some .current
      else laterPart? first
    start.toList ++ others.filterMap laterPart?

def ofParts : List PathPart → Path
  | [.root] => ⟨"/"⟩
  | parts => ⟨"/".intercalate (parts.map (·.text))⟩

/-- The path of the folder that a path stands in. The root and the empty path stand in none. -/
def parent? (p : Path) : Option Path :=
  match p.parts.getLast? with
  | none => none
  | some .root => none
  | some _ => some (ofParts p.parts.dropLast)

def fileName? (p : Path) : Option String :=
  match p.parts.getLast? with
  | some (.name name) => some name
  | _ => none

/-- What follows the last dot of the name at the end of a path, unless the name starts with that
dot. -/
def extension? (p : Path) : Option String := do
  let name ← p.fileName?
  match name.toList.reverse.span (· != '.') with
  | (reversed, _ :: _ :: _) => some (String.ofList reversed.reverse)
  | _ => none

/-- A path inside a folder; an absolute one stays as it is. -/
def join (folder : Path) (text : String) : Path :=
  if (Path.mk text).isAbsolute || folder.text.isEmpty then ⟨text⟩
  else if folder.text.toList.getLast? = some '/' then ⟨folder.text ++ text⟩
  else ⟨folder.text ++ "/" ++ text⟩

def partsBefore : List PathPart → List PathPart → Bool
  | _, [] => false
  | [], _ :: _ => true
  | a :: as, b :: bs => a.before b || (a == b && partsBefore as bs)

/-- Whether a path comes no later than another one. -/
def notAfter (p q : Path) : Bool := !partsBefore q.parts p.parts

/-- Drops the paths that have the same parts as the one before them. -/
def dropRepeated : List Path → List Path
  | p :: q :: rest =>
    if p.parts = q.parts then dropRepeated (p :: rest) else p :: dropRepeated (q :: rest)
  | paths => paths
termination_by paths => paths.length

/-- The paths in ascending order, of those with the same parts only the first one. -/
def sorted (paths : List Path) : List Path := dropRepeated (paths.mergeSort notAfter)

end Path

end Interop
