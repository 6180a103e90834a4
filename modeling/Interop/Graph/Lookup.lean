import Interop.Graph

/-! Looking up names and spellings in a linked graph. A repository sees its own symbols first and
then those of the repositories it includes, nearest first. -/

namespace Interop

/-- Where a type name leads when aliases are followed. -/
inductive NameTarget
  /-- To a symbol that is no alias. -/
  | symbol (address : SymbolRef)
  /-- To an alias of a native type. -/
  | native (spec : TypeSpec)
deriving DecidableEq, Repr, Inhabited

namespace Graph

/-- The repositories that a repository sees through bound includes, itself first and then
breadth-first in the order of the includes. -/
def reachable (g : Graph) (id : RepositoryId) : List RepositoryId := Reach.nodes g.boundOf g.size id

def namespaceName (g : Graph) (id : RepositoryId) : String :=
  (g.repository? id).elim "" (·.key.name)

/-- The symbol that a repository itself declares under an unqualified name. -/
def findIn (g : Graph) (id : RepositoryId) (name : String) : Option SymbolRef := do
  let (kind, index) ← (← g.repository? id).content.lookup name
  return ⟨id, kind, index⟩

/-- What an include contributes to the search for a name: a symbol, or a fault if the include is
unbound. Includes of other namespaces than the one that qualifies the name contribute nothing. -/
def lookupVia (g : Graph) (qualifier : Option String) (name : String) (dependency : Include) :
    Option (Except Fault SymbolRef) :=
  if qualifier.any (· != dependency.key.name) then none
  else
    match dependency.bound with
    | none => some (.error dependency.unbound)
    | some id => (g.findIn id name).map .ok

/-- The symbol that a name stands for in a repository. Unqualified names are searched in the
repository and then in what it includes; qualified names only in the namespace that they name. -/
def lookupSymbol (g : Graph) (id : RepositoryId) (name : String) : Except Fault SymbolRef :=
  let (qualifier, localName) := splitQualified name
  let unresolved := Except.error (Fault.unresolvedSymbol name (g.canonicalName id))
  let isOwn := qualifier == some (g.namespaceName id)
  let own := if qualifier.isNone || isOwn then g.findIn id localName else none
  match own with
  | some symbol => .ok symbol
  | none =>
    if isOwn then unresolved
    else
      (((g.reachable id).flatMap g.includesOf).findSome?
        (g.lookupVia qualifier localName)).getD unresolved

/-- The name of the namespace of a symbol and its own native name, with a dot between. -/
def qualifiedName (g : Graph) (symbol : SymbolRef) : String :=
  let name := match (g.repository? symbol.repository).bind
      (·.content.symbolName? symbol.kind symbol.index) with
    | some name => name.native
    | none => s!"<{symbol.kind.label} #{symbol.index}>"
  s!"{g.namespaceName symbol.repository}.{name}"

/-- The name of a symbol in the generated code of a repository: qualified if another repository
declares it. -/
def managedName (g : Graph) (symbol : SymbolRef) (current : RepositoryId) : String :=
  let name := match (g.repository? symbol.repository).bind
      (·.content.symbolName? symbol.kind symbol.index) with
    | some name => name.managed
    | none => "IntPtr"
  if symbol.isExternal current then s!"{g.namespaceName symbol.repository}.{name}" else name

/-- Whether values of a symbol are passed as handles. -/
def isReferenceType (g : Graph) (symbol : SymbolRef) : Bool :=
  (g.repository? symbol.repository).any (·.content.isReferenceType symbol.kind symbol.index)

def category (g : Graph) (symbol : SymbolRef) : Category :=
  (g.repository? symbol.repository).elim .unknown (·.content.category symbol.kind symbol.index)

def alias? (g : Graph) (symbol : SymbolRef) : Option Alias :=
  if symbol.kind = .alias then
    (g.repository? symbol.repository).bind (·.content.aliases[symbol.index]?)
  else none

def aliasCount (g : Graph) : Nat := (g.repositories.flatMap (·.content.aliases)).length

/-- The name at which an alias has to be followed further; an alias of a known native type has
none. -/
def nextName? (target : TypeSpec) : Option String :=
  if target.nativeSpelling.any fun s => (classify s).category != .unknown then none
  else target.name

/-- Follows aliases from a symbol on. The symbols passed so far stand in `passed`, the last one
first; meeting one of them again is a cycle. -/
def followAliases (g : Graph) : Nat → SymbolRef → List SymbolRef → Except Fault NameTarget
  | 0, _, passed => .error (.aliasCycle (passed.reverse.map g.qualifiedName))
  | steps + 1, current, passed =>
    match g.alias? current with
    | none => .ok (.symbol current)
    | some found =>
      match nextName? found.target.spec with
      | none => .ok (.native found.target.spec)
      | some name =>
        match g.lookupSymbol current.repository name with
        | .error fault => .error fault
        | .ok next =>
          if passed.contains next then
            .error (.aliasCycle ((next :: passed).reverse.map g.qualifiedName))
          else g.followAliases steps next (next :: passed)

/-- Where a type name leads in a repository. Every alias is followed from the repository that
declares it. -/
def resolveName (g : Graph) (id : RepositoryId) (name : String) : Except Fault NameTarget := do
  let start ← g.lookupSymbol id name
  g.followAliases (g.aliasCount + 1) start [start]

/-- Replaces an alias spelling by what it stands for, once, by the first alias table that knows it:
that of the repository itself, or the nearest of those that it includes. -/
def aliasHop (g : Graph) (id : RepositoryId) (s : Spelling) : Option Spelling :=
  (g.reachable id).findSome? fun other => (g.repository? other).bind (·.aliasTable.hop s)

end Graph

end Interop
