import Interop.AliasTable
import Interop.DependencyOrder
import Interop.Namespace.Build

/-! The graph of repositories. Repositories are registered first, with their includes unbound;
linking binds every include to the repository that declares the included namespace. -/

namespace Interop

/-- A dependency of a repository. It is bound at most once. -/
structure Include where
  key : NamespaceKey
  /-- The canonical name of the including namespace. -/
  owner : String
  bound : Option RepositoryId := none
deriving DecidableEq, Repr, Inhabited

namespace Include

/-- Binds an include; one that is bound already stays with its repository. -/
def bind (dependency : Include) (id : RepositoryId) : Except Fault Include :=
  match dependency.bound with
  | none => .ok { dependency with bound := some id }
  | some earlier =>
    if earlier = id then .ok dependency
    else .error (.includeRebound dependency.key.canonicalName)

def unbound (dependency : Include) : Fault :=
  .unresolvedDependency dependency.key.canonicalName dependency.owner

def target (dependency : Include) : Except Fault RepositoryId :=
  match dependency.bound with
  | some id => .ok id
  | none => .error dependency.unbound

end Include

/-- A namespace together with its includes. -/
structure Repository where
  content : Namespace
  includes : List Include
deriving Repr, Inhabited

namespace Repository

def key (r : Repository) : NamespaceKey := r.content.key

def aliasTable (r : Repository) : AliasTable := .ofAliases r.content.aliases

def isLinked (r : Repository) : Bool := r.includes.all (·.bound.isSome)

/-- What the order of building needs to know. -/
def entry (r : Repository) : IncludeEntry := ⟨r.key, r.includes.map (·.key)⟩

/-- The keys that a description gives to its namespace and its includes. -/
def entryOfDescription (d : Description) : Except Fault IncludeEntry := do
  let key ← NamespaceKey.ofDescription d.namespaceInfo
  let includes ← d.includes.mapM key.ofInclude
  return ⟨key, includes⟩

/-- The repository that a description gives, with its includes unbound. -/
def ofDescription (d : Description) : Logged Fault Repository := do
  let entry ← Logged.ofExcept (entryOfDescription d)
  let content ← Namespace.ofDescription entry.key d.namespaceInfo
  return ⟨content, entry.includes.map (⟨·, entry.key.canonicalName, none⟩)⟩

end Repository

/-- All repositories of a run, how they include one another, and the order in which they were
linked. -/
structure Graph where
  repositories : List Repository := []
  /-- The positions of the repositories by their keys, the last one registered first. -/
  positions : List (NamespaceKey × RepositoryId) := []
  /-- Every included repository with one that includes it, the last pair first. -/
  edges : List (RepositoryId × RepositoryId) := []
  buildOrder : List RepositoryId := []
deriving Repr, Inhabited

namespace Graph

def size (g : Graph) : Nat := g.repositories.length

def ids (g : Graph) : List RepositoryId := (List.range g.size).map (⟨·⟩)

def repository? (g : Graph) (id : RepositoryId) : Option Repository := g.repositories[id.index]?

def includesOf (g : Graph) (id : RepositoryId) : List Include :=
  (g.repository? id).elim [] (·.includes)

/-- The repositories that the includes of a repository are bound to, in the order of the
includes. -/
def boundOf (g : Graph) (id : RepositoryId) : List RepositoryId :=
  (g.includesOf id).filterMap (·.bound)

def canonicalName (g : Graph) (id : RepositoryId) : String :=
  (g.repository? id).elim "" (·.key.canonicalName)

def find? (g : Graph) (key : NamespaceKey) : Option RepositoryId := g.positions.lookup key

/-- The position of the first repository with a name, or with a name and version in one word. -/
def findNamespace? (g : Graph) (name : String) : Option RepositoryId :=
  (g.repositories.findIdx? fun r => r.key.name == name || r.key.canonicalName == name).map (⟨·⟩)

/-- Positions in ascending order. -/
def sorted (ids : List RepositoryId) : List RepositoryId :=
  ids.mergeSort fun a b => a.index ≤ b.index

/-- The repositories that a repository includes, in ascending order. -/
def dependencies (g : Graph) (id : RepositoryId) : List RepositoryId :=
  sorted ((g.edges.filter (·.2 = id)).map (·.1))

/-- The repositories that include a repository, in ascending order. -/
def dependents (g : Graph) (id : RepositoryId) : List RepositoryId :=
  sorted ((g.edges.filter (·.1 = id)).map (·.2))

/-- Adds a repository behind the others, unless one has its key already. Its includes stay as they
are. -/
def register (g : Graph) (r : Repository) : Except Fault RepositoryId × Graph :=
  if (g.find? r.key).isSome then (.error (.duplicateNamespace r.key.canonicalName), g)
  else
    (.ok ⟨g.size⟩, { g with
      repositories := g.repositories ++ [r],
      positions := (r.key, ⟨g.size⟩) :: g.positions })

/-- Puts an include in the place of the one at a position among those of a repository. -/
def putInclude (g : Graph) (id : RepositoryId) (position : Nat) (dependency : Include) : Graph :=
  { g with
    repositories := g.repositories.modify id.index fun r =>
      { r with includes := r.includes.set position dependency } }

/-- Notes that a repository includes another one, unless that is noted already. -/
def addEdge (g : Graph) (included includer : RepositoryId) : Graph :=
  if g.edges.contains (included, includer) then g
  else { g with edges := (included, includer) :: g.edges }

/-- Binds the include at a position among those of a repository to the repository with its key. -/
def bindInclude (g : Graph) (id : RepositoryId) (position : Nat) : Except Fault Unit × Graph :=
  match (g.includesOf id)[position]? with
  | none => (.ok (), g)
  | some dependency =>
    match g.find? dependency.key with
    | none =>
      (.error (.unresolvedDependency dependency.key.canonicalName (g.canonicalName id)), g)
    | some target =>
      match dependency.bind target with
      | .error fault => (.error fault, g)
      | .ok bound => (.ok (), (g.putInclude id position bound).addEdge target id)

/-- The places of all includes of some repositories. -/
def includePlaces (g : Graph) (ids : List RepositoryId) : List (RepositoryId × Nat) :=
  ids.flatMap fun id => (List.range (g.includesOf id).length).map (id, ·)

/-- Binds the includes at some places one after another. Those bound before a failure stay
bound. -/
def bindAll (g : Graph) : List (RepositoryId × Nat) → Except Fault Unit × Graph
  | [] => (.ok (), g)
  | (id, position) :: rest =>
    match g.bindInclude id position with
    | (.ok (), g) => g.bindAll rest
    | (.error fault, g) => (.error fault, g)

/-- Binds every include of every repository and determines the order of building. -/
def link (g : Graph) : Logged Fault Unit × Graph :=
  match dependencyOrder (g.repositories.map (·.entry)) with
  | .error fault => (.fail fault, g)
  | .ok order =>
    let buildOrder := order.map fun i => (⟨i⟩ : RepositoryId)
    match g.bindAll (g.includePlaces buildOrder) with
    | (.error fault, g) => (.fail fault, g)
    | (.ok (), g) =>
      (.note .debug s!"Linked {buildOrder.length} repositories", { g with buildOrder })

/-- Builds and registers the descriptions at some positions. -/
def registerAll (descriptions : List Description) (g : Graph) : List Nat → Logged Fault Graph
  | [] => pure g
  | i :: rest =>
    match descriptions[i]? with
    | none => registerAll descriptions g rest
    | some d => do
      let r ← Repository.ofDescription d
      Logged.note .debug s!"Registered {r.key.canonicalName}"
      let (registered, g) := g.register r
      let _ ← Logged.ofExcept registered
      registerAll descriptions g rest

/-- The linked graph of descriptions, each built after those that it includes. -/
def build (descriptions : List Description) : Logged Fault Graph := do
  let entries ← Logged.ofExcept (descriptions.mapM Repository.entryOfDescription)
  let order ← Logged.ofExcept (dependencyOrder entries)
  let g ← registerAll descriptions {} order
  let (linked, g) := g.link
  linked
  return g

end Graph

end Interop
