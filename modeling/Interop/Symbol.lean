/-! Addresses of repositories and of the type symbols that they declare. -/

namespace Interop

structure RepositoryId where
  index : Nat
deriving DecidableEq, Hashable, Repr, Inhabited

def RepositoryId.label (id : RepositoryId) : String := s!"#{id.index}"

inductive SymbolKind
  | classType
  | interfaceType
  | record
  | union
  | enumeration
  | bitfield
  | callback
  | alias
  /-- A record that is the layout of a class or interface. -/
  | classStruct
deriving DecidableEq, Hashable, Repr, Inhabited

def SymbolKind.label : SymbolKind → String
  | .classType => "class"
  | .interfaceType => "interface"
  | .record => "record"
  | .union => "union"
  | .enumeration => "enumeration"
  | .bitfield => "bitfield"
  | .callback => "callback"
  | .alias => "alias"
  | .classStruct => "class-struct"

/-- The address of a symbol: the repository that declares it, its kind, and its position among the
symbols of that kind. -/
structure SymbolRef where
  repository : RepositoryId
  kind : SymbolKind
  index : Nat
deriving DecidableEq, Hashable, Repr, Inhabited

/-- Whether a symbol is declared outside a repository. -/
def SymbolRef.isExternal (symbol : SymbolRef) (current : RepositoryId) : Bool :=
  symbol.repository != current

end Interop
