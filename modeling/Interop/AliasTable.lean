import Interop.Declaration

/-! The alias table of a namespace: which native spelling an alias spelling stands for. A look-up
makes one hop; chains of aliases are followed by name elsewhere. -/

namespace Interop

/-- Pairs of an alias spelling and the spelling it stands for, at most one pair per alias. -/
structure AliasTable where
  entries : List (Spelling × Spelling) := []
deriving Repr, Inhabited

namespace AliasTable

/-- The target of a spelling that is itself an alias. -/
def find? (table : AliasTable) (s : Spelling) : Option Spelling := table.entries.lookup s

/-- Adds an alias; a later one replaces an earlier one of the same spelling. -/
def insert (table : AliasTable) (source target : Spelling) : AliasTable :=
  ⟨(source, target) :: table.entries.filter (·.1 != source)⟩

def size (table : AliasTable) : Nat := table.entries.length

/-- The table of the declared aliases whose targets have a native spelling. -/
def ofAliases (aliases : List Alias) : AliasTable :=
  aliases.foldl (fun table declared =>
    match declared.target.spec.ctype with
    | some target => table.insert declared.ctype target
    | none => table) {}

/-- Replaces an alias by what it stands for, once. Pointer markers behind the alias are carried over
to its target. -/
def hop (table : AliasTable) (s : Spelling) : Option Spelling :=
  match table.find? s with
  | some target => some target
  | none =>
    if s.pointerDepth = 0 then none
    else (table.find? (.ofString s.base)).map (·.addPointers s.pointerDepth)

end AliasTable

end Interop
