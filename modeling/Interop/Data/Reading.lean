import Interop.Data.Datum

/-! Reading structures from data. A structure is given by a table of its members or by the list of
its members in their order; unknown members are passed over and absent ones take a default. -/

namespace Interop

/-- What differs between data formats when structures are read from them. -/
structure DataFormat where
  /-- Whether a list may hold more items than the structure that it gives has members. -/
  allowsSurplus : Bool
deriving DecidableEq, Repr

namespace DataFormat

/-- Structures in JSON take no surplus items. -/
def json : DataFormat := ⟨false⟩

/-- Structures in TOML pass over surplus items. -/
def toml : DataFormat := ⟨true⟩

end DataFormat

/-- The first natural number that does not fit into 64 bits. -/
def wordLimit : Nat := 0x10000000000000000

namespace Datum

/-- The members of a structure with the given member names: nothing if the value gives no such
structure, which is so when a table has one of the names twice. -/
def structure? (format : DataFormat) (names : List String) :
    Datum → Option (String → Option Datum)
  | .table members =>
    if names.all fun name => (members.filter (·.1 == name)).length ≤ 1 then
      some fun name => members.lookup name
    else none
  | .list items =>
    if items.length ≤ names.length || format.allowsSurplus then
      some fun name => (names.zip items).lookup name
    else none
  | _ => none

def text? : Datum → Option String
  | .text s => some s
  | _ => none

def boolean? : Datum → Option Bool
  | .boolean b => some b
  | _ => none

/-- A natural number of 64 bits. -/
def natural? : Datum → Option Nat
  | .integer n => if 0 ≤ n ∧ n < wordLimit then some n.toNat else none
  | _ => none

def optional? {α : Type} (read : Datum → Option α) : Option Datum → Option (Option α)
  | none => some none
  | some .null => some none
  | some d => (read d).map some

/-- A list of values, empty when absent. -/
def list? {α : Type} (read : Datum → Option α) : Option Datum → Option (List α)
  | none => some []
  | some (.list items) => items.mapM read
  | some _ => none

/-- A truth value, false when absent. -/
def flag? : Option Datum → Option Bool
  | none => some false
  | some d => d.boolean?

end Datum

end Interop
