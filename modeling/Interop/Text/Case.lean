import Interop.Text.CaseTable

/-! Uppercase and lowercase of one character by the full mappings of Unicode, under which one
character may become several. -/

namespace Interop

namespace CaseRun

/-- Whether a run maps the character with number `n`. -/
def covers (run : CaseRun) (n : Nat) : Bool :=
  run.first ≤ n && n ≤ run.last && (n - run.first) % run.step == 0

/-- What a run maps the character with number `n` to. -/
def apply (run : CaseRun) (n : Nat) : Char := Char.ofNat (n + run.distance).toNat

end CaseRun

namespace Text

/-- A character mapped by a table of runs and a table of expansions; others stay as they are. -/
def mapCase (runs : List CaseRun) (expansions : List (Nat × List Nat)) (c : Char) : List Char :=
  match expansions.lookup c.toNat with
  | some numbers => numbers.map Char.ofNat
  | none =>
    match runs.find? (·.covers c.toNat) with
    | some run => [run.apply c.toNat]
    | none => [c]

def upper : Char → List Char := mapCase CaseTable.upperRuns CaseTable.upperExpansions

def lower : Char → List Char := mapCase CaseTable.lowerRuns CaseTable.lowerExpansions

end Text

end Interop
