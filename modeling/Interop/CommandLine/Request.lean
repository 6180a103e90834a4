import Interop.CommandLine.Options
import Interop.Settings

/-! What the words of a command line ask for. -/

namespace Interop

inductive Command
  | generate (inputs : List String) (configuration : Option String) (settings : Settings)
  | classify (spellings : List String)
  /-- Prints the order of building, or what one namespace includes and what includes it. -/
  | graph (inputs : List String) (focus : Option String)
deriving DecidableEq, Repr, Inhabited

/-- A run: what it does and how it speaks to the user. -/
structure Invocation where
  verbose : Bool
  color : Bool
  command : Command
deriving DecidableEq, Repr, Inhabited

inductive Request
  | version
  | run (invocation : Invocation)
deriving DecidableEq, Repr, Inhabited

namespace Request

def commonOptions : List OptionSpec := [
  { long := "verbose", short := some 'v', kind := .flag },
  { long := "no-color", kind := .flag }]

def leadingOptions : List OptionSpec :=
  commonOptions ++ [{ long := "version", short := some 'V', kind := .final }]

def generateOptions : List OptionSpec :=
  commonOptions ++ [
    { long := "config", kind := .value },
    { long := "output", short := some 'o', kind := .value },
    { long := "strict", kind := .flag },
    { long := "require", kind := .values },
    { long := "namespace", kind := .values },
    { long := "jobs", short := some 'j', kind := .value }]

def graphOptions : List OptionSpec := commonOptions ++ [{ long := "namespace", kind := .value }]

/-- The variable of the environment that names the folder of the output. -/
def outputVariable : String := "GIRBIND_OUTPUT"

/-- The number that decimal digits write, behind a plus sign if there is one. -/
def count? (text : String) : Option Nat :=
  let digits := match text.toList with
    | '+' :: digits => digits
    | digits => digits
  let n := digits.foldl (fun n c => 10 * n + (c.toNat - 48)) 0
  if digits.isEmpty || !digits.all Char.isDigit || wordLimit ≤ n then none else some n

/-- A value that is read if it is there, and that has to be readable then. -/
def optionally {α : Type} (read : String → Option α) : Option String → Option (Option α)
  | none => some none
  | some text => (read text).map some

/-- A path given by an option is not empty. -/
def path? (text : String) : Option String := if text.isEmpty then none else some text

/-- The words that a command works on; there has to be one. -/
def operands? (s : ScannedWords) : Option (List String) :=
  if s.operands.isEmpty then none else some s.operands

/-- The command `generate`; a variable of the environment names the folder of the output if no
option does. -/
def generate? (s : ScannedWords) (outputVariable : Option String) : Option Command := do
  let inputs ← operands? s
  let configuration ← optionally path? (s.value? "config")
  let output ← optionally path? (s.value? "output" <|> outputVariable)
  let jobs ← optionally count? (s.value? "jobs")
  return .generate inputs configuration {
    bestEffort := if s.has "strict" then some false else none,
    mandatory := s.values "require",
    namespaces := s.values "namespace",
    jobs, output }

/-- A command by its name, with what was read behind it. -/
def command? (name : String) (words : List String) (outputVariable : Option String) :
    Option (ScannedWords × Command) :=
  match name with
  | "generate" => do
    let s ← ScannedWords.scan generateOptions words
    return (s, ← generate? s outputVariable)
  | "classify" => do
    let s ← ScannedWords.scan commonOptions words
    return (s, .classify (← operands? s))
  | "graph" => do
    let s ← ScannedWords.scan graphOptions words
    return (s, .graph (← operands? s) (s.value? "namespace"))
  | _ => none

/-- What words ask for behind those that were read already. -/
def behind (outputVariable : Option String) (leading : ScannedWords) :
    List String → Option Request
  | [] => none
  | word :: rest =>
    if leading.onlyOperands then none
    else if ScannedWords.isOptionWord word then do
      let leading ← ScannedWords.scanWord leadingOptions leading word
      if leading.ended then return .version else behind outputVariable leading rest
    else do
      let (s, command) ← command? word rest outputVariable
      let isGiven (long : String) := leading.has long || s.has long
      return .run ⟨isGiven "verbose", !isGiven "no-color", command⟩

/-- What words ask for, if they are the words of a command line. -/
def ofWords (words : List String) (outputVariable : Option String) : Option Request :=
  behind outputVariable {} words

end Request

end Interop
