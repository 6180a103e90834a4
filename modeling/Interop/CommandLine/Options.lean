/-! Reading options and operands from the words of a command line. `--name value` and `--name=value`
give a value, one-letter options may stand behind one dash, and what follows `--` are operands. -/

namespace Interop

/-- What an option takes. -/
inductive OptionKind
  /-- Nothing; it is given once. -/
  | flag
  /-- One value; it is given once. -/
  | value
  /-- One value each time it is given. -/
  | values
  /-- Nothing, and nothing behind it is read. -/
  | final
deriving DecidableEq, Repr, Inhabited

/-- An option that a command knows. -/
structure OptionSpec where
  long : String
  short : Option Char := none
  kind : OptionKind
deriving DecidableEq, Repr, Inhabited

structure ScannedWords where
  /-- The options given, each with its value, which is empty for flags. -/
  options : List (String × String) := []
  operands : List String := []
  /-- The option whose value comes next. -/
  pending : Option OptionSpec := none
  /-- Whether only operands follow. -/
  onlyOperands : Bool := false
  /-- Whether an option was given after which nothing is read. -/
  ended : Bool := false
deriving Repr, Inhabited

namespace ScannedWords

def has (s : ScannedWords) (long : String) : Bool := s.options.any (·.1 == long)

def values (s : ScannedWords) (long : String) : List String :=
  (s.options.filter (·.1 == long)).map (·.2)

def value? (s : ScannedWords) (long : String) : Option String := s.options.lookup long

/-- One more option; nothing if it may not be repeated. -/
def record (s : ScannedWords) (option : OptionSpec) (value : String) : Option ScannedWords :=
  if option.kind ≠ .values ∧ s.has option.long then none
  else some { s with options := s.options ++ [(option.long, value)], pending := none }

def isOptionWord (word : String) : Bool :=
  word.toList.head? == some '-' && word != "-"

/-- Reads the letters behind one dash. -/
def scanLetters (specs : List OptionSpec) : List Char → ScannedWords → Option ScannedWords
  | [], s => some s
  | c :: rest, s => do
    let option ← specs.find? (·.short == some c)
    match option.kind with
    | .flag => scanLetters specs rest (← s.record option "")
    | .final => return { s with ended := true }
    | _ =>
      match rest with
      | [] => return { s with pending := some option }
      | '=' :: value => s.record option (String.ofList value)
      | value => s.record option (String.ofList value)

/-- Reads a name behind two dashes, with the value behind an equals sign if there is one. -/
def scanName (specs : List OptionSpec) (word : List Char) (s : ScannedWords) :
    Option ScannedWords := do
  let (name, rest) := word.span (· != '=')
  let option ← specs.find? (·.long == String.ofList name)
  match option.kind, rest with
  | .flag, [] => s.record option ""
  | .flag, _ => none
  | .final, [] => return { s with ended := true }
  | .final, _ => none
  | _, [] => return { s with pending := some option }
  | _, _ :: value => s.record option (String.ofList value)

/-- Reads one word. -/
def scanWord (specs : List OptionSpec) (s : ScannedWords) (word : String) : Option ScannedWords :=
  let operand : ScannedWords := { s with operands := s.operands ++ [word] }
  if s.onlyOperands then some operand
  else
    match s.pending with
    | some option => if isOptionWord word then none else s.record option word
    | none =>
      if isOptionWord word then
        match word.toList with
        | ['-', '-'] => some { s with onlyOperands := true }
        | '-' :: '-' :: name => scanName specs name s
        | _ :: letters => scanLetters specs letters s
        | [] => none
      else some operand

/-- Reads all words. -/
def scan (specs : List OptionSpec) (words : List String) : Option ScannedWords := do
  let s ← words.foldlM (scanWord specs) {}
  if s.pending.isSome then none else some s

end ScannedWords

end Interop
