/-! Messages for the user: each names the offending declaration, the cause and, where possible, a
fix. -/

namespace Interop

inductive Severity
  | error
  | warning
  | note
deriving DecidableEq, Repr, Inhabited

namespace Severity

def label : Severity → String
  | .error => "error"
  | .warning => "warning"
  | .note => "note"

def colored (s : Severity) : String :=
  let code := match s with
    | .error => "31"
    | .warning => "33"
    | .note => "36"
  "\x1b[1;" ++ code ++ "m" ++ s.label ++ "\x1b[0m"

end Severity

/-- A message with the lines that explain it. -/
structure Diagnostic where
  severity : Severity
  message : String
  context : List String := []
  suggestions : List String := []
  location : Option String := none
deriving DecidableEq, Repr, Inhabited

namespace Diagnostic

def error (message : String) : Diagnostic := ⟨.error, message, [], [], none⟩

def warning (message : String) : Diagnostic := ⟨.warning, message, [], [], none⟩

def withContext (d : Diagnostic) (line : String) : Diagnostic :=
  { d with context := d.context ++ [line] }

def withSuggestion (d : Diagnostic) (line : String) : Diagnostic :=
  { d with suggestions := d.suggestions ++ [line] }

def withLocation (d : Diagnostic) (path : String) : Diagnostic := { d with location := some path }

def asWarning (d : Diagnostic) : Diagnostic := { d with severity := .warning }

/-- The lines of a message: the message itself, its file, its context, its suggestions. -/
def lines (d : Diagnostic) (color : Bool) : List String :=
  [(if color then d.severity.colored else d.severity.label) ++ ": " ++ d.message]
    ++ (d.location.toList.map ("  --> " ++ ·))
    ++ d.context.map ("  = " ++ ·)
    ++ d.suggestions.map ("  " ++ ·)

def render (d : Diagnostic) (color : Bool) : String :=
  String.join ((d.lines color).map (· ++ "\n"))

end Diagnostic

end Interop
