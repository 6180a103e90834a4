import Interop.CommandLine.Request
import Interop.Loading
import Interop.Report.Files

/-! Running a command line on a tree of files. The result holds everything that the run prints and
the files as it leaves them. -/

namespace Interop

/-- What a run has printed and the files that it works on. -/
structure Session where
  tree : FileTree
  stdout : String := ""
  stderr : String := ""
deriving Inhabited

/-- What a run leaves behind. -/
structure Outcome extends Session where
  exitCode : Nat
deriving Inhabited

/-- A computation that prints and works on files; what it did before a failure stays. -/
abbrev Running := ExceptT RunError (StateM Session)

namespace Event

/-- The name of the level in front of a message, in colour on a terminal. -/
def levelLabel (level : Level) (color : Bool) : String :=
  let (label, code) := match level with
    | .debug => ("DEBUG", "34")
    | .info => (" INFO", "32")
    | .warn => (" WARN", "33")
  if color then "\x1b[" ++ code ++ "m" ++ label ++ "\x1b[0m" else label

/-- A character as it stands in the line of an event. The control characters that could start a
command to a terminal are written out: bell, backspace, form feed, escape and delete by two
hexadecimal digits, and the controls from U+0080 to U+009F by their number in braces. -/
def spelled (c : Char) : String :=
  let n := c.toNat
  let digits := String.ofList (Nat.toDigits 16 n)
  if n == 0x07 || n == 0x08 || n == 0x0C then "\\x0" ++ digits
  else if n == 0x1B || n == 0x7F then "\\x" ++ digits
  else if 0x80 ≤ n && n ≤ 0x9F then "\\u\x7b" ++ digits ++ "\x7d"
  else c.toString

/-- The line of an event. -/
def line (color : Bool) (event : Event) : String :=
  levelLabel event.level color ++ " " ++ String.join (event.message.toList.map spelled) ++ "\n"

end Event

namespace Running

def printLine (text : String) : Running Unit :=
  modifyThe Session fun s => { s with stdout := s.stdout ++ text ++ "\n" }

/-- Prints something that is no result. -/
def remark (text : String) : Running Unit :=
  modifyThe Session fun s => { s with stderr := s.stderr ++ text }

/-- Prints the events of a computation that are to be shown, and goes on with its result. -/
def logged {α : Type} (i : Invocation) (x : Logged RunError α) : Running α := do
  let shown := x.events.filter fun event => i.verbose || event.level != .debug
  remark (String.join (shown.map (Event.line i.color)))
  liftExcept x.outcome

/-- The same, with an explanation of the fault if the computation fails by one. -/
def explained {α : Type} (i : Invocation) (x : Logged RunError α) : Running α := do
  try logged i x
  catch error => do
    match error.fault? with
    | some fault => remark (fault.diagnostic.render i.color)
    | none => pure ()
    throw error

def filing {α : Type} (x : Filing α) : Running α := do
  let (result, tree) := x.run.run (← getThe Session).tree
  modifyThe Session fun s => { s with tree }
  liftExcept result

def homePath (tree : FileTree) : Path := ⟨"/" ++ "/".intercalate tree.home⟩

/-- The folder of the output if nothing names one. -/
def defaultOutput : String := "bindings"

def skippedDiagnostic (skipped : SkippedDeclaration) : Diagnostic :=
  ((Diagnostic.warning s!"skipped `{skipped.identifier}`").withContext
    skipped.fault.message).withContext s!"code: {skipped.fault.code}"

/-- Generates the declarations of descriptions and writes them into files. -/
def generate (i : Invocation) (inputs : List String) (configuration : Option String)
    (given : Settings) : Running Unit := do
  let tree := (← getThe Session).tree
  let found ← logged i (Settings.find tree configuration (homePath tree))
  let settings := found.merge given
  let descriptions ← logged i (Description.loadAll tree inputs)
  logged i (Logged.note .info s!"Loaded {descriptions.length} descriptions")
  let report ← explained i (generateFromDescriptions descriptions settings.options)
  remark (String.join (report.skipped.map fun s => (skippedDiagnostic s).render i.color))
  let written ← filing (report.write ⟨settings.output.getD defaultOutput⟩)
  printLine (s!"Generated {report.declarations.length} declarations in "
    ++ s!"{report.namespaces.length} namespaces ({report.skipped.length} skipped)")
  written.forM fun path => printLine s!"  wrote {path.text}"
  if !report.isComplete then
    throw (.stated ("mandatory declarations were not generated: "
      ++ ", ".intercalate report.missingMandatory))

def classificationLine (s : Spelling) : String :=
  let c := classify s
  let remarks := if !c.isPointer then "" else if c.isPrimitive then " [pointer, by-ref]"
    else " [pointer]"
  s!"{s.text}: {c.category.label}{remarks}"

def focusLines (g : Graph) (id : RepositoryId) : List String :=
  let indented (ids : List RepositoryId) := ids.map fun other => "    " ++ g.canonicalName other
  [g.canonicalName id, "  includes:"] ++ indented (g.dependencies id)
    ++ ["  included by:"] ++ indented (g.dependents id)

def orderLines (g : Graph) : List String :=
  (g.buildOrder.filterMap g.repository?).zipIdx.flatMap fun (r, i) =>
    s!"{i + 1}. {r.key.canonicalName} ({r.content.symbolCount} symbols)"
      :: r.includes.map fun dependency => "   └── " ++ dependency.key.canonicalName

def graph (i : Invocation) (inputs : List String) (focus : Option String) : Running Unit := do
  let descriptions ← logged i (Description.loadAll (← getThe Session).tree inputs)
  let g ← explained i ((Graph.build descriptions).mapError .fault)
  match focus with
  | none => (orderLines g).forM printLine
  | some name =>
    match g.findNamespace? name with
    | some id => (focusLines g id).forM printLine
    | none => throw (.stated s!"namespace `{name}` is not among the inputs")

def command (i : Invocation) : Running Unit :=
  match i.command with
  | .generate inputs configuration settings => generate i inputs configuration settings
  | .classify spellings =>
    spellings.forM fun text => printLine (classificationLine (.ofString text))
  | .graph inputs focus => graph i inputs focus

end Running

def versionLine : String := "girbind 0.1.0\n"

/-- What is printed when the words are no command line. -/
def usageLine : String :=
  "usage: girbind [-v] [--no-color] generate|classify|graph [options] <operands>\n"

def runWords (words : List String) (outputVariable : Option String) (tree : FileTree) : Outcome :=
  match Request.ofWords words outputVariable with
  | none => { tree, stderr := usageLine, exitCode := 2 }
  | some .version => { tree, stdout := versionLine, exitCode := 0 }
  | some (.run invocation) =>
    let (result, session) := (Running.command invocation).run.run { tree }
    match result with
    | .ok () => { session with exitCode := 0 }
    | .error error =>
      { session with stderr := session.stderr ++ "error: " ++ error.chain ++ "\n", exitCode := 1 }

end Interop
