import Interop.Emission
import Interop.RunError

/-! Generating the declarations of the selected namespaces of a graph. A declaration that fails is
skipped and reported, or ends the run, as the options say. -/

namespace Interop

structure Options where
  /-- Whether declarations that fail are skipped. -/
  bestEffort : Bool := true
  /-- The identifiers that have to be generated. -/
  mandatory : List String := []
  /-- The namespaces to emit, by name or by name and version; all, if there are none. -/
  namespaces : List String := []
  /-- The number of workers, which no result depends on. -/
  jobs : Option Nat := none
deriving DecidableEq, Repr, Inhabited

/-- Whether a namespace is to be emitted. -/
def Options.selects (options : Options) (key : NamespaceKey) : Bool :=
  options.namespaces.isEmpty
    || options.namespaces.any fun name => name == key.name || name == key.canonicalName

inductive Work
  | callable (owner : Option SymbolName) (callable : Callable)
  | callback (callback : Callback)
  | signal (owner : SymbolName) (signal : Signal)
  | layout (name : SymbolName) (ctype : Option Spelling) (fields : List Field)
      (folder : Emitted.Folder)
  | classLayout (declared : Class)
  | enumeration (enumeration : Enumeration)
  | constant (constant : Constant)
deriving Repr, Inhabited

structure WorkItem where
  identifier : String
  place : Place
  work : Work
deriving Repr, Inhabited

namespace Emitter

/-- The items of callables of one kind. -/
def callableItems (e : Emitter) (holder : Holder) (owner : Option SymbolName)
    (kind : CallableKind) (callables : List Callable) : List WorkItem :=
  callables.zipIdx.map fun (c, i) =>
    ⟨e.identifier owner c.name.native, .callable holder kind i, .callable owner c⟩

def memberItems (e : Emitter) (holder : Holder) (owner : SymbolName) (c : Callables) :
    List WorkItem :=
  e.callableItems holder (some owner) .constructor c.constructors
    ++ e.callableItems holder (some owner) .method c.methods
    ++ e.callableItems holder (some owner) .function c.functions

def signalItems (e : Emitter) (holder : Holder) (owner : SymbolName) (signals : List Signal) :
    List WorkItem :=
  signals.zipIdx.map fun (s, i) => ⟨e.signalIdentifier owner s, .signal holder i, .signal owner s⟩

/-- The items of the layouts attached to a class or interface, each with the callables of its
record. -/
def layoutItems (e : Emitter) (owner : LayoutOwner) (name : SymbolName) (layouts : Layouts)
    (folder : Emitted.Folder) : List WorkItem :=
  layouts.toList.flatMap fun (kind, record) =>
    let holder : Holder := .layout ⟨owner, kind⟩
    ⟨e.identifier (some name) kind.label, .type holder,
        .layout record.name record.ctype record.fields folder⟩
      :: e.memberItems holder record.name record.callables

def enumerationItems (e : Emitter) (holder : Holder) (declared : Enumeration) : List WorkItem :=
  ⟨e.identifier none declared.name.native, .type holder, .enumeration declared⟩
    :: e.callableItems holder (some declared.name) .function declared.functions

def classItems (e : Emitter) (i : Nat) (c : Class) : List WorkItem :=
  ⟨e.identifier none c.name.native, .type (.classType i), .classLayout c⟩
    :: e.layoutItems (.classType i) c.name c.layouts .classes
    ++ e.memberItems (.classType i) c.name c.callables
    ++ e.signalItems (.classType i) c.name c.signals

/-- The items of an interface, which has no layout of its own. -/
def interfaceItems (e : Emitter) (i : Nat) (c : Interface) : List WorkItem :=
  e.layoutItems (.interfaceType i) c.name c.layouts .interfaces
    ++ e.memberItems (.interfaceType i) c.name c.callables
    ++ e.signalItems (.interfaceType i) c.name c.signals

def recordItems (e : Emitter) (i : Nat) (r : Record) : List WorkItem :=
  ⟨e.identifier none r.name.native, .type (.record i), .layout r.name r.ctype r.fields .records⟩
    :: e.memberItems (.record i) r.name r.callables

def unionItems (e : Emitter) (i : Nat) (u : Union) : List WorkItem :=
  ⟨e.identifier none u.name.native, .type (.union i), .layout u.name u.ctype u.fields .unions⟩
    :: e.memberItems (.union i) u.name u.callables

/-- All items of a namespace, in the order of the output. -/
def items (e : Emitter) (ns : Namespace) : List WorkItem :=
  (ns.enumerations.zipIdx.flatMap fun (d, i) => e.enumerationItems (.enumeration i) d)
    ++ (ns.bitfields.zipIdx.flatMap fun (d, i) => e.enumerationItems (.bitfield i) d)
    ++ (ns.callbacks.zipIdx.map fun (c, i) =>
      ⟨e.identifier none c.name.native, .callback i, .callback c⟩)
    ++ (ns.classes.zipIdx.flatMap fun (c, i) => e.classItems i c)
    ++ (ns.interfaces.zipIdx.flatMap fun (c, i) => e.interfaceItems i c)
    ++ (ns.records.zipIdx.flatMap fun (r, i) => e.recordItems i r)
    ++ (ns.unions.zipIdx.flatMap fun (u, i) => e.unionItems i u)
    ++ e.callableItems .free none .function ns.functions
    ++ (ns.constants.zipIdx.map fun (c, i) =>
      ⟨e.identifier none c.name.native, .constant i, .constant c⟩)

def emit (e : Emitter) (item : WorkItem) : Deciding EmittedDeclaration :=
  match item.work with
  | .callable owner c => .function <$> e.function item.place owner c
  | .callback c => .callback <$> e.callback item.place c
  | .signal owner s => .signal <$> e.signal item.place owner s
  | .layout name ctype fields folder =>
    .layout <$> e.layout item.place item.identifier name ctype fields folder
  | .classLayout c => .layout <$> e.classLayout item.place item.identifier c
  | .enumeration declared => return .enumeration (e.enumeration declared)
  | .constant c => .constant <$> e.constant item.place c

/-- Emits all items, those behind a failed one as well. -/
def emitAll (e : Emitter) :
    List WorkItem → Memo → List (WorkItem × Except Fault EmittedDeclaration) × Memo
  | [], memo => ([], memo)
  | item :: rest, memo =>
    let (result, memo) := (e.emit item).run.run memo
    let (results, memo) := e.emitAll rest memo
    ((item, result) :: results, memo)

end Emitter

structure NamespaceOutput where
  key : NamespaceKey
  library : Option String
  declarations : List EmittedDeclaration
deriving DecidableEq, Repr, Inhabited

structure SkippedDeclaration where
  identifier : String
  fault : Fault
deriving DecidableEq, Repr, Inhabited

structure Report where
  namespaces : List NamespaceOutput := []
  skipped : List SkippedDeclaration := []
  /-- The mandatory identifiers under which nothing was emitted. -/
  missingMandatory : List String := []
deriving DecidableEq, Repr, Inhabited

namespace Report

def declarations (r : Report) : List EmittedDeclaration := r.namespaces.flatMap (·.declarations)

/-- Whether every mandatory declaration was emitted. -/
def isComplete (r : Report) : Bool := r.missingMandatory.isEmpty

def namespaceDatum (output : NamespaceOutput) : Datum :=
  .table [
    ("name", .text output.key.name),
    ("version", .text output.key.version),
    ("library", .optional .text output.library),
    ("declarations", .list (output.declarations.map (·.toDatum)))]

def skippedDatum (skipped : SkippedDeclaration) : Datum :=
  .table [
    ("identifier", .text skipped.identifier),
    ("code", .text skipped.fault.code),
    ("reason", .text skipped.fault.message)]

def toDatum (r : Report) : Datum :=
  .table [
    ("namespaces", .list (r.namespaces.map namespaceDatum)),
    ("skipped", .list (r.skipped.map skippedDatum)),
    ("missing_mandatory", .texts r.missingMandatory)]

def summaryDatum (r : Report) : Datum :=
  .table [
    ("namespaces", .texts (r.namespaces.map (·.key.canonicalName))),
    ("declarations", .natural r.declarations.length),
    ("skipped", .list (r.skipped.map skippedDatum)),
    ("missing_mandatory", .texts r.missingMandatory)]

/-- The documents of a report by their file names: one for each namespace, and the summary. -/
def documents (r : Report) : List (String × Datum) :=
  (r.namespaces.map fun output => (output.key.canonicalName ++ ".json", namespaceDatum output))
    ++ [("summary.json", r.summaryDatum)]

end Report

/-- Sorts results into declarations and skipped ones, up to a failure that ends the run. -/
def collectResults (bestEffort : Bool) :
    List (WorkItem × Except Fault EmittedDeclaration) →
      Logged RunError (List EmittedDeclaration × List SkippedDeclaration)
  | [] => pure ([], [])
  | (_, .ok declaration) :: rest => do
    let (declarations, skipped) ← collectResults bestEffort rest
    return (declaration :: declarations, skipped)
  | (item, .error fault) :: rest =>
    if bestEffort && !fault.isStructural then do
      Logged.note .warn s!"Skipping {item.identifier}: {fault.message}"
      let (declarations, skipped) ← collectResults bestEffort rest
      return (declarations, ⟨item.identifier, fault⟩ :: skipped)
    else Logged.fail (.within s!"failed to generate `{item.identifier}`" (.fault fault))

namespace Graph

/-- Emits the selected namespaces among some repositories, one after another. -/
def generateEach (g : Graph) (options : Options) :
    List RepositoryId → Memo →
      Logged RunError (List NamespaceOutput × List SkippedDeclaration) × Memo
  | [], memo => (pure ([], []), memo)
  | id :: rest, memo =>
    match g.repository? id with
    | none => g.generateEach options rest memo
    | some r =>
      if options.selects r.key then
        let e : Emitter := ⟨g, id⟩
        let items := e.items r.content
        let (results, memo) := e.emitAll items memo
        let collected := do
          Logged.note .info s!"Generating {r.key.canonicalName} ({items.length} declarations)"
          collectResults options.bestEffort results
        match collected.outcome with
        | .error error => (⟨collected.events, .error error⟩, memo)
        | .ok (declarations, skipped) =>
          let (others, memo) := g.generateEach options rest memo
          let output : NamespaceOutput := ⟨r.key, r.content.sharedLibrary, declarations⟩
          (do
            let _ ← collected
            let (outputs, otherSkipped) ← others
            return (output :: outputs, skipped ++ otherSkipped), memo)
      else
        let (others, memo) := g.generateEach options rest memo
        (do
          Logged.note .debug s!"Skipping namespace {r.key.canonicalName}"
          others, memo)

/-- Emits the declarations of the selected namespaces in the order of building. -/
def generate (g : Graph) (options : Options) (memo : Memo) : Logged RunError Report × Memo :=
  let (outputs, memo) := g.generateEach options g.buildOrder memo
  (do
    let (namespaces, skipped) ← outputs
    let report : Report := { namespaces, skipped }
    let missing := options.mandatory.filter fun identifier =>
      !report.declarations.any (·.identifier == identifier)
    let _ ← Logged.forEach missing fun identifier =>
      Logged.note .warn s!"Mandatory declaration {identifier} was not generated"
    return { report with missingMandatory := missing }, memo)

end Graph

/-- Builds the graph of descriptions and generates its declarations. -/
def generateFromDescriptions (descriptions : List Description) (options : Options) :
    Logged RunError Report := do
  let g ← (Graph.build descriptions).mapError fun fault =>
    .within "failed to build the repository graph" (.fault fault)
  Logged.note .info s!"Linked {g.size} namespaces"
  (g.generate options {}).1

end Interop
