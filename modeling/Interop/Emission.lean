import Interop.Emitted
import Interop.Memo
import Interop.Passing

/-! Emitting the declarations of a repository. -/

namespace Interop

/-- A repository of a graph whose declarations are emitted. -/
structure Emitter where
  graph : Graph
  id : RepositoryId

namespace Emitter

def content? (e : Emitter) : Option Namespace := (e.graph.repository? e.id).map (·.content)

/-- The identifier of a declaration: namespace, owner if there is one, and native name. -/
def identifier (e : Emitter) (owner : Option SymbolName) (name : String) : String :=
  let space := e.graph.namespaceName e.id
  match owner with
  | some owner => s!"{space}.{owner.native}.{name}"
  | none => s!"{space}.{name}"

def signalIdentifier (e : Emitter) (owner : SymbolName) (signal : Signal) : String :=
  s!"{e.graph.namespaceName e.id}.{owner.native}::{signal.name.native}"

/-- The decided type of a reference of a declaration. -/
def resolve (e : Emitter) (place : Place) (slot : TypeSlot) (reference : TypeReference) :
    Deciding DecidedType :=
  e.graph.resolve ⟨e.id, place, slot⟩ reference

def parameter (e : Emitter) (p : Parameter) (passing : ParameterPassing) (target : Target) :
    Emitted.Parameter where
  marshalAs := passing.hint.elim "" (·.marshalAs)
  typeName := passing.decoration.keyword ++ e.graph.typeName e.id passing.type target
    ++ (if passing.nullable then "?" else "")
  name := p.name.managed

def returnType (e : Emitter) (passing : ReturnPassing) (target : Target) : String :=
  let name := e.graph.typeName e.id passing.type target
  if passing.nullable && !passing.type.isVoid then name ++ "?" else name

/-- The trailing native parameter through which a callable reports errors. -/
def errorParameter : Emitted.Parameter := ⟨"", "out IntPtr", "error"⟩

def nativeParameters (e : Emitter) (place : Place) (list : ParameterList) (throws : Bool) :
    Deciding (List Emitted.Parameter) := do
  let receiver ← list.receiver.mapM fun p => do
    let decided ← e.resolve place .receiver p.type
    return e.parameter p (e.graph.passReceiver p decided .native) .native
  let declared ← list.declared.zipIdx.mapM fun (p, i) => do
    let decided ← e.resolve place (.parameter i) p.type
    return e.parameter p (e.graph.passParameter p decided .native list.receiverOffset) .native
  return receiver.toList ++ declared ++ (if throws then [errorParameter] else [])

def managedParameters (e : Emitter) (place : Place) (list : ParameterList) :
    Deciding (List Emitted.Parameter) :=
  list.managedWithPositions.mapM fun (p, i) => do
    let decided ← e.resolve place (.parameter i) p.type
    return e.parameter p (e.graph.passParameter p decided .managed 0) .managed

/-- The line of a summary about a value. -/
def describe (name : String) (transfer : Transfer) (nullable : Bool) : String :=
  s!"{name}: transfer ownership {transfer.label}, nullable {nullable}"

/-- The summary of a callable: what it calls, its parameters and its return value. -/
def summary (c : Callable) : List String :=
  ["Calls native method " ++ c.cIdentifier ++ "."]
    ++ c.parameters.native.map (fun p => describe p.name.native p.transfer p.nullable)
    ++ [describe "returns" c.returnValue.transfer c.returnValue.nullable]

/-- The library that exports the native functions; by default it has the name of the namespace. -/
def library (e : Emitter) : String :=
  (e.content?.bind (·.sharedLibrary)).getD (e.graph.namespaceName e.id)

/-- Emits a function, method or constructor. -/
def function (e : Emitter) (place : Place) (owner : Option SymbolName) (c : Callable) :
    Deciding Emitted.Function := do
  let returned ← e.resolve place .result c.returnValue.type
  let nativeParameters ← e.nativeParameters place c.parameters c.throws
  let managedParameters ← e.managedParameters place c.parameters
  return {
    identifier := e.identifier owner c.name.native,
    kind := c.kind,
    managedName := c.name.managed,
    entryPoint := c.cIdentifier,
    library := e.library,
    summary := summary c,
    nativeReturn := e.returnType (e.graph.passReturn c.returnValue returned .native) .native,
    managedReturn := e.returnType (e.graph.passReturn c.returnValue returned .managed) .managed,
    nativeParameters, managedParameters,
    throws := c.throws }

def callback (e : Emitter) (place : Place) (c : Callback) : Deciding Emitted.Callback := do
  let returned ← e.resolve place .result c.returnValue.type
  let parameters ← e.nativeParameters place c.parameters c.throws
  return {
    identifier := e.identifier none c.name.native,
    managedName := c.name.managed,
    nativeReturn := e.returnType (e.graph.passReturn c.returnValue returned .native) .native,
    parameters }

def signal (e : Emitter) (place : Place) (owner : SymbolName) (s : Signal) :
    Deciding Emitted.Signal := do
  let returned ← e.resolve place .result s.returnValue.type
  let arguments ← s.parameters.declared.zipIdx.mapM fun (p, i) => do
    let decided ← e.resolve place (.parameter i) p.type
    let passing := e.graph.passParameter p decided .native 0
    return (⟨i + 1, e.graph.typeName e.id passing.type .native, pascalCase p.name.native⟩ :
      Emitted.SignalArgument)
  return {
    identifier := e.signalIdentifier owner s,
    managedName := s.name.managed,
    returnType := e.returnType (e.graph.passReturn s.returnValue returned .native) .native,
    arguments }

def fields (e : Emitter) (place : Place) (fields : List Field) : Deciding (List Emitted.Field) :=
  fields.zipIdx.mapM fun (f, i) => do
    let decided ← e.resolve place (.field i) f.type
    return ⟨e.graph.typeName e.id decided .native, f.name.managed, f.isPrivate⟩

def layout (e : Emitter) (place : Place) (identifier : String) (name : SymbolName)
    (ctype : Option Spelling) (fields : List Field) (folder : Emitted.Folder) :
    Deciding Emitted.Layout := do
  let fields ← e.fields place fields
  return {
    identifier,
    managedName := name.managed,
    nativeName := ctype.map (·.text),
    folder,
    inheritance := [],
    fields }

/-- The managed name of a type that a class names as its base. -/
def baseName (e : Emitter) (name : String) : Except Fault String := do
  return e.graph.managedName (← e.graph.lookupSymbol e.id name) e.id

def classLayout (e : Emitter) (place : Place) (identifier : String) (c : Class) :
    Deciding Emitted.Layout := do
  let layout ← e.layout place identifier c.name c.ctype c.fields .classes
  let inheritance ← liftExcept ((c.parent.toList ++ c.implements).mapM e.baseName)
  return { layout with inheritance }

def enumeration (e : Emitter) (declared : Enumeration) : Emitted.Enumeration where
  identifier := e.identifier none declared.name.native
  managedName := declared.name.managed
  isFlags := declared.isBitfield
  members := declared.members.map fun m => ⟨m.name.managed, m.value⟩

/-- Emits a constant. Texts stay literals. -/
def constant (e : Emitter) (place : Place) (c : Constant) : Deciding Emitted.Constant := do
  let decided ← e.resolve place .value c.type
  let isText := c.type.spec.nativeSpelling.any fun s => (classify s).category == .text
  return {
    identifier := e.identifier none c.name.native,
    managedName := c.name.managed,
    typeName := if isText then "string" else e.graph.typeName e.id decided .native,
    value := c.value }

end Emitter

end Interop
