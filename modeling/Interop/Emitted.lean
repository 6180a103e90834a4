import Interop.Data.Datum
import Interop.Declaration

/-! Emitted declarations: everything that a renderer has to write is decided in them. -/

namespace Interop

namespace Emitted

structure Parameter where
  /-- The marshalling attribute, empty if there is none. -/
  marshalAs : String
  /-- The type with its direction keyword and its mark for null. -/
  typeName : String
  name : String
deriving DecidableEq, Repr, Inhabited

def Parameter.render (p : Parameter) : String :=
  if p.marshalAs.isEmpty then s!"{p.typeName} {p.name}"
  else s!"{p.marshalAs} {p.typeName} {p.name}"

def renderParameters (parameters : List Parameter) : String :=
  ", ".intercalate (parameters.map (·.render))

/-- A function, method or constructor with both of its signatures. -/
structure Function where
  identifier : String
  kind : CallableKind
  managedName : String
  entryPoint : String
  library : String
  summary : List String
  nativeReturn : String
  managedReturn : String
  nativeParameters : List Parameter
  managedParameters : List Parameter
  throws : Bool
deriving DecidableEq, Repr, Inhabited

/-- The declaration that imports the native function. -/
def Function.nativeDeclaration (f : Function) : String :=
  let parameters := renderParameters f.nativeParameters
  s!"public static extern {f.nativeReturn} {f.managedName}({parameters});"

/-- The head of the managed function. -/
def Function.managedDeclaration (f : Function) : String :=
  let parameters := renderParameters f.managedParameters
  s!"public {f.managedReturn} {f.managedName}({parameters})"

structure Callback where
  identifier : String
  managedName : String
  nativeReturn : String
  parameters : List Parameter
deriving DecidableEq, Repr, Inhabited

structure SignalArgument where
  /-- The position in the arguments of the signal, of which the first is its emitter. -/
  index : Nat
  typeName : String
  name : String
deriving DecidableEq, Repr, Inhabited

structure Signal where
  identifier : String
  managedName : String
  returnType : String
  arguments : List SignalArgument
deriving DecidableEq, Repr, Inhabited

/-- The folder that a layout is written to. -/
inductive Folder
  | classes
  | interfaces
  | records
  | unions
deriving DecidableEq, Repr, Inhabited

def Folder.label : Folder → String
  | .classes => "Classes"
  | .interfaces => "Interfaces"
  | .records => "Records"
  | .unions => "Unions"

structure Field where
  typeName : String
  name : String
  isPrivate : Bool
deriving DecidableEq, Repr, Inhabited

/-- The layout of a type in memory. -/
structure Layout where
  identifier : String
  managedName : String
  nativeName : Option String
  folder : Folder
  /-- The managed names of the parent class and of the interfaces, the parent first. -/
  inheritance : List String
  fields : List Field
deriving DecidableEq, Repr, Inhabited

/-- What follows the name of a type that has base types. -/
def Layout.inheritanceClause (l : Layout) : String :=
  if l.inheritance.isEmpty then "" else ": " ++ ", ".intercalate l.inheritance

structure Member where
  name : String
  value : String
deriving DecidableEq, Repr, Inhabited

structure Enumeration where
  identifier : String
  managedName : String
  isFlags : Bool
  members : List Member
deriving DecidableEq, Repr, Inhabited

structure Constant where
  identifier : String
  managedName : String
  typeName : String
  value : String
deriving DecidableEq, Repr, Inhabited

def Parameter.toDatum (p : Parameter) : Datum :=
  .table [("attribute", .text p.marshalAs), ("type_name", .text p.typeName), ("name", .text p.name)]

def Function.members (f : Function) : List (String × Datum) := [
  ("identifier", .text f.identifier),
  ("kind", .text f.kind.label),
  ("managed_name", .text f.managedName),
  ("entry_point", .text f.entryPoint),
  ("library", .text f.library),
  ("summary", .texts f.summary),
  ("native_return", .text f.nativeReturn),
  ("managed_return", .text f.managedReturn),
  ("native_parameters", .list (f.nativeParameters.map (·.toDatum))),
  ("managed_parameters", .list (f.managedParameters.map (·.toDatum))),
  ("throws", .boolean f.throws)]

def Callback.members (c : Callback) : List (String × Datum) := [
  ("identifier", .text c.identifier),
  ("managed_name", .text c.managedName),
  ("native_return", .text c.nativeReturn),
  ("parameters", .list (c.parameters.map (·.toDatum)))]

def SignalArgument.toDatum (a : SignalArgument) : Datum :=
  .table [("index", .natural a.index), ("type_name", .text a.typeName), ("name", .text a.name)]

def Signal.members (s : Signal) : List (String × Datum) := [
  ("identifier", .text s.identifier),
  ("managed_name", .text s.managedName),
  ("return_type", .text s.returnType),
  ("arguments", .list (s.arguments.map (·.toDatum)))]

def Field.toDatum (f : Field) : Datum :=
  .table [
    ("type_name", .text f.typeName), ("name", .text f.name), ("private", .boolean f.isPrivate)]

def Layout.members (l : Layout) : List (String × Datum) := [
  ("identifier", .text l.identifier),
  ("managed_name", .text l.managedName),
  ("native_name", .optional .text l.nativeName),
  ("folder", .text l.folder.label),
  ("inheritance", .texts l.inheritance),
  ("fields", .list (l.fields.map (·.toDatum)))]

def Enumeration.membersInReport (e : Enumeration) : List (String × Datum) := [
  ("identifier", .text e.identifier),
  ("managed_name", .text e.managedName),
  ("flags", .boolean e.isFlags),
  ("members", .list (e.members.map fun m =>
    .table [("name", .text m.name), ("value", .text m.value)]))]

def Constant.members (c : Constant) : List (String × Datum) := [
  ("identifier", .text c.identifier),
  ("managed_name", .text c.managedName),
  ("type_name", .text c.typeName),
  ("value", .text c.value)]

end Emitted

inductive EmittedDeclaration
  | function (declaration : Emitted.Function)
  | callback (declaration : Emitted.Callback)
  | signal (declaration : Emitted.Signal)
  | layout (declaration : Emitted.Layout)
  | enumeration (declaration : Emitted.Enumeration)
  | constant (declaration : Emitted.Constant)
deriving DecidableEq, Repr, Inhabited

namespace EmittedDeclaration

/-- The identifier under which a declaration is known. -/
def identifier : EmittedDeclaration → String
  | function d => d.identifier
  | callback d => d.identifier
  | signal d => d.identifier
  | layout d => d.identifier
  | enumeration d => d.identifier
  | constant d => d.identifier

def kindLabel : EmittedDeclaration → String
  | function _ => "function"
  | callback _ => "callback"
  | signal _ => "signal"
  | layout _ => "layout"
  | enumeration _ => "enumeration"
  | constant _ => "constant"

/-- A declaration in a report: its kind and its members. A function has a second kind among its
members, which tells functions, methods and constructors apart. -/
def toDatum (d : EmittedDeclaration) : Datum :=
  .table (("kind", .text d.kindLabel) :: match d with
    | function d => d.members
    | callback d => d.members
    | signal d => d.members
    | layout d => d.members
    | enumeration d => d.membersInReport
    | constant d => d.members)

end EmittedDeclaration

end Interop
