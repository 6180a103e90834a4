import Interop.Description.Basic
import Interop.Data.Datum

/-! Descriptions written as data: every member is written, absent ones as null, an empty list or
false. -/

namespace Interop

namespace Description

def TypeUse.toDatum (d : TypeUse) : Datum :=
  .table [
    ("name", .optional .text d.name),
    ("c-type", .optional .text d.ctype)]

def ArrayUse.toDatum (d : ArrayUse) : Datum :=
  .table [
    ("length", .optional .natural d.length),
    ("c-type", .optional .text d.ctype),
    ("type", .optional TypeUse.toDatum d.element)]

def Alias.toDatum (d : Alias) : Datum :=
  .table [
    ("name", .optional .text d.name),
    ("c-type", .optional .text d.ctype),
    ("type", .optional TypeUse.toDatum d.target)]

def Parameter.toDatum (d : Parameter) : Datum :=
  .table [
    ("name", .optional .text d.name),
    ("type", .optional TypeUse.toDatum d.type),
    ("array", .optional ArrayUse.toDatum d.array),
    ("varargs", .boolean d.varargs),
    ("direction", .optional .text d.direction),
    ("transfer-ownership", .optional .text d.transferOwnership),
    ("nullable", .boolean d.nullable),
    ("allow-none", .boolean d.allowNone),
    ("caller-allocates", .boolean d.callerAllocates),
    ("closure", .optional .natural d.closure)]

def ReturnValue.toDatum (d : ReturnValue) : Datum :=
  .table [
    ("type", .optional TypeUse.toDatum d.type),
    ("array", .optional ArrayUse.toDatum d.array),
    ("transfer-ownership", .optional .text d.transferOwnership),
    ("nullable", .boolean d.nullable)]

def Callable.toDatum (d : Callable) : Datum :=
  .table [
    ("name", .optional .text d.name),
    ("c-identifier", .optional .text d.cIdentifier),
    ("return-value", .optional ReturnValue.toDatum d.returnValue),
    ("instance-parameter", .optional Parameter.toDatum d.instanceParameter),
    ("parameters", .list (d.parameters.map Parameter.toDatum)),
    ("throws", .boolean d.throws),
    ("introspectable", .optional .boolean d.introspectable)]

def Callback.toDatum (d : Callback) : Datum :=
  .table [
    ("name", .optional .text d.name),
    ("c-type", .optional .text d.ctype),
    ("return-value", .optional ReturnValue.toDatum d.returnValue),
    ("parameters", .list (d.parameters.map Parameter.toDatum)),
    ("throws", .boolean d.throws)]

def Field.toDatum (d : Field) : Datum :=
  .table [
    ("name", .optional .text d.name),
    ("type", .optional TypeUse.toDatum d.type),
    ("array", .optional ArrayUse.toDatum d.array),
    ("callback", .optional Callback.toDatum d.callback),
    ("private", .boolean d.isPrivate)]

def Signal.toDatum (d : Signal) : Datum :=
  .table [
    ("name", .optional .text d.name),
    ("return-value", .optional ReturnValue.toDatum d.returnValue),
    ("parameters", .list (d.parameters.map Parameter.toDatum))]

def Class.toDatum (d : Class) : Datum :=
  .table [
    ("name", .optional .text d.name),
    ("c-type", .optional .text d.ctype),
    ("parent", .optional .text d.parent),
    ("implements", .texts d.implements),
    ("constructors", .list (d.constructors.map Callable.toDatum)),
    ("methods", .list (d.methods.map Callable.toDatum)),
    ("functions", .list (d.functions.map Callable.toDatum)),
    ("fields", .list (d.fields.map Field.toDatum)),
    ("signals", .list (d.signals.map Signal.toDatum))]

def Interface.toDatum (d : Interface) : Datum :=
  .table [
    ("name", .optional .text d.name),
    ("c-type", .optional .text d.ctype),
    ("constructors", .list (d.constructors.map Callable.toDatum)),
    ("methods", .list (d.methods.map Callable.toDatum)),
    ("functions", .list (d.functions.map Callable.toDatum)),
    ("signals", .list (d.signals.map Signal.toDatum))]

def Record.toDatum (d : Record) : Datum :=
  .table [
    ("name", .optional .text d.name),
    ("c-type", .optional .text d.ctype),
    ("disguised", .boolean d.disguised),
    ("glib-type-struct-for", .optional .text d.typeStructFor),
    ("get-type", .optional .text d.getType),
    ("constructors", .list (d.constructors.map Callable.toDatum)),
    ("methods", .list (d.methods.map Callable.toDatum)),
    ("functions", .list (d.functions.map Callable.toDatum)),
    ("fields", .list (d.fields.map Field.toDatum))]

def Union.toDatum (d : Union) : Datum :=
  .table [
    ("name", .optional .text d.name),
    ("c-type", .optional .text d.ctype),
    ("constructors", .list (d.constructors.map Callable.toDatum)),
    ("methods", .list (d.methods.map Callable.toDatum)),
    ("functions", .list (d.functions.map Callable.toDatum)),
    ("fields", .list (d.fields.map Field.toDatum))]

def Member.toDatum (d : Member) : Datum :=
  .table [
    ("name", .optional .text d.name),
    ("c-identifier", .optional .text d.cIdentifier),
    ("value", .optional .text d.value)]

def Enumeration.toDatum (d : Enumeration) : Datum :=
  .table [
    ("name", .optional .text d.name),
    ("c-type", .optional .text d.ctype),
    ("members", .list (d.members.map Member.toDatum)),
    ("functions", .list (d.functions.map Callable.toDatum))]

def Constant.toDatum (d : Constant) : Datum :=
  .table [
    ("name", .optional .text d.name),
    ("c-identifier", .optional .text d.cIdentifier),
    ("value", .optional .text d.value),
    ("type", .optional TypeUse.toDatum d.type)]

def Namespace.toDatum (d : Namespace) : Datum :=
  .table [
    ("name", .optional .text d.name),
    ("version", .optional .text d.version),
    ("shared-library", .optional .text d.sharedLibrary),
    ("aliases", .list (d.aliases.map Alias.toDatum)),
    ("classes", .list (d.classes.map Class.toDatum)),
    ("interfaces", .list (d.interfaces.map Interface.toDatum)),
    ("records", .list (d.records.map Record.toDatum)),
    ("unions", .list (d.unions.map Union.toDatum)),
    ("enumerations", .list (d.enumerations.map Enumeration.toDatum)),
    ("bitfields", .list (d.bitfields.map Enumeration.toDatum)),
    ("callbacks", .list (d.callbacks.map Callback.toDatum)),
    ("functions", .list (d.functions.map Callable.toDatum)),
    ("constants", .list (d.constants.map Constant.toDatum))]

def Include.toDatum (d : Include) : Datum :=
  .table [
    ("name", .optional .text d.name),
    ("version", .optional .text d.version)]

end Description

def Description.toDatum (d : Description) : Datum :=
  .table [
    ("includes", .list (d.includes.map Include.toDatum)),
    ("namespace", d.namespaceInfo.toDatum)]

end Interop
