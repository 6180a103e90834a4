import Interop.Description.Basic
import Interop.Data.Reading

/-! Descriptions read from data: for each structure the names of its members in their order, and how it is
read. -/

namespace Interop

namespace Description

open Datum

def TypeUse.memberNames : List String :=
  ["name", "c-type"]

def TypeUse.ofDatum? (format : DataFormat) (d : Datum) : Option TypeUse := do
  let get ← d.structure? format memberNames
  return {
    name := ← optional? text? (get "name"),
    ctype := ← optional? text? (get "c-type") }

def ArrayUse.memberNames : List String :=
  ["length", "c-type", "type"]

def ArrayUse.ofDatum? (format : DataFormat) (d : Datum) : Option ArrayUse := do
  let get ← d.structure? format memberNames
  return {
    length := ← optional? natural? (get "length"),
    ctype := ← optional? text? (get "c-type"),
    element := ← optional? (TypeUse.ofDatum? format) (get "type") }

def Alias.memberNames : List String :=
  ["name", "c-type", "type"]

def Alias.ofDatum? (format : DataFormat) (d : Datum) : Option Alias := do
  let get ← d.structure? format memberNames
  return {
    name := ← optional? text? (get "name"),
    ctype := ← optional? text? (get "c-type"),
    target := ← optional? (TypeUse.ofDatum? format) (get "type") }

def Parameter.memberNames : List String :=
  ["name", "type", "array", "varargs", "direction", "transfer-ownership", "nullable", "allow-none",
    "caller-allocates", "closure"]

def Parameter.ofDatum? (format : DataFormat) (d : Datum) : Option Parameter := do
  let get ← d.structure? format memberNames
  return {
    name := ← optional? text? (get "name"),
    type := ← optional? (TypeUse.ofDatum? format) (get "type"),
    array := ← optional? (ArrayUse.ofDatum? format) (get "array"),
    varargs := ← flag? (get "varargs"),
    direction := ← optional? text? (get "direction"),
    transferOwnership := ← optional? text? (get "transfer-ownership"),
    nullable := ← flag? (get "nullable"),
    allowNone := ← flag? (get "allow-none"),
    callerAllocates := ← flag? (get "caller-allocates"),
    closure := ← optional? natural? (get "closure") }

def ReturnValue.memberNames : List String :=
  ["type", "array", "transfer-ownership", "nullable"]

def ReturnValue.ofDatum? (format : DataFormat) (d : Datum) : Option ReturnValue := do
  let get ← d.structure? format memberNames
  return {
    type := ← optional? (TypeUse.ofDatum? format) (get "type"),
    array := ← optional? (ArrayUse.ofDatum? format) (get "array"),
    transferOwnership := ← optional? text? (get "transfer-ownership"),
    nullable := ← flag? (get "nullable") }

def Callable.memberNames : List String :=
  ["name", "c-identifier", "return-value", "instance-parameter", "parameters", "throws",
    "introspectable"]

def Callable.ofDatum? (format : DataFormat) (d : Datum) : Option Callable := do
  let get ← d.structure? format memberNames
  return {
    name := ← optional? text? (get "name"),
    cIdentifier := ← optional? text? (get "c-identifier"),
    returnValue := ← optional? (ReturnValue.ofDatum? format) (get "return-value"),
    instanceParameter := ← optional? (Parameter.ofDatum? format) (get "instance-parameter"),
    parameters := ← list? (Parameter.ofDatum? format) (get "parameters"),
    throws := ← flag? (get "throws"),
    introspectable := ← optional? boolean? (get "introspectable") }

def Callback.memberNames : List String :=
  ["name", "c-type", "return-value", "parameters", "throws"]

def Callback.ofDatum? (format : DataFormat) (d : Datum) : Option Callback := do
  let get ← d.structure? format memberNames
  return {
    name := ← optional? text? (get "name"),
    ctype := ← optional? text? (get "c-type"),
    returnValue := ← optional? (ReturnValue.ofDatum? format) (get "return-value"),
    parameters := ← list? (Parameter.ofDatum? format) (get "parameters"),
    throws := ← flag? (get "throws") }

def Field.memberNames : List String :=
  ["name", "type", "array", "callback", "private"]

def Field.ofDatum? (format : DataFormat) (d : Datum) : Option Field := do
  let get ← d.structure? format memberNames
  return {
    name := ← optional? text? (get "name"),
    type := ← optional? (TypeUse.ofDatum? format) (get "type"),
    array := ← optional? (ArrayUse.ofDatum? format) (get "array"),
    callback := ← optional? (Callback.ofDatum? format) (get "callback"),
    isPrivate := ← flag? (get "private") }

def Signal.memberNames : List String :=
  ["name", "return-value", "parameters"]

def Signal.ofDatum? (format : DataFormat) (d : Datum) : Option Signal := do
  let get ← d.structure? format memberNames
  return {
    name := ← optional? text? (get "name"),
    returnValue := ← optional? (ReturnValue.ofDatum? format) (get "return-value"),
    parameters := ← list? (Parameter.ofDatum? format) (get "parameters") }

def Class.memberNames : List String :=
  ["name", "c-type", "parent", "implements", "constructors", "methods", "functions", "fields",
    "signals"]

def Class.ofDatum? (format : DataFormat) (d : Datum) : Option Class := do
  let get ← d.structure? format memberNames
  return {
    name := ← optional? text? (get "name"),
    ctype := ← optional? text? (get "c-type"),
    parent := ← optional? text? (get "parent"),
    implements := ← list? text? (get "implements"),
    constructors := ← list? (Callable.ofDatum? format) (get "constructors"),
    methods := ← list? (Callable.ofDatum? format) (get "methods"),
    functions := ← list? (Callable.ofDatum? format) (get "functions"),
    fields := ← list? (Field.ofDatum? format) (get "fields"),
    signals := ← list? (Signal.ofDatum? format) (get "signals") }

def Interface.memberNames : List String :=
  ["name", "c-type", "constructors", "methods", "functions", "signals"]

def Interface.ofDatum? (format : DataFormat) (d : Datum) : Option Interface := do
  let get ← d.structure? format memberNames
  return {
    name := ← optional? text? (get "name"),
    ctype := ← optional? text? (get "c-type"),
    constructors := ← list? (Callable.ofDatum? format) (get "constructors"),
    methods := ← list? (Callable.ofDatum? format) (get "methods"),
    functions := ← list? (Callable.ofDatum? format) (get "functions"),
    signals := ← list? (Signal.ofDatum? format) (get "signals") }

def Record.memberNames : List String :=
  ["name", "c-type", "disguised", "glib-type-struct-for", "get-type", "constructors", "methods",
    "functions", "fields"]

def Record.ofDatum? (format : DataFormat) (d : Datum) : Option Record := do
  let get ← d.structure? format memberNames
  return {
    name := ← optional? text? (get "name"),
    ctype := ← optional? text? (get "c-type"),
    disguised := ← flag? (get "disguised"),
    typeStructFor := ← optional? text? (get "glib-type-struct-for"),
    getType := ← optional? text? (get "get-type"),
    constructors := ← list? (Callable.ofDatum? format) (get "constructors"),
    methods := ← list? (Callable.ofDatum? format) (get "methods"),
    functions := ← list? (Callable.ofDatum? format) (get "functions"),
    fields := ← list? (Field.ofDatum? format) (get "fields") }

def Union.memberNames : List String :=
  ["name", "c-type", "constructors", "methods", "functions", "fields"]

def Union.ofDatum? (format : DataFormat) (d : Datum) : Option Union := do
  let get ← d.structure? format memberNames
  return {
    name := ← optional? text? (get "name"),
    ctype := ← optional? text? (get "c-type"),
    constructors := ← list? (Callable.ofDatum? format) (get "constructors"),
    methods := ← list? (Callable.ofDatum? format) (get "methods"),
    functions := ← list? (Callable.ofDatum? format) (get "functions"),
    fields := ← list? (Field.ofDatum? format) (get "fields") }

def Member.memberNames : List String :=
  ["name", "c-identifier", "value"]

def Member.ofDatum? (format : DataFormat) (d : Datum) : Option Member := do
  let get ← d.structure? format memberNames
  return {
    name := ← optional? text? (get "name"),
    cIdentifier := ← optional? text? (get "c-identifier"),
    value := ← optional? text? (get "value") }

def Enumeration.memberNames : List String :=
  ["name", "c-type", "members", "functions"]

def Enumeration.ofDatum? (format : DataFormat) (d : Datum) : Option Enumeration := do
  let get ← d.structure? format memberNames
  return {
    name := ← optional? text? (get "name"),
    ctype := ← optional? text? (get "c-type"),
    members := ← list? (Member.ofDatum? format) (get "members"),
    functions := ← list? (Callable.ofDatum? format) (get "functions") }

def Constant.memberNames : List String :=
  ["name", "c-identifier", "value", "type"]

def Constant.ofDatum? (format : DataFormat) (d : Datum) : Option Constant := do
  let get ← d.structure? format memberNames
  return {
    name := ← optional? text? (get "name"),
    cIdentifier := ← optional? text? (get "c-identifier"),
    value := ← optional? text? (get "value"),
    type := ← optional? (TypeUse.ofDatum? format) (get "type") }

def Namespace.memberNames : List String :=
  ["name", "version", "shared-library", "aliases", "classes", "interfaces", "records", "unions",
    "enumerations", "bitfields", "callbacks", "functions", "constants"]

def Namespace.ofDatum? (format : DataFormat) (d : Datum) : Option Namespace := do
  let get ← d.structure? format memberNames
  return {
    name := ← optional? text? (get "name"),
    version := ← optional? text? (get "version"),
    sharedLibrary := ← optional? text? (get "shared-library"),
    aliases := ← list? (Alias.ofDatum? format) (get "aliases"),
    classes := ← list? (Class.ofDatum? format) (get "classes"),
    interfaces := ← list? (Interface.ofDatum? format) (get "interfaces"),
    records := ← list? (Record.ofDatum? format) (get "records"),
    unions := ← list? (Union.ofDatum? format) (get "unions"),
    enumerations := ← list? (Enumeration.ofDatum? format) (get "enumerations"),
    bitfields := ← list? (Enumeration.ofDatum? format) (get "bitfields"),
    callbacks := ← list? (Callback.ofDatum? format) (get "callbacks"),
    functions := ← list? (Callable.ofDatum? format) (get "functions"),
    constants := ← list? (Constant.ofDatum? format) (get "constants") }

def Include.memberNames : List String :=
  ["name", "version"]

def Include.ofDatum? (format : DataFormat) (d : Datum) : Option Include := do
  let get ← d.structure? format memberNames
  return {
    name := ← optional? text? (get "name"),
    version := ← optional? text? (get "version") }

end Description

def Description.memberNames : List String := ["includes", "namespace"]

def Description.ofDatum? (format : DataFormat) (d : Datum) : Option Description := do
  let get ← d.structure? format memberNames
  return {
    includes := ← Datum.list? (Include.ofDatum? format) (get "includes"),
    namespaceInfo := ← (match get "namespace" with
      | none => some {}
      | some d => Namespace.ofDatum? format d) }

end Interop
