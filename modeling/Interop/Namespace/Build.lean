import Interop.Description.Basic
import Interop.Log
import Interop.Namespace.Layouts

/-! Building a namespace from its description. Every declaration is checked for the attributes that
it needs, in a fixed order, and the first one that is missing or invalid ends the building. -/

namespace Interop

/-- The text of an attribute that a declaration needs. -/
def require (value : Option String) (declaration field : String) : Except Fault String :=
  match value with
  | some value => .ok value
  | none => .error (.missingField declaration field)

namespace TypeSpec

/-- The type that a description names. -/
def ofDescription (d : Description.TypeUse) : TypeSpec := ⟨d.name, d.ctype.map .ofString⟩

/-- The type that a description names by a name, a spelling or both. -/
def checked (d : Description.TypeUse) (owner : String) : Except Fault TypeSpec :=
  if d.name.isNone && d.ctype.isNone then .error (.missingField owner "type name or c-type")
  else .ok (ofDescription d)

end TypeSpec

/-- The array that a description gives. -/
def ArrayInfo.ofDescription (d : Description.ArrayUse) (owner : String) :
    Except Fault ArrayInfo := do
  let element ← d.element.mapM (TypeSpec.checked · owner)
  return ⟨d.length, d.ctype.map .ofString, element⟩

/-- The type that a declaration refers to: a scalar type goes before an array. -/
def TypeReference.ofDescription (type : Option Description.TypeUse)
    (array : Option Description.ArrayUse) (context : TypeContext) (owner : String) :
    Except Fault TypeReference :=
  match type, array with
  | some type, _ => return .scalar (← TypeSpec.checked type owner) context
  | none, some array => return .ofArray (← ArrayInfo.ofDescription array owner) context
  | none, none => .error (.missingField owner "type")

/-- The transfer that an attribute names. -/
def Transfer.checked (value declaration : String) : Except Fault Transfer :=
  match Transfer.ofAttribute? value with
  | some transfer => .ok transfer
  | none => .error (.invalidField declaration "transfer-ownership" value)

/-- The parameter that a description gives to a callable. -/
def Parameter.ofDescription (owner : String) (d : Description.Parameter) :
    Except Fault Parameter := do
  let name ← require d.name s!"parameter of {owner}" "name"
  let label := s!"parameter `{name}` of {owner}"
  let transfer ← Transfer.checked (← require d.transferOwnership label "transfer-ownership") label
  let direction ← match Direction.ofAttribute? d.direction with
    | some direction => .ok direction
    | none => .error (.invalidField label "direction" (d.direction.getD ""))
  let type ←
    if d.varargs then .ok (.untyped .parameter)
    else TypeReference.ofDescription d.type d.array .parameter label
  return {
    name := .parameter name, type, direction, transfer,
    nullable := d.nullable || d.allowNone,
    callerAllocates := d.callerAllocates,
    closure := d.closure }

/-- The parameters that a description gives to a callable. -/
def ParameterList.ofDescription (owner : String) (receiver : Option Description.Parameter)
    (parameters : List Description.Parameter) : Except Fault ParameterList := do
  let receiver ← receiver.mapM (Parameter.ofDescription owner)
  let declared ← parameters.mapM (Parameter.ofDescription owner)
  return ⟨receiver, declared⟩

/-- The return value that a description gives to a callable; without one, nothing is returned. -/
def ReturnValue.ofDescription (owner : String) :
    Option Description.ReturnValue → Except Fault ReturnValue
  | none => .ok .nothing
  | some d => do
    let label := s!"return value of {owner}"
    let transfer ← match d.transferOwnership with
      | none => .ok .nothing
      | some value => Transfer.checked value label
    let type ←
      if d.type.isNone && d.array.isNone then .ok ReturnValue.nothing.type
      else TypeReference.ofDescription d.type d.array .returnValue label
    return ⟨type, transfer, d.nullable⟩

namespace NamespaceKey

/-- A declaration in messages. -/
def declarationLabel (key : NamespaceKey) (kind : String) : Option String → String
  | some name => s!"{kind} `{key.name}.{name}`"
  | none => s!"{kind} in `{key.canonicalName}`"

/-- The key of a described namespace. -/
def ofDescription (d : Description.Namespace) : Except Fault NamespaceKey := do
  let name ← require d.name "namespace" "name"
  let version ← require d.version s!"namespace `{name}`" "version"
  return ⟨name, version⟩

/-- The key of a described include. -/
def ofInclude (owner : NamespaceKey) (d : Description.Include) : Except Fault NamespaceKey := do
  let label := s!"include of `{owner.canonicalName}`"
  let name ← require d.name label "name"
  let version ← require d.version label "version"
  return ⟨name, version⟩

end NamespaceKey

/-- A described alias. -/
def Alias.ofDescription (key : NamespaceKey) (d : Description.Alias) : Except Fault Alias := do
  let label := key.declarationLabel "alias" d.name
  let name ← require d.name label "name"
  let ctype ← require d.ctype label "c-type"
  let target ← match d.target with
    | some target => .ok target
    | none => .error (.missingField label "type")
  let _ ← require target.name label "type name"
  return ⟨.pascal name, .ofString ctype, .scalar (TypeSpec.ofDescription target) .aliasTarget⟩

/-- A described callable. -/
def Callable.ofDescription (key : NamespaceKey) (kind : CallableKind)
    (d : Description.Callable) : Except Fault Callable := do
  let label := key.declarationLabel "callable" d.name
  let name ← require d.name label "name"
  let cIdentifier ← require d.cIdentifier label "c-identifier"
  let owner := s!"`{cIdentifier}`"
  let returnValue ← ReturnValue.ofDescription owner d.returnValue
  let parameters ← ParameterList.ofDescription owner d.instanceParameter d.parameters
  return ⟨.pascal name, cIdentifier, kind, returnValue, parameters, d.throws⟩

/-- Described callables, without those marked as not introspectable. -/
def Callable.listOfDescription (key : NamespaceKey) (kind : CallableKind) :
    List Description.Callable → Logged Fault (List Callable)
  | [] => pure []
  | d :: rest => do
    if d.introspectable == some false then
      Logged.note .debug ("Ignoring non-introspectable " ++ d.cIdentifier.getD "callable")
      listOfDescription key kind rest
    else
      let callable ← Logged.ofExcept (Callable.ofDescription key kind d)
      let others ← listOfDescription key kind rest
      return callable :: others

/-- The described callables of a type symbol. -/
def Callables.ofDescription (key : NamespaceKey)
    (constructors methods functions : List Description.Callable) : Logged Fault Callables := do
  let constructors ← Callable.listOfDescription key .constructor constructors
  let methods ← Callable.listOfDescription key .method methods
  let functions ← Callable.listOfDescription key .function functions
  return ⟨constructors, methods, functions⟩

/-- A described field of a type symbol. Inline callbacks have no type of their own. -/
def Field.ofDescription (key : NamespaceKey) (owner : String) (d : Description.Field) :
    Except Fault Field := do
  let name ← require d.name s!"field of `{key.name}.{owner}`" "name"
  let type ←
    if d.callback.isSome then .ok (.untyped .field)
    else TypeReference.ofDescription d.type d.array .field s!"field `{key.name}.{owner}.{name}`"
  return ⟨.pascal name, type, d.isPrivate⟩

/-- A described signal of a type symbol. -/
def Signal.ofDescription (key : NamespaceKey) (owner : String) (d : Description.Signal) :
    Except Fault Signal := do
  let name ← require d.name s!"signal of `{key.name}.{owner}`" "name"
  let label := s!"signal `{key.name}.{owner}::{name}`"
  let returnValue ← ReturnValue.ofDescription label d.returnValue
  let parameters ← ParameterList.ofDescription label none d.parameters
  return ⟨.pascal name, returnValue, parameters⟩

/-- A described class. -/
def Class.ofDescription (key : NamespaceKey) (d : Description.Class) : Logged Fault Class := do
  let name ← Logged.ofExcept (require d.name (key.declarationLabel "class" none) "name")
  let callables ← Callables.ofDescription key d.constructors d.methods d.functions
  let fields ← Logged.ofExcept (d.fields.mapM (Field.ofDescription key name))
  let signals ← Logged.ofExcept (d.signals.mapM (Signal.ofDescription key name))
  return {
    name := .pascal name, ctype := d.ctype.map .ofString, parent := d.parent,
    implements := d.implements, callables, fields, signals }

/-- A described interface. -/
def Interface.ofDescription (key : NamespaceKey) (d : Description.Interface) :
    Logged Fault Interface := do
  let name ← Logged.ofExcept (require d.name (key.declarationLabel "interface" none) "name")
  let callables ← Callables.ofDescription key d.constructors d.methods d.functions
  let signals ← Logged.ofExcept (d.signals.mapM (Signal.ofDescription key name))
  return { name := .pascal name, ctype := d.ctype.map .ofString, callables, signals }

/-- The kind of a described record. A layout is private if its name says so; another record is a
value if its fields are known and nothing marks it as opaque or boxed. -/
def RecordKind.ofDescription (name : String) (d : Description.Record) : RecordKind :=
  if d.typeStructFor.isSome then
    if "Private".toList.isSuffixOf name.toList then .privateLayout else .publicLayout
  else if d.disguised || d.getType.isSome || d.fields.isEmpty then .ref
  else .value

/-- A described record. -/
def Record.ofDescription (key : NamespaceKey) (d : Description.Record) : Logged Fault Record := do
  let name ← Logged.ofExcept (require d.name (key.declarationLabel "record" none) "name")
  let callables ← Callables.ofDescription key d.constructors d.methods d.functions
  let fields ← Logged.ofExcept (d.fields.mapM (Field.ofDescription key name))
  return {
    name := .pascal name, ctype := d.ctype.map .ofString, kind := .ofDescription name d,
    layoutOf := d.typeStructFor, callables, fields }

/-- A described union. -/
def Union.ofDescription (key : NamespaceKey) (d : Description.Union) : Logged Fault Union := do
  let name ← Logged.ofExcept (require d.name (key.declarationLabel "union" none) "name")
  let callables ← Callables.ofDescription key d.constructors d.methods d.functions
  let fields ← Logged.ofExcept (d.fields.mapM (Field.ofDescription key name))
  return { name := .pascal name, ctype := d.ctype.map .ofString, callables, fields }

/-- A described member of an enumeration. -/
def Member.ofDescription (owner : String) (d : Description.Member) : Except Fault Member := do
  let label := match d.name with
    | some name => s!"member `{name}` of {owner}"
    | none => s!"member of {owner}"
  let name ← require d.name label "name"
  let cIdentifier ← require d.cIdentifier label "c-identifier"
  let value ← require d.value label "value"
  return ⟨.pascal name, cIdentifier, value⟩

/-- A described enumeration or bitfield. -/
def Enumeration.ofDescription (key : NamespaceKey) (isBitfield : Bool)
    (d : Description.Enumeration) : Logged Fault Enumeration := do
  let kind := if isBitfield then "bitfield" else "enumeration"
  let name ← Logged.ofExcept (require d.name (key.declarationLabel kind none) "name")
  let owner := s!"{kind} `{key.name}.{name}`"
  let members ← Logged.ofExcept (d.members.mapM (Member.ofDescription owner))
  let functions ← Callable.listOfDescription key .function d.functions
  return ⟨.pascal name, d.ctype.map .ofString, isBitfield, members, functions⟩

/-- A described callback. -/
def Callback.ofDescription (key : NamespaceKey) (d : Description.Callback) :
    Except Fault Callback := do
  let label := key.declarationLabel "callback" d.name
  let name ← require d.name label "name"
  let returnValue ← ReturnValue.ofDescription label d.returnValue
  let parameters ← ParameterList.ofDescription label none d.parameters
  return ⟨.pascal name, d.ctype.map .ofString, returnValue, parameters, d.throws⟩

/-- A described constant. -/
def Constant.ofDescription (key : NamespaceKey) (d : Description.Constant) :
    Except Fault Constant := do
  let label := key.declarationLabel "constant" d.name
  let name ← require d.name label "name"
  let value ← require d.value label "value"
  let type ← match d.type with
    | some type => TypeSpec.checked type label
    | none => .error (.missingField label "type")
  return ⟨.pascal name, d.cIdentifier, value, .scalar type .constant⟩

/-- The namespace with a key that a description gives. -/
def Namespace.ofDescription (key : NamespaceKey) (d : Description.Namespace) :
    Logged Fault Namespace := do
  let aliases ← Logged.ofExcept (d.aliases.mapM (Alias.ofDescription key))
  let callbacks ← Logged.ofExcept (d.callbacks.mapM (Callback.ofDescription key))
  let enumerations ← Logged.forEach d.enumerations (Enumeration.ofDescription key false)
  let bitfields ← Logged.forEach d.bitfields (Enumeration.ofDescription key true)
  let interfaces ← Logged.forEach d.interfaces (Interface.ofDescription key)
  let records ← Logged.forEach d.records (Record.ofDescription key)
  let classes ← Logged.forEach d.classes (Class.ofDescription key)
  let unions ← Logged.forEach d.unions (Union.ofDescription key)
  let functions ← Callable.listOfDescription key .function d.functions
  let constants ← Logged.ofExcept (d.constants.mapM (Constant.ofDescription key))
  let ns ← Logged.ofExcept <| Namespace.attachLayouts {
    key, sharedLibrary := d.sharedLibrary, aliases, callbacks, enumerations, bitfields,
    interfaces, records, classes, unions, functions, constants }
  Logged.note .debug (s!"Built namespace {key.canonicalName} ({ns.symbolCount} symbols, "
    ++ s!"{ns.functions.length} functions)")
  return ns

end Interop
