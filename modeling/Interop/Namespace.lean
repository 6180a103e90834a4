import Interop.Declaration

/-! Namespaces: the declarations of one version of one library, and the index of its type symbols
by name. -/

namespace Interop

/-- The name and version that identify a namespace. -/
structure NamespaceKey where
  name : String
  version : String
deriving DecidableEq, Hashable, Repr, Inhabited

/-- Name and version in one word, as in file names. -/
def NamespaceKey.canonicalName (key : NamespaceKey) : String := key.name ++ "-" ++ key.version

/-- A class or interface by its position. -/
inductive LayoutOwner
  | classType (index : Nat)
  | interfaceType (index : Nat)
deriving DecidableEq, Hashable, Repr, Inhabited

/-- Where a record that is a layout is kept. -/
structure LayoutSlot where
  owner : LayoutOwner
  kind : LayoutKind
deriving DecidableEq, Hashable, Repr, Inhabited

/-- The declarations of a namespace. -/
structure Namespace where
  key : NamespaceKey
  sharedLibrary : Option String := none
  aliases : List Alias := []
  classes : List Class := []
  interfaces : List Interface := []
  records : List Record := []
  unions : List Union := []
  enumerations : List Enumeration := []
  bitfields : List Enumeration := []
  callbacks : List Callback := []
  functions : List Callable := []
  constants : List Constant := []
  /-- The slots of the attached layouts, which stay addressable by their record names. -/
  layoutSlots : List LayoutSlot := []
deriving Repr, Inhabited

namespace Namespace

/-- The layout in a slot. -/
def layoutAt? (ns : Namespace) (slot : LayoutSlot) : Option Record :=
  match slot.owner with
  | .classType i => ns.classes[i]?.bind (·.layouts.get? slot.kind)
  | .interfaceType i => ns.interfaces[i]?.bind (·.layouts.get? slot.kind)

/-- The layout in the slot at a position. -/
def layout? (ns : Namespace) (index : Nat) : Option Record :=
  ns.layoutSlots[index]?.bind ns.layoutAt?

/-- The names of the type symbols of a kind, each at its position. -/
def namesOf (ns : Namespace) : SymbolKind → List (Option SymbolName)
  | .classType => ns.classes.map (some ·.name)
  | .interfaceType => ns.interfaces.map (some ·.name)
  | .record => ns.records.map (some ·.name)
  | .union => ns.unions.map (some ·.name)
  | .enumeration => ns.enumerations.map (some ·.name)
  | .bitfield => ns.bitfields.map (some ·.name)
  | .callback => ns.callbacks.map (some ·.name)
  | .alias => ns.aliases.map (some ·.name)
  | .classStruct => ns.layoutSlots.map fun slot => (ns.layoutAt? slot).map (·.name)

/-- The order in which the kinds are searched for a name. -/
def searchOrder : List SymbolKind :=
  [.classType, .interfaceType, .record, .union, .enumeration, .bitfield, .callback, .alias, .classStruct]

/-- The smallest position of a kind at which a native name stands. -/
def position? (ns : Namespace) (kind : SymbolKind) (name : String) : Option Nat :=
  (ns.namesOf kind).findIdx? (·.any (·.native == name))

/-- The type symbol with an unqualified native name; of several the first in search order. -/
def lookup (ns : Namespace) (name : String) : Option (SymbolKind × Nat) :=
  searchOrder.findSome? fun kind => (ns.position? kind name).map (kind, ·)

/-- The native names of all type symbols, in search order. -/
def symbolNames (ns : Namespace) : List String :=
  searchOrder.flatMap fun kind => (ns.namesOf kind).filterMap (·.map (·.native))

def symbolCount (ns : Namespace) : Nat := ns.symbolNames.eraseDups.length

def symbolName? (ns : Namespace) (kind : SymbolKind) (index : Nat) : Option SymbolName :=
  (ns.namesOf kind)[index]?.join

/-- Whether values of a type symbol are passed as handles: classes, interfaces and opaque
records. -/
def isReferenceType (ns : Namespace) (kind : SymbolKind) (index : Nat) : Bool :=
  match kind with
  | .classType => true
  | .interfaceType => true
  | .record => ns.records[index]?.any (·.kind == .ref)
  | _ => false

/-- What a type symbol is for the marshaller. -/
def category (ns : Namespace) (kind : SymbolKind) (index : Nat) : Category :=
  match kind with
  | .classType => .countedHandle
  | .interfaceType => .countedHandle
  | .record =>
    match ns.records[index]? with
    | some record => if record.kind == .ref then .countedHandle else .structuredValue
    | none => .unknown
  | .union => .structuredValue
  | .classStruct => .structuredValue
  | .enumeration => .primitive .i32
  | .bitfield => .primitive .u32
  | .callback => .callback
  | .alias => .unknown

end Namespace

end Interop
