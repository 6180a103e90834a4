import Interop.SymbolName
import Interop.TypeReference

/-! What a namespace declares: callables, the type symbols that own them, and constants. -/

namespace Interop

/-- In which direction a parameter carries data. -/
inductive Direction
  | into
  | out
  /-- Both in and out. -/
  | ref
deriving DecidableEq, Repr, Inhabited

namespace Direction

/-- The direction that an attribute names; without one, data flows in. -/
def ofAttribute? : Option String → Option Direction
  | none => some .into
  | some "in" => some .into
  | some "out" => some .out
  | some "inout" => some .ref
  | some "ref" => some .ref
  | some _ => none

def label : Direction → String
  | .into => "in"
  | .out => "out"
  | .ref => "ref"

end Direction

/-- Which part of a value the receiver has to release. -/
inductive Transfer
  | nothing
  | container
  | full
deriving DecidableEq, Repr, Inhabited

namespace Transfer

/-- The transfer that an attribute names. -/
def ofAttribute? : String → Option Transfer
  | "none" => some .nothing
  | "container" => some .container
  | "full" => some .full
  | _ => none

def label : Transfer → String
  | .nothing => "none"
  | .container => "container"
  | .full => "full"

end Transfer

structure Parameter where
  name : SymbolName
  type : TypeReference
  direction : Direction
  transfer : Transfer
  nullable : Bool
  /-- Whether the caller provides the memory of an outgoing value. -/
  callerAllocates : Bool
  /-- The position of the parameter with the user data of this callback. -/
  closure : Option Nat
deriving DecidableEq, Repr, Inhabited

/-- The parameters of a callable, with the instance it is called on apart. -/
structure ParameterList where
  receiver : Option Parameter := none
  declared : List Parameter := []
deriving DecidableEq, Repr, Inhabited

namespace ParameterList

/-- How far the declared positions are shifted in native signatures. -/
def receiverOffset (list : ParameterList) : Nat := if list.receiver.isSome then 1 else 0

/-- All parameters in native order. -/
def native (list : ParameterList) : List Parameter := list.receiver.toList ++ list.declared

/-- The positions that some parameter names as its user data. Position zero counts as not named. -/
def userDataPositions (list : ParameterList) : List Nat :=
  (list.declared.filterMap (·.closure)).filter (· != 0)

/-- The declared parameters that are no user data of others, with their positions. -/
def managedWithPositions (list : ParameterList) : List (Parameter × Nat) :=
  list.declared.zipIdx.filter fun (_, i) => !list.userDataPositions.contains i

/-- The declared parameters that are no user data of others. -/
def managed (list : ParameterList) : List Parameter := list.managedWithPositions.map (·.1)

/-- Whether there is no parameter at all. -/
def isEmpty (list : ParameterList) : Bool := list.receiver.isNone && list.declared.isEmpty

end ParameterList

structure ReturnValue where
  type : TypeReference
  transfer : Transfer
  nullable : Bool
deriving DecidableEq, Repr, Inhabited

/-- The return value of a callable that returns nothing. -/
def ReturnValue.nothing : ReturnValue :=
  ⟨.scalar ⟨some "none", some (.ofString "void")⟩ .returnValue, .nothing, false⟩

/-- What a callable is to its owner. -/
inductive CallableKind
  | function
  | method
  | constructor
deriving DecidableEq, Repr, Inhabited

def CallableKind.label : CallableKind → String
  | .function => "function"
  | .method => "method"
  | .constructor => "constructor"

structure Callable where
  name : SymbolName
  /-- The exported symbol of the library. -/
  cIdentifier : String
  kind : CallableKind
  returnValue : ReturnValue
  parameters : ParameterList
  throws : Bool
deriving DecidableEq, Repr, Inhabited

structure Field where
  name : SymbolName
  type : TypeReference
  isPrivate : Bool
deriving DecidableEq, Repr, Inhabited

structure Signal where
  name : SymbolName
  returnValue : ReturnValue
  parameters : ParameterList
deriving DecidableEq, Repr, Inhabited

/-- The callables of a type symbol. -/
structure Callables where
  constructors : List Callable := []
  methods : List Callable := []
  functions : List Callable := []
deriving DecidableEq, Repr, Inhabited

namespace Callables

/-- All callables: constructors, then methods, then functions. -/
def all (c : Callables) : List Callable := c.constructors ++ c.methods ++ c.functions

end Callables

/-- How a record is represented. -/
inductive RecordKind
  /-- Passed as a handle. -/
  | ref
  /-- Passed by value. -/
  | value
  /-- The public layout of a class or interface. -/
  | publicLayout
  /-- The private layout of a class or interface. -/
  | privateLayout
deriving DecidableEq, Repr, Inhabited

def RecordKind.label : RecordKind → String
  | .ref => "ref"
  | .value => "value"
  | .publicLayout => "public-class"
  | .privateLayout => "private-class"

structure Record where
  name : SymbolName
  ctype : Option Spelling
  kind : RecordKind
  /-- The class or interface whose layout this record is. -/
  layoutOf : Option String
  callables : Callables
  fields : List Field
deriving DecidableEq, Repr, Inhabited

/-- Which layout of a class or interface a record is. -/
inductive LayoutKind
  | publicLayout
  | privateLayout
deriving DecidableEq, Hashable, Repr, Inhabited

def LayoutKind.label : LayoutKind → String
  | .publicLayout => "ClassStruct"
  | .privateLayout => "PrivateClassStruct"

/-- The layouts attached to a class or interface, at most one of each kind. -/
structure Layouts where
  publicLayout : Option Record := none
  privateLayout : Option Record := none
deriving DecidableEq, Repr, Inhabited

namespace Layouts

/-- The layout of a kind. -/
def get? (layouts : Layouts) : LayoutKind → Option Record
  | .publicLayout => layouts.publicLayout
  | .privateLayout => layouts.privateLayout

/-- Attaches a layout in place of an earlier one of its kind. -/
def put (layouts : Layouts) (record : Record) : LayoutKind → Layouts
  | .publicLayout => { layouts with publicLayout := some record }
  | .privateLayout => { layouts with privateLayout := some record }

/-- The attached layouts, public before private. -/
def toList (layouts : Layouts) : List (LayoutKind × Record) :=
  layouts.publicLayout.toList.map (.publicLayout, ·)
    ++ layouts.privateLayout.toList.map (.privateLayout, ·)

end Layouts

structure Class where
  name : SymbolName
  ctype : Option Spelling
  /-- The parent class, qualified when another namespace declares it. -/
  parent : Option String
  implements : List String
  callables : Callables
  fields : List Field
  signals : List Signal
  layouts : Layouts := {}
deriving DecidableEq, Repr, Inhabited

structure Interface where
  name : SymbolName
  ctype : Option Spelling
  callables : Callables
  signals : List Signal
  layouts : Layouts := {}
deriving DecidableEq, Repr, Inhabited

structure Union where
  name : SymbolName
  ctype : Option Spelling
  callables : Callables
  fields : List Field
deriving DecidableEq, Repr, Inhabited

structure Member where
  name : SymbolName
  cIdentifier : String
  value : String
deriving DecidableEq, Repr, Inhabited

structure Enumeration where
  name : SymbolName
  ctype : Option Spelling
  isBitfield : Bool
  members : List Member
  functions : List Callable
deriving DecidableEq, Repr, Inhabited

structure Callback where
  name : SymbolName
  ctype : Option Spelling
  returnValue : ReturnValue
  parameters : ParameterList
  throws : Bool
deriving DecidableEq, Repr, Inhabited

structure Constant where
  name : SymbolName
  cIdentifier : Option String
  value : String
  type : TypeReference
deriving DecidableEq, Repr, Inhabited

/-- Another name for a type. -/
structure Alias where
  name : SymbolName
  ctype : Spelling
  target : TypeReference
deriving DecidableEq, Repr, Inhabited

end Interop
