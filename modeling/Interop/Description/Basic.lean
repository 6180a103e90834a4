/-! The description of one library, as its file gives it. Every attribute may be absent here; what
a declaration needs is checked when a namespace is built from its description. -/

namespace Interop.Description

/-- A type named by its introspection name, its native spelling, or both. -/
structure TypeUse where
  name : Option String := none
  ctype : Option String := none
deriving DecidableEq, Repr, Inhabited

/-- An array type, with the position of the parameter that carries its length. -/
structure ArrayUse where
  length : Option Nat := none
  ctype : Option String := none
  element : Option TypeUse := none
deriving DecidableEq, Repr, Inhabited

structure Alias where
  name : Option String := none
  ctype : Option String := none
  target : Option TypeUse := none
deriving DecidableEq, Repr, Inhabited

structure Parameter where
  name : Option String := none
  type : Option TypeUse := none
  array : Option ArrayUse := none
  varargs : Bool := false
  direction : Option String := none
  transferOwnership : Option String := none
  nullable : Bool := false
  allowNone : Bool := false
  callerAllocates : Bool := false
  closure : Option Nat := none
deriving DecidableEq, Repr, Inhabited

structure ReturnValue where
  type : Option TypeUse := none
  array : Option ArrayUse := none
  transferOwnership : Option String := none
  nullable : Bool := false
deriving DecidableEq, Repr, Inhabited

/-- A function, method or constructor. -/
structure Callable where
  name : Option String := none
  cIdentifier : Option String := none
  returnValue : Option ReturnValue := none
  instanceParameter : Option Parameter := none
  parameters : List Parameter := []
  throws : Bool := false
  introspectable : Option Bool := none
deriving DecidableEq, Repr, Inhabited

structure Callback where
  name : Option String := none
  ctype : Option String := none
  returnValue : Option ReturnValue := none
  parameters : List Parameter := []
  throws : Bool := false
deriving DecidableEq, Repr, Inhabited

/-- A field, which may be a function pointer with an inline signature. -/
structure Field where
  name : Option String := none
  type : Option TypeUse := none
  array : Option ArrayUse := none
  callback : Option Callback := none
  isPrivate : Bool := false
deriving DecidableEq, Repr, Inhabited

structure Signal where
  name : Option String := none
  returnValue : Option ReturnValue := none
  parameters : List Parameter := []
deriving DecidableEq, Repr, Inhabited

structure Class where
  name : Option String := none
  ctype : Option String := none
  parent : Option String := none
  implements : List String := []
  constructors : List Callable := []
  methods : List Callable := []
  functions : List Callable := []
  fields : List Field := []
  signals : List Signal := []
deriving DecidableEq, Repr, Inhabited

structure Interface where
  name : Option String := none
  ctype : Option String := none
  constructors : List Callable := []
  methods : List Callable := []
  functions : List Callable := []
  signals : List Signal := []
deriving DecidableEq, Repr, Inhabited

/-- A record, which may be the layout of a class or interface. -/
structure Record where
  name : Option String := none
  ctype : Option String := none
  disguised : Bool := false
  typeStructFor : Option String := none
  getType : Option String := none
  constructors : List Callable := []
  methods : List Callable := []
  functions : List Callable := []
  fields : List Field := []
deriving DecidableEq, Repr, Inhabited

structure Union where
  name : Option String := none
  ctype : Option String := none
  constructors : List Callable := []
  methods : List Callable := []
  functions : List Callable := []
  fields : List Field := []
deriving DecidableEq, Repr, Inhabited

structure Member where
  name : Option String := none
  cIdentifier : Option String := none
  value : Option String := none
deriving DecidableEq, Repr, Inhabited

/-- An enumeration or a bitfield. -/
structure Enumeration where
  name : Option String := none
  ctype : Option String := none
  members : List Member := []
  functions : List Callable := []
deriving DecidableEq, Repr, Inhabited

structure Constant where
  name : Option String := none
  cIdentifier : Option String := none
  value : Option String := none
  type : Option TypeUse := none
deriving DecidableEq, Repr, Inhabited

structure Namespace where
  name : Option String := none
  version : Option String := none
  sharedLibrary : Option String := none
  aliases : List Alias := []
  classes : List Class := []
  interfaces : List Interface := []
  records : List Record := []
  unions : List Union := []
  enumerations : List Enumeration := []
  bitfields : List Enumeration := []
  callbacks : List Callback := []
  functions : List Callable := []
  constants : List Constant := []
deriving DecidableEq, Repr, Inhabited

structure Include where
  name : Option String := none
  version : Option String := none
deriving DecidableEq, Repr, Inhabited

end Interop.Description

namespace Interop

/-- A description file: the namespace it describes and the namespaces that one includes. -/
structure Description where
  includes : List Description.Include := []
  namespaceInfo : Description.Namespace := {}
deriving DecidableEq, Repr, Inhabited

end Interop
