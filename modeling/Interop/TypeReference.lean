import Interop.Classification
import Interop.Symbol

/-! References to types, as declarations make them, and the representations that are decided for
them. -/

namespace Interop

/-- Where a type is referred to. -/
inductive TypeContext
  | parameter
  | returnValue
  | field
  | constant
  | aliasTarget
deriving DecidableEq, Hashable, Repr, Inhabited

def TypeContext.label : TypeContext → String
  | .parameter => "parameter"
  | .returnValue => "return-value"
  | .field => "field"
  | .constant => "constant"
  | .aliasTarget => "alias-target"

/-- A scalar type: the name of a symbol or fundamental type, which may be qualified by a namespace,
and a native spelling. -/
structure TypeSpec where
  name : Option String := none
  ctype : Option Spelling := none
deriving DecidableEq, Hashable, Repr, Inhabited

namespace TypeSpec

/-- The spelling that is classified: the one given, or that of a fundamental type name. -/
def nativeSpelling (spec : TypeSpec) : Option Spelling :=
  match spec.ctype with
  | some ctype => some ctype
  | none => spec.name.bind fundamentalSpelling

def label (spec : TypeSpec) : String :=
  match spec.name, spec.ctype with
  | some name, some ctype => s!"{name} ({ctype.text})"
  | some name, none => name
  | none, some ctype => ctype.text
  | none, none => "<untyped>"

def isTyped (spec : TypeSpec) : Bool := spec.name.isSome || spec.ctype.isSome

end TypeSpec

/-- What is known about an array: the position of the parameter that carries its length, its own
spelling and its element. -/
structure ArrayInfo where
  length : Option Nat := none
  ctype : Option Spelling := none
  element : Option TypeSpec := none
deriving DecidableEq, Hashable, Repr, Inhabited

structure TypeReference where
  spec : TypeSpec
  array : Option ArrayInfo
  context : TypeContext
deriving DecidableEq, Hashable, Repr, Inhabited

namespace TypeReference

def scalar (spec : TypeSpec) (context : TypeContext) : TypeReference := ⟨spec, none, context⟩

def ofArray (array : ArrayInfo) (context : TypeContext) : TypeReference :=
  ⟨⟨none, array.ctype⟩, some array, context⟩

/-- A reference without any type, which always decides to the untyped handle. -/
def untyped (context : TypeContext) : TypeReference :=
  scalar ⟨none, some (.ofString "gpointer")⟩ context

def isArray (reference : TypeReference) : Bool := reference.array.isSome

/-- Whether the spelling of the reference itself is a pointer. -/
def isPointer (reference : TypeReference) : Bool := reference.spec.ctype.any (·.isPointer)

def label (reference : TypeReference) : String :=
  match reference.array with
  | none => reference.spec.label
  | some array =>
    match array.element with
    | some element => s!"array of {element.label}"
    | none => "array"

end TypeReference

inductive TextEncoding
  | utf8
  /-- The encoding of file names. -/
  | platform
deriving DecidableEq, Hashable, Repr, Inhabited

/-- What a type is in the generated code. -/
inductive Representation
  | primitive (kind : PrimitiveKind)
  /-- The generic value container. -/
  | value
  | text (encoding : TextEncoding)
  /-- An address without structure. -/
  | handle
  /-- A function pointer without a signature. -/
  | delegate
  | symbol (address : SymbolRef)
deriving DecidableEq, Hashable, Repr, Inhabited

/-- A decided type: a representation and how it is passed. -/
structure DecidedType where
  representation : Representation
  /-- Whether a pointer to a primitive is passed by reference. -/
  byRef : Bool := false
  isArray : Bool := false
  /-- Whether the classified spelling was a pointer. -/
  isPointer : Bool := false
  /-- The position of the parameter with the length; only parameters have one. -/
  lengthIndex : Option Nat := none
deriving DecidableEq, Hashable, Repr, Inhabited

namespace DecidedType

def of (representation : Representation) : DecidedType := { representation }

def handle : DecidedType := .of .handle

def withPointer (d : DecidedType) (isPointer : Bool) : DecidedType := { d with isPointer }

def asRef (d : DecidedType) : DecidedType := { d with byRef := true }

def isHandle (d : DecidedType) : Bool := d.representation == .handle && !d.isArray

def isText (d : DecidedType) : Bool :=
  match d.representation with
  | .text _ => !d.isArray
  | _ => false

def isVoid (d : DecidedType) : Bool :=
  d.representation == .primitive .void && !d.isArray && !d.byRef

/-- The symbol that represents the type, if one does. -/
def symbol? (d : DecidedType) : Option SymbolRef :=
  match d.representation with
  | .symbol address => some address
  | _ => none

def isExternal (d : DecidedType) (current : RepositoryId) : Bool :=
  d.symbol?.any (·.isExternal current)

end DecidedType

end Interop
