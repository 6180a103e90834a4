import Interop.Graph.Decide

/-! How parameters and return values are passed: the direction keyword, whether null is allowed, and
the hint for the marshaller. Managed signatures follow the declaration; native signatures allow no
null where an address is passed. -/

namespace Interop

/-- The side of a binding that a signature is for. -/
inductive Target
  | managed
  | native
deriving DecidableEq, Repr, Inhabited

/-- The direction keyword in front of a type. -/
inductive Decoration
  | plain
  | ref
  | out
deriving DecidableEq, Repr, Inhabited

namespace Decoration

def label : Decoration → String
  | .plain => "none"
  | .ref => "ref"
  | .out => "out"

/-- The keyword with the blank behind it. -/
def keyword : Decoration → String
  | .plain => ""
  | .ref => "ref "
  | .out => "out "

/-- The decoration of a parameter by its direction. Arrays that go both ways carry none, and an
outgoing value in memory of the caller is a reference. -/
def of (parameter : Parameter) : Decoration :=
  match parameter.direction with
  | .into => .plain
  | .ref => if parameter.type.isArray then .plain else .ref
  | .out => if parameter.callerAllocates then .ref else .out

end Decoration

/-- What the marshaller has to be told about a native parameter. -/
inductive MarshalHint
  /-- The length of an array is passed in the parameter at a position. -/
  | sizedArray (lengthIndex : Nat)
  | text (encoding : TextEncoding)
deriving DecidableEq, Repr, Inhabited

/-- The attribute that states a hint. -/
def MarshalHint.marshalAs : MarshalHint → String
  | .sizedArray lengthIndex =>
    s!"[MarshalAs(UnmanagedType.LPArray, SizeParamIndex={lengthIndex})]"
  | .text .utf8 => "[MarshalAs(UnmanagedType.LPUTF8Str)]"
  | .text .platform => "[MarshalAs(UnmanagedType.LPStr)]"

/-- How a parameter is passed. -/
structure ParameterPassing where
  decoration : Decoration
  nullable : Bool
  hint : Option MarshalHint
  /-- The type behind the decoration. -/
  type : DecidedType
deriving DecidableEq, Repr, Inhabited

/-- How a return value is passed. -/
structure ReturnPassing where
  nullable : Bool
  type : DecidedType
deriving DecidableEq, Repr, Inhabited

namespace MarshalHint

/-- The hint for a native parameter, whose declared positions are shifted by `offset`. -/
def of? (type : DecidedType) (offset : Nat) : Option MarshalHint :=
  if type.isArray then type.lengthIndex.map fun i => .sizedArray (i + offset)
  else
    match type.representation with
    | .text encoding => some (.text encoding)
    | _ => none

end MarshalHint

namespace Graph

/-- Whether a type is represented by a primitive or a structured value. -/
def isPrimitiveValue (g : Graph) (type : DecidedType) : Bool :=
  match type.representation with
  | .primitive _ => true
  | .value => true
  | .symbol address => (g.category address).isPrimitive
  | _ => false

/-- Whether a native signature passes an address for a reference, so that it cannot allow null. -/
def isAddress (g : Graph) (reference : TypeReference) (type : DecidedType) : Bool :=
  type.isHandle || reference.isArray || type.isArray
    || type.symbol?.any g.isReferenceType
    || (reference.isPointer && g.isPrimitiveValue type)

/-- Whether null is allowed for a value that is declared to allow it or not. -/
def allowsNull (g : Graph) (declared : Bool) (reference : TypeReference) (type : DecidedType) :
    Target → Bool
  | .managed => declared
  | .native => declared && !g.isAddress reference type

/-- How a declared parameter of a decided type is passed. Nothing can be passed as `void`, and no
type is both decorated and by reference. -/
def passParameter (g : Graph) (parameter : Parameter) (decided : DecidedType) (target : Target)
    (offset : Nat) : ParameterPassing :=
  let type := if decided.isVoid then .handle else decided
  let decoration := Decoration.of parameter
  let type := if decoration = .plain then type else { type with byRef := false }
  {
    decoration, type,
    nullable := g.allowsNull parameter.nullable parameter.type type target,
    hint := if target = .native then MarshalHint.of? type offset else none }

/-- How the instance that a method is called on is passed. -/
def passReceiver (g : Graph) (receiver : Parameter) (decided : DecidedType) (target : Target) :
    ParameterPassing :=
  {
    decoration := .plain, type := decided, hint := none,
    nullable := g.allowsNull receiver.nullable receiver.type decided target }

/-- How a return value of a decided type is passed. -/
def passReturn (g : Graph) (value : ReturnValue) (decided : DecidedType) (target : Target) :
    ReturnPassing :=
  ⟨g.allowsNull value.nullable value.type decided target, decided⟩

/-- The name of a decided type in the generated code of a repository. Natively, values of reference
types are untyped handles. -/
def typeName (g : Graph) (current : RepositoryId) (type : DecidedType) (target : Target) :
    String :=
  let base := match type.representation with
    | .primitive kind => kind.managedName
    | .value => "GObject.Value"
    | .text _ => "string"
    | .handle => "IntPtr"
    | .delegate => "Delegate"
    | .symbol address =>
      if target = .native && g.isReferenceType address then "IntPtr"
      else g.managedName address current
  let shaped := if type.isArray then base ++ "[]" else base
  if type.byRef then "ref " ++ shaped else shaped

end Graph

end Interop
