import Interop.Graph.Lookup

/-! Deciding the representation of a type reference. The native spelling is classified, after one
hop through the alias tables; a spelling that no table row covers is the name of a symbol. -/

namespace Interop

namespace Representation

/-- How a type with a given name encodes its texts. -/
def encodingOf (name : Option String) : TextEncoding :=
  if name = some "filename" then .platform else .utf8

/-- The representation of a category: a fault if it is refused, nothing if the spelling has to be
the name of a symbol. -/
def ofCategory (name : Option String) (s : Spelling) :
    Category → Except Fault (Option Representation)
  | .unsupported => .error (.unsupportedType s.text)
  | .unknown => .ok none
  | .countedHandle => .ok none
  | .primitive kind => .ok (some (.primitive kind))
  | .structuredValue => .ok (some .value)
  | .text => .ok (some (.text (encodingOf name)))
  | .handle => .ok (some .handle)
  | .callback => .ok (some .delegate)

def isText : Representation → Bool
  | .text _ => true
  | _ => false

end Representation

namespace DecidedType

/-- How a represented type is passed: parameters take texts as they are, pointers to primitives go
by reference, and every other pointer is a handle. -/
def ofClassified (representation : Representation) (c : Classification) (isParameter : Bool) :
    DecidedType :=
  if representation.isText && isParameter then (of representation).withPointer c.isPointer
  else if !c.isPointer then of representation
  else if c.isPrimitive then ((of representation).withPointer true).asRef
  else handle.withPointer true

/-- The decided type of a classified spelling, if it is no symbol's name. -/
def ofSpelling (name : Option String) (s : Spelling) (c : Classification) (isParameter : Bool) :
    Except Fault (Option DecidedType) := do
  let representation ← Representation.ofCategory name s c.category
  return representation.map (ofClassified · c isParameter)

end DecidedType

namespace Graph

/-- Decides a scalar type by the symbol that its name leads to. -/
def decideByName (g : Graph) (id : RepositoryId) (spec : TypeSpec) (isPointer isParameter : Bool) :
    Except Fault DecidedType := do
  let unresolved := Fault.unresolvedSymbol spec.label (g.canonicalName id)
  let name ← match spec.name with
    | some name => .ok name
    | none => .error unresolved
  match ← g.resolveName id name with
  | .symbol address => return (DecidedType.of (.symbol address)).withPointer isPointer
  | .native target =>
    match target.nativeSpelling with
    | none => .error unresolved
    | some s =>
      let c := classify s
      let c := { c with isPointer := c.isPointer || isPointer }
      match ← DecidedType.ofSpelling target.name s c isParameter with
      | some decided => return decided
      | none => .error unresolved

def decideSpec (g : Graph) (id : RepositoryId) (spec : TypeSpec) (isParameter : Bool) :
    Except Fault DecidedType :=
  match spec.nativeSpelling with
  | none =>
    if spec.name.isNone then .ok .handle else g.decideByName id spec false isParameter
  | some s =>
    if s.isAlwaysHandle then .ok (DecidedType.handle.withPointer s.isPointer)
    else do
      let s := (g.aliasHop id s).getD s
      let c := classify s
      match ← DecidedType.ofSpelling spec.name s c isParameter with
      | some decided => return decided
      | none => g.decideByName id spec c.isPointer isParameter

/-- Whether elements of a type cannot stand in a typed array. -/
def isOpaqueElement (g : Graph) (element : DecidedType) : Bool :=
  match element.representation with
  | .handle => true
  | .delegate => true
  | .symbol address => g.isReferenceType address
  | _ => element.byRef

/-- Decides an array of known length position by the type of its elements. -/
def decideArray (g : Graph) (id : RepositoryId) (element : TypeSpec) (length : Nat)
    (isParameter : Bool) : Except Fault DecidedType := do
  let decided ← g.decideSpec id element isParameter
  if decided.isText then return DecidedType.handle.asRef
  else if length = 0 || g.isOpaqueElement decided then return .handle
  else
    return {
      decided with isArray := true, lengthIndex := if isParameter then some length else none }

/-- Decides a type reference of a repository. Arrays of unknown length or element are handles. -/
def decide (g : Graph) (id : RepositoryId) (reference : TypeReference) :
    Except Fault DecidedType :=
  let isParameter := reference.context == .parameter
  match reference.array with
  | none => g.decideSpec id reference.spec isParameter
  | some ⟨some length, _, some element⟩ =>
    if element.isTyped then g.decideArray id element length isParameter else .ok .handle
  | some _ => .ok .handle

end Graph

end Interop
