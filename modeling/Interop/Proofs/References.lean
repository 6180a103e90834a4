import Interop.Report

/-! The type references of a namespace by their sites, and those of an item to emit, which stands at the place
of its declaration. -/

namespace Interop

/-! ### Declarations -/

/-- A reference of something that returns a value and takes parameters. -/
def ParameterList.referenceAt? (list : ParameterList) (result : TypeReference) :
    TypeSlot → Option TypeReference
  | .result => some result
  | .receiver => list.receiver.map (·.type)
  | .parameter i => list.declared[i]?.map (·.type)
  | _ => none

def fieldReferenceAt? (fields : List Field) : TypeSlot → Option TypeReference
  | .field i => fields[i]?.map (·.type)
  | _ => none

def valueReferenceAt? (value : TypeReference) : TypeSlot → Option TypeReference
  | .value => some value
  | _ => none

def Callables.ofKind (c : Callables) : CallableKind → List Callable
  | .function => c.functions
  | .method => c.methods
  | .constructor => c.constructors

namespace Namespace

variable (ns : Namespace)

/-- The callables of a kind that a holder has. -/
def callablesOf (kind : CallableKind) : Holder → List Callable
  | .free => if kind = .function then ns.functions else []
  | .enumeration i => if kind = .function then ns.enumerations[i]?.elim [] (·.functions) else []
  | .bitfield i => if kind = .function then ns.bitfields[i]?.elim [] (·.functions) else []
  | .classType i => ns.classes[i]?.elim [] (·.callables.ofKind kind)
  | .interfaceType i => ns.interfaces[i]?.elim [] (·.callables.ofKind kind)
  | .record i => ns.records[i]?.elim [] (·.callables.ofKind kind)
  | .union i => ns.unions[i]?.elim [] (·.callables.ofKind kind)
  | .layout slot => (ns.layoutAt? slot).elim [] (·.callables.ofKind kind)

def signalsOf : Holder → List Signal
  | .classType i => ns.classes[i]?.elim [] (·.signals)
  | .interfaceType i => ns.interfaces[i]?.elim [] (·.signals)
  | _ => []

def fieldsOf : Holder → List Field
  | .classType i => ns.classes[i]?.elim [] (·.fields)
  | .record i => ns.records[i]?.elim [] (·.fields)
  | .union i => ns.unions[i]?.elim [] (·.fields)
  | .layout slot => (ns.layoutAt? slot).elim [] (·.fields)
  | _ => []

/-- The type reference in a slot of what is declared at a place. -/
def referenceAt? (slot : TypeSlot) : Place → Option TypeReference
  | .type holder => fieldReferenceAt? (ns.fieldsOf holder) slot
  | .callable holder kind i =>
    (ns.callablesOf kind holder)[i]?.bind fun c => c.parameters.referenceAt? c.returnValue.type slot
  | .signal holder i =>
    (ns.signalsOf holder)[i]?.bind fun s => s.parameters.referenceAt? s.returnValue.type slot
  | .callback i =>
    ns.callbacks[i]?.bind fun c => c.parameters.referenceAt? c.returnValue.type slot
  | .constant i => ns.constants[i]?.bind fun c => valueReferenceAt? c.type slot
  | .alias i => ns.aliases[i]?.bind fun a => valueReferenceAt? a.target slot

end Namespace

/-- The type reference at a site. -/
def Graph.referenceAt? (g : Graph) (site : Site) : Option TypeReference :=
  (g.repository? site.repository).bind (·.content.referenceAt? site.slot site.place)

/-! ### Items -/

/-- The type reference in a slot of what an item emits. -/
def Work.referenceAt? (slot : TypeSlot) : Work → Option TypeReference
  | .callable _ c => c.parameters.referenceAt? c.returnValue.type slot
  | .callback c => c.parameters.referenceAt? c.returnValue.type slot
  | .signal _ s => s.parameters.referenceAt? s.returnValue.type slot
  | .layout _ _ fields _ => fieldReferenceAt? fields slot
  | .classLayout c => fieldReferenceAt? c.fields slot
  | .enumeration _ => none
  | .constant c => valueReferenceAt? c.type slot

/-- What an item emits is declared at its place. -/
def WorkItem.DeclaredIn (ns : Namespace) (item : WorkItem) : Prop :=
  ∀ slot reference, item.work.referenceAt? slot = some reference →
    ns.referenceAt? slot item.place = some reference

end Interop
