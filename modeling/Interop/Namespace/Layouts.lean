import Interop.Fault
import Interop.Namespace

/-! Attaching layouts. A record that describes the layout of a class or interface leaves the list of
records and is kept with its owner; its slot keeps it addressable by name. -/

namespace Interop.Namespace

/-- The class or interface with a native name; classes come first. -/
def layoutOwner? (ns : Namespace) (name : String) : Option (LayoutOwner × SymbolName) :=
  match ns.classes.zipIdx.find? (·.1.name.native == name) with
  | some (owner, i) => some (.classType i, owner.name)
  | none =>
    (ns.interfaces.zipIdx.find? (·.1.name.native == name)).map fun (owner, i) =>
      (.interfaceType i, owner.name)

/-- The owner that a layout record names: it must be declared in the same namespace. -/
def ownerOf (ns : Namespace) (record : Record) (owner : String) :
    Except Fault (LayoutOwner × SymbolName) :=
  let fault := Fault.ambiguousClassStruct s!"{ns.key.name}.{record.name.native}" owner
  let (qualifier, localName) := splitQualified owner
  if qualifier.any (· != ns.key.name) then .error fault
  else
    match ns.layoutOwner? localName with
    | some found => .ok found
    | none => .error fault

/-- Which layout of its owner a record describes. -/
def layoutKind (record : Record) : LayoutKind :=
  if record.kind == .privateLayout then .privateLayout else .publicLayout

/-- The record under the nested name that it gets as a layout. -/
def renamed (record : Record) (owner : SymbolName) (kind : LayoutKind) : Record :=
  { record with name := ⟨record.name.native, s!"{owner.managed}.Native.{kind.label}"⟩ }

/-- Attaches a layout to its owner in place of an earlier one of its kind. -/
def attach (ns : Namespace) (owner : LayoutOwner) (kind : LayoutKind) (record : Record) :
    Namespace :=
  let attached := match owner with
    | .classType i =>
      { ns with classes := ns.classes.modify i fun c =>
        { c with layouts := c.layouts.put record kind } }
    | .interfaceType i =>
      { ns with interfaces := ns.interfaces.modify i fun c =>
        { c with layouts := c.layouts.put record kind } }
  let slot : LayoutSlot := ⟨owner, kind⟩
  if ns.layoutSlots.contains slot then attached
  else { attached with layoutSlots := ns.layoutSlots ++ [slot] }

/-- Puts one record where it belongs: with its owner if it is a layout, behind the records if
not. -/
def place (ns : Namespace) (record : Record) : Except Fault Namespace :=
  match record.layoutOf with
  | none => .ok { ns with records := ns.records ++ [record] }
  | some name => do
    let (owner, ownerName) ← ns.ownerOf record name
    let kind := layoutKind record
    return ns.attach owner kind (renamed record ownerName kind)

/-- Attaches every record that is a layout to its owner. -/
def attachLayouts (ns : Namespace) : Except Fault Namespace :=
  ns.records.foldlM place { ns with records := [] }

end Interop.Namespace
