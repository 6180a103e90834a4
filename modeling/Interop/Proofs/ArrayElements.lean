import Interop.Proofs.Nullability
import Interop.Proofs.Shape

/-! Arrays of pointers. An array whose elements are pointers is a handle, unless these are pointers to values
that a symbol stands for: then it stays typed, as an array of the values themselves. Main statement:
`typed_pointers_iff`. -/

namespace Interop

namespace Graph

variable {g : Graph} {id : RepositoryId} {spec : TypeSpec} {reference : TypeReference} {isParameter : Bool}
  {d element : DecidedType} {address : SymbolRef}

/-- A type with a pointer marker whose name leads to a symbol that is passed by value. -/
structure PointsToValue (g : Graph) (id : RepositoryId) (spec : TypeSpec) (address : SymbolRef) : Prop where
  left : g.LeftToName id spec true
  lead : ∃ name, spec.name = some name ∧ g.resolveName id name = .ok (.symbol address)
  value : g.isReferenceType address = false

/-- Such symbols are neither classes nor interfaces, nor aliases, which names lead beyond. -/
theorem PointsToValue.kind_mem (h : g.PointsToValue id spec address) :
    address.kind ∈ [.record, .union, .enumeration, .bitfield, .callback, .classStruct] := by
  obtain ⟨name, -, hlead⟩ := h.lead
  obtain ⟨hkind, ⟨r, symbolName, hr, -⟩, -⟩ := usable_of_resolveName hlead
  have hvalue := h.value
  rw [isReferenceType, hr, Option.any_some] at hvalue
  cases hcase : address.kind with
  | classType | interfaceType =>
      rw [hcase] at hvalue
      cases hvalue
  | «alias» => exact absurd hcase hkind
  | _ => decide

/-! ### Elements -/

/-- A type is decided to a symbol only by its name. -/
theorem DecidesSpec.of_symbol (h : g.DecidesSpec id spec isParameter d) (hsymbol : d.representation = .symbol address) :
    g.LeftToName id spec d.isPointer ∧
      ∃ name, spec.name = some name ∧ g.resolveName id name = .ok (.symbol address) := by
  have hspelled : ∀ {name : Option String} {s : Spelling} {c : Classification},
      DecidedType.ofSpelling name s c isParameter ≠ .ok (some d) := by
    intro name s c hd
    have hnone := DecidedType.symbol?_of_ofSpelling hd
    rw [DecidedType.symbol?, hsymbol] at hnone
    cases hnone
  cases h with
  | untyped => cases hsymbol
  | spelled _ hrepresentation =>
      exact (hspelled (DecidedType.ofSpelling_eq_ok.mpr ⟨_, hrepresentation, rfl⟩)).elim
  | symbol hleft hname hlead =>
      cases hsymbol
      exact ⟨hleft, _, hname, hlead⟩
  | @native isPointer _ target s _ _ _ _ _ hrepresentation =>
      have hnone : DecidedType.ofSpelling target.name s ((classify s).orPointer isPointer) isParameter ≠ _ := hspelled
      exact (hnone (DecidedType.ofSpelling_eq_ok.mpr ⟨_, hrepresentation, rfl⟩)).elim

/-- An element of a typed array is a value without a marker, or a symbol that is passed by value. -/
theorem DecidesSpec.stays (h : g.DecidesSpec id spec isParameter d) (htext : d.isText = false)
    (hstructured : g.isOpaqueElement d = false) :
    (g.isPrimitiveValue d = true ∧ d.isPointer = false) ∨
      ∃ address, d.representation = .symbol address ∧ g.isReferenceType address = false := by
  cases h.isScalar with
  | plain hplain =>
      cases hplain with
      | value hvalue => exact .inl (by cases hvalue <;> exact ⟨rfl, rfl⟩)
      | handle | delegate => cases hstructured
  | value hvalue => cases hvalue <;> cases hstructured
  | text => cases htext
  | handle => cases hstructured
  | symbol husable isPointer => exact .inr ⟨_, rfl, hstructured⟩

/-- An element of a typed array is marked as a pointer exactly where its type is pointed. -/
theorem DecidesSpec.isPointer_iff_of_stays (h : g.DecidesSpec id spec isParameter d) (htext : d.isText = false)
    (hstructured : g.isOpaqueElement d = false) : d.isPointer = true ↔ g.Pointed id spec := by
  obtain ⟨hvalue, -⟩ | ⟨address, hsymbol, -⟩ := h.stays htext hstructured
  · exact h.isPointer_iff hvalue
  · obtain ⟨hleft, name, hname, hlead⟩ := h.of_symbol hsymbol
    rw [pointed_of_leftToName hleft hname hlead]
    simp

/-- The pointers among the elements of typed arrays. -/
theorem DecidesSpec.isPointer_iff_pointsToValue (h : g.DecidesSpec id spec isParameter d) (htext : d.isText = false)
    (hstructured : g.isOpaqueElement d = false) : d.isPointer = true ↔ ∃ address, g.PointsToValue id spec address := by
  constructor
  · intro hpointer
    obtain ⟨-, hplain⟩ | ⟨address, hsymbol, hvalue⟩ := h.stays htext hstructured
    · rw [hplain] at hpointer
      cases hpointer
    · obtain ⟨hleft, hlead⟩ := h.of_symbol hsymbol
      rw [hpointer] at hleft
      exact ⟨address, hleft, hlead, hvalue⟩
  · rintro ⟨address, hleft, ⟨name, hname, hlead⟩, -⟩
    rw [h.isPointer_iff_of_stays htext hstructured, pointed_of_leftToName hleft hname hlead]
    exact .inl rfl

/-- A pointer to a value is decided to the symbol of the value, with the marker. -/
theorem PointsToValue.decideSpec_eq (h : g.PointsToValue id spec address) :
    g.decideSpec id spec isParameter = .ok ((DecidedType.of (.symbol address)).withPointer true) := by
  obtain ⟨name, hname, hlead⟩ := h.lead
  exact decideSpec_eq_ok.mpr (.symbol h.left hname hlead)

theorem PointsToValue.isTyped (h : g.PointsToValue id spec address) : spec.isTyped = true := by
  obtain ⟨name, hname, -⟩ := h.lead
  rw [TypeSpec.isTyped, hname]
  rfl

/-! ### Arrays -/

/-- What becomes of an array by the pointers among its elements. -/
structure ArrayOfPointers (g : Graph) (id : RepositoryId) (array : ArrayInfo) (element : TypeSpec)
    (d : DecidedType) : Prop where
  /-- A typed array is marked as its elements are pointed. -/
  marked : d.isArray = true → (d.isPointer = true ↔ g.Pointed id element)
  /-- The elements of a typed array are pointers only where they point to values of a symbol. -/
  typed_iff : d.isArray = true ∧ d.isPointer = true ↔
    ∃ address, g.PointsToValue id element address ∧ ∃ length, array.length = some length ∧ length ≠ 0
  represented : d.isArray = true → ∀ address, g.PointsToValue id element address →
    d.representation = .symbol address
  collapsed : g.Pointed id element → (∀ address, ¬g.PointsToValue id element address) → d.isHandle = true
  kind_mem : ∀ address, g.PointsToValue id element address →
    address.kind ∈ [.record, .union, .enumeration, .bitfield, .callback, .classStruct]

end Graph

/-- A typed array is marked as a pointer exactly where the spelling of its elements has a pointer marker, be it
behind aliases; and that is the case only where the elements are pointers to values of a symbol, as which they
are represented. An array of any other pointers is a handle, and so is one whose elements are not told. -/
theorem typed_pointers_iff {g : Graph} {id : RepositoryId} {reference : TypeReference} {array : ArrayInfo}
    (harray : reference.array = some array) {d : DecidedType} (hd : g.decide id reference = .ok d) :
    (array.element = none → d = .handle) ∧
      ∀ element, array.element = some element → g.ArrayOfPointers id array element d := by
  refine ⟨fun hnone => ?_, fun element helement => ?_⟩
  · have hunsized : array.sized? = none := by simp [ArrayInfo.sized?, hnone]
    exact Except.ok.inj (hd.symm.trans (Graph.decide_eq_ok.mpr (.unsized harray hunsized)))
  have hpointers : ∀ {address}, g.PointsToValue id element address → ∀ {length}, array.length = some length →
      length ≠ 0 → d = { (DecidedType.of (.symbol address)).withPointer true with
        isArray := true, lengthIndex := if reference.context == .parameter then some length else none } := by
    intro address hpoints length hlength hpos
    have hsized := ArrayInfo.sized?_eq_some.mpr ⟨hlength, helement, hpoints.isTyped⟩
    have htyped := Graph.Decides.typed harray hsized hpoints.decideSpec_eq rfl hpos hpoints.value
    exact Except.ok.inj (hd.symm.trans (Graph.decide_eq_ok.mpr htyped))
  cases Graph.decide_eq_ok.mp hd with
  | scalar hnone =>
      rw [harray] at hnone
      cases hnone
  | unsized | texts | collapsed =>
      refine ⟨fun h => Bool.noConfusion h, iff_of_false (fun h => Bool.noConfusion h.1) ?_,
        fun h => Bool.noConfusion h, fun _ _ => rfl, fun _ h => h.kind_mem⟩
      rintro ⟨address, hpoints, length, hlength, hpos⟩
      cases hpointers hpoints hlength hpos
  | @typed array' length _ decided harray' hsized h htext hlength hstructured =>
      obtain rfl := Option.some.inj (harray.symm.trans harray')
      obtain ⟨hsome, helement', -⟩ := ArrayInfo.sized?_eq_some.mp hsized
      obtain rfl := Option.some.inj (helement.symm.trans helement')
      have hspec := Graph.decideSpec_eq_ok.mp h
      have hpointer := hspec.isPointer_iff_pointsToValue htext hstructured
      have hmarked := hspec.isPointer_iff_of_stays htext hstructured
      constructor
      case marked => exact fun _ => hmarked
      case typed_iff =>
        constructor
        · rintro ⟨-, h⟩
          obtain ⟨address, hpoints⟩ := hpointer.mp h
          exact ⟨address, hpoints, length, hsome, hlength⟩
        · rintro ⟨address, hpoints, -⟩
          exact ⟨rfl, hpointer.mpr ⟨address, hpoints⟩⟩
      case represented =>
        intro _ address hpoints
        rw [hpointers hpoints hsome hlength]
        rfl
      case collapsed =>
        intro hpointed hnone
        obtain ⟨address, hpoints⟩ := hpointer.mp (hmarked.mpr hpointed)
        exact absurd hpoints (hnone address)
      case kind_mem => exact fun _ h => h.kind_mem

namespace Sample

/-- A value record, a union, an enumeration, a bitfield, a callback, a class with its layout, and a typedef of a
pointer to the record. -/
def canvasDescription : Description where
  namespaceInfo := {
    name := some "Canvas", version := some "1.0"
    classes := [{ name := some "Pane" }]
    records := [
      { name := some "Border", fields := [{ name := some "left", type := some { name := some "gint" } }] },
      { name := some "PaneClass", typeStructFor := some "Pane" }]
    unions := [{ name := some "Event" }]
    enumerations := [{ name := some "Align" }]
    bitfields := [{ name := some "State" }]
    callbacks := [{
      name := some "Tick"
      returnValue := some { type := some { name := some "none" }, transferOwnership := some "none" } }]
    aliases := [described ("Frame", "CanvasFrame", "Border", "CanvasBorder*")] }

def canvas : Graph := ({} : Graph).after [.register canvasDescription, .link]

def canvasRepository : Repository where
  content := {
    key := ⟨"Canvas", "1.0"⟩
    aliases := [built ("Frame", "CanvasFrame", "Border", "CanvasBorder*")]
    classes := [{
      name := .pascal "Pane", ctype := none, parent := none, implements := []
      callables := {}, fields := [], signals := []
      layouts := {
        publicLayout := some
          ⟨⟨"PaneClass", "Pane.Native.ClassStruct"⟩, none, .publicLayout, some "Pane", {}, []⟩ } }]
    records := [⟨.pascal "Border", none, .value, none, {},
      [⟨.pascal "left", .scalar ⟨some "gint", none⟩ .field, false⟩]⟩]
    unions := [⟨.pascal "Event", none, {}, []⟩]
    enumerations := [⟨.pascal "Align", none, false, [], []⟩]
    bitfields := [⟨.pascal "State", none, true, [], []⟩]
    callbacks := [⟨.pascal "Tick", none, ⟨.scalar ⟨some "none", none⟩ .returnValue, .nothing, false⟩, {}, false⟩]
    layoutSlots := [⟨.classType 0, .publicLayout⟩] }
  includes := []

theorem ofDescription_canvas : (Repository.ofDescription canvasDescription).outcome = .ok canvasRepository := by
  rfl

theorem canvas_eq : canvas = {
    repositories := [canvasRepository], positions := [(⟨"Canvas", "1.0"⟩, ⟨0⟩)], buildOrder := [⟨0⟩] } := by
  rw [canvas, Graph.after]
  simp only [List.foldl, GraphCall.apply, ofDescription_canvas]
  cbv

/-- An array with its length in another parameter. -/
def arrayOf (element : TypeSpec) : TypeReference := .ofArray ⟨some 1, none, some element⟩ .parameter

/-- Pointers to values, with the symbols that these are. -/
def pointers : List (TypeSpec × SymbolRef) :=
  [(named "Border" "CanvasBorder*", ⟨⟨0⟩, .record, 0⟩), (named "Event" "CanvasEvent*", ⟨⟨0⟩, .union, 0⟩),
    (named "Align" "CanvasAlign*", ⟨⟨0⟩, .enumeration, 0⟩), (named "State" "CanvasState*", ⟨⟨0⟩, .bitfield, 0⟩),
    (named "Tick" "CanvasTick*", ⟨⟨0⟩, .callback, 0⟩), (named "PaneClass" "CanvasPaneClass*", ⟨⟨0⟩, .classStruct, 0⟩),
    (named "Frame" "CanvasFrame", ⟨⟨0⟩, .record, 0⟩)]

end Sample

open Sample in
/-- Arrays of pointers to values of all kinds, the last one by a typedef, are typed as arrays of the values. -/
theorem typed_canvas :
    pointers.map (fun (spec, _) => canvas.decide ⟨0⟩ (arrayOf spec)) = pointers.map fun (_, address) =>
      .ok { representation := .symbol address, isArray := true, isPointer := true, lengthIndex := some 1 } := by
  rw [canvas_eq]
  decide +kernel

open Sample in
theorem typed_pointers_iff_canvas :
    canvas.ArrayOfPointers ⟨0⟩ ⟨some 1, none, some (named "Frame" "CanvasFrame")⟩ (named "Frame" "CanvasFrame")
      { representation := .symbol ⟨⟨0⟩, .record, 0⟩, isArray := true, isPointer := true, lengthIndex := some 1 } ∧
    ∃ address, canvas.PointsToValue ⟨0⟩ (named "Frame" "CanvasFrame") address := by
  have hframe : canvas.decide ⟨0⟩ (arrayOf (named "Frame" "CanvasFrame")) = .ok
      { representation := .symbol ⟨⟨0⟩, .record, 0⟩, isArray := true, isPointer := true, lengthIndex := some 1 } := by
    rw [canvas_eq]
    decide +kernel
  obtain ⟨-, helement⟩ := typed_pointers_iff rfl hframe
  have hpointers := helement (named "Frame" "CanvasFrame") rfl
  obtain ⟨address, hpoints, -⟩ := hpointers.typed_iff.mp ⟨rfl, rfl⟩
  exact ⟨hpointers, address, hpoints⟩

end Interop
