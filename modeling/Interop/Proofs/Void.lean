import Interop.Proofs.Deciding
import Interop.Proofs.Parameters

/-! Parameters of type `void`. A parameter cannot be `void`, so that one is passed as a handle; but an instance
stays `void`, and so do the elements of an array and a `void` whose pointer marker stands at a name. Main
statement: `passing_void_iff`. -/

namespace Interop

/-! ### Void -/

/-- Only `void` without a pointer marker is of the category of `void`. -/
theorem categoryOf_eq_void {base : String} {pointer : Bool} :
    categoryOf base pointer = .primitive .void ↔ base = "void" ∧ pointer = false := by
  constructor
  · -- one row of the table is of this category
    intro h
    have hrow : ∀ row ∈ classificationTable, row.category = .primitive .void →
        row.bases = ["void"] ∧ row.pointer = some false := by decide
    obtain ⟨row, hmem, hcovers, hcategory⟩ | ⟨-, hcategory⟩ | ⟨-, -, hcategory⟩ :=
      categoryOf_cases base pointer
    · obtain ⟨hbases, hpointer⟩ := hrow row hmem (hcategory.symm.trans h)
      have hbase := ClassificationRow.mem_bases hcovers
      rw [hbases, List.mem_singleton] at hbase
      exact ⟨hbase, ClassificationRow.pointer_eq hcovers hpointer⟩
    · simp [hcategory] at h
    · simp [hcategory] at h
  · rintro ⟨rfl, rfl⟩
    decide

theorem Representation.ofCategory_eq_void {name : Option String} {s : Spelling} {category : Category} :
    ofCategory name s category = .ok (some (.primitive .void)) ↔ category = .primitive .void := by
  cases category with
  | primitive kind => simp [ofCategory]
  | _ => exact iff_of_false nofun nofun

namespace DecidedType

/-- What `void` is decided to, by the pointer marker of its spelling and the one at a name for it. -/
def ofVoid : (isPointer behind : Bool) → DecidedType
  | true, _ => handle.withPointer true
  | false, true => ((of (.primitive .void)).withPointer true).asRef
  | false, false => of (.primitive .void)

theorem ofClassified_void {name : Option String} {s : Spelling} (hbase : s.base = "void")
    {representation : Representation}
    (h : Representation.ofCategory name s (classify s).category = .ok (some representation))
    (behind isParameter : Bool) :
    ofClassified representation ((classify s).orPointer behind) isParameter = ofVoid s.isPointer behind := by
  have hclassify : classify s = if s.isPointer then ⟨.handle, true, false⟩
      else ⟨.primitive .void, false, true⟩ := by
    rw [classify, hbase]
    cases s.isPointer <;> decide
  rw [hclassify] at h ⊢
  cases hpointer : s.isPointer with
  | true =>
      rw [hpointer] at h
      cases h
      rfl
  | false =>
      rw [hpointer] at h
      cases h
      cases behind <;> rfl

theorem representation_of_ofClassified_void {representation : Representation} {c : Classification}
    {isParameter : Bool} (h : (ofClassified representation c isParameter).representation = .primitive .void) :
    representation = .primitive .void := by
  unfold ofClassified at h
  split at h
  · exact h
  · split at h
    · exact h
    · split at h
      · exact h
      · cases h

theorem handle_or_void_ofVoid (isPointer behind : Bool) :
    ((ofVoid isPointer behind).isHandle ∧ (ofVoid isPointer behind).byRef = false) ∨
      (ofVoid isPointer behind).representation = .primitive .void := by
  cases isPointer with
  | true => exact .inl ⟨rfl, rfl⟩
  | false => cases behind <;> exact .inr rfl

theorem isText_ofVoid (isPointer behind : Bool) : (ofVoid isPointer behind).isText = false := by
  cases isPointer <;> cases behind <;> rfl

end DecidedType

theorem Graph.isOpaqueElement_ofVoid (g : Graph) (isPointer behind : Bool) :
    g.isOpaqueElement (.ofVoid isPointer behind) = (isPointer || behind) := by
  cases isPointer <;> cases behind <;> rfl

namespace Graph

variable {g : Graph} {id : RepositoryId} {spec : TypeSpec} {isParameter : Bool} {d : DecidedType} {s : Spelling}
  {behind : Bool}

/-- A type is `void` by a spelling, with or without a pointer marker behind its name. -/
inductive VoidBy (g : Graph) (id : RepositoryId) (spec : TypeSpec) : Spelling → Bool → Prop
  | spelled {s : Spelling} (hs : g.classifiedSpelling id spec = some s) (hbase : s.base = "void") :
    VoidBy g id spec s false
  /-- The name leads to an alias of `void`. -/
  | named {isPointer : Bool} {name : String} {target : TypeSpec} {s : Spelling}
    (h : g.LeftToName id spec isPointer) (hname : spec.name = some name)
    (hlead : g.resolveName id name = .ok (.native target)) (hs : target.nativeSpelling = some s)
    (hbase : s.base = "void") : VoidBy g id spec s isPointer

theorem category_ne_unknown_of_void (hbase : s.base = "void") : (classify s).category ≠ .unknown := by
  rw [category_classify, hbase]
  cases s.isPointer <;> decide

/-- A type that is `void` is decided so. -/
theorem DecidesSpec.eq_ofVoid (h : g.DecidesSpec id spec isParameter d) (hvoid : g.VoidBy id spec s behind) :
    d = .ofVoid s.isPointer behind := by
  cases hvoid with
  | spelled hs hbase =>
      -- a spelling of `void` is known, so that nothing is left to the name
      have hknown : ∀ {isPointer}, ¬g.LeftToName id spec isPointer :=
        fun hleft => category_ne_unknown_of_void hbase (hleft.category_eq_unknown hs)
      cases h with
      | untyped _ hnone =>
          rw [hs] at hnone
          cases hnone
      | spelled hs' hrepresentation =>
          obtain rfl := Option.some.inj (hs.symm.trans hs')
          rw [← Classification.orPointer_false (classify s)]
          exact DecidedType.ofClassified_void hbase hrepresentation false isParameter
      | symbol hleft => exact absurd hleft hknown
      | native hleft => exact absurd hleft hknown
  | named hleft hname hlead hs hbase =>
      cases h with
      | untyped hnone =>
          rw [hname] at hnone
          cases hnone
      | spelled hs' hrepresentation =>
          rw [hleft.category_eq_unknown hs'] at hrepresentation
          cases hrepresentation
      | symbol _ hname' hlead' =>
          obtain rfl := Option.some.inj (hname.symm.trans hname')
          rw [hlead] at hlead'
          cases hlead'
      | native hleft' hname' hlead' hs' hrepresentation =>
          obtain rfl := Option.some.inj (hname.symm.trans hname')
          obtain rfl := NameTarget.native.inj (Except.ok.inj (hlead.symm.trans hlead'))
          obtain rfl := Option.some.inj (hs.symm.trans hs')
          rw [hleft.eq hleft']
          exact DecidedType.ofClassified_void hbase hrepresentation _ isParameter

/-- Only a type that is `void` without a pointer marker in its spelling is represented as `void`. -/
theorem DecidesSpec.exists_voidBy (h : g.DecidesSpec id spec isParameter d)
    (hd : d.representation = .primitive .void) :
    ∃ s behind, g.VoidBy id spec s behind ∧ s.isPointer = false := by
  have hcategory : ∀ {name : Option String} {s : Spelling} {representation : Representation}
      {c : Classification}, Representation.ofCategory name s (classify s).category = .ok (some representation) →
        (DecidedType.ofClassified representation c isParameter).representation = .primitive .void →
          s.base = "void" ∧ s.isPointer = false := by
    intro name s representation c hrepresentation hd
    rw [DecidedType.representation_of_ofClassified_void hd, Representation.ofCategory_eq_void,
      category_classify] at hrepresentation
    exact categoryOf_eq_void.mp hrepresentation
  cases h with
  | untyped => cases hd
  | spelled hs hrepresentation =>
      obtain ⟨hbase, hpointer⟩ := hcategory hrepresentation hd
      exact ⟨_, _, .spelled hs hbase, hpointer⟩
  | symbol => cases hd
  | native hleft hname hlead hs hrepresentation =>
      obtain ⟨hbase, hpointer⟩ := hcategory hrepresentation hd
      exact ⟨_, _, .named hleft hname hlead hs hbase, hpointer⟩

end Graph

/-! ### Passing -/

namespace ParameterUse

variable (use : ParameterUse) (g : Graph) (d : DecidedType)

theorem passing_of_isVoid (hdeclared : use.isReceiver = false) (h : d.isVoid) :
    (use.passing g d).type = .handle := by
  rw [type_passing, hdeclared, h]
  rfl

theorem passing_of_not_byRef (h : d.isVoid = false) (hbyRef : d.byRef = false) :
    (use.passing g d).type = d := by
  rw [type_passing, h, Bool.and_false, if_neg Bool.false_ne_true, hbyRef, Bool.false_and, ← hbyRef]

end ParameterUse

theorem Graph.typeName_of_isHandle (g : Graph) (current : RepositoryId) {d : DecidedType} (h : d.isHandle)
    (hbyRef : d.byRef = false) (target : Target) : g.typeName current d target = "IntPtr" := by
  obtain ⟨hrepresentation, harray⟩ : d.representation = .handle ∧ d.isArray = false := by
    simpa [DecidedType.isHandle] using h
  rw [typeName, hrepresentation, harray, hbyRef]
  rfl

namespace Graph

/-- A parameter stays `void` when it is passed. -/
inductive KeepsVoid (g : Graph) (id : RepositoryId) (use : ParameterUse) : Prop
  /-- An instance is passed as what its type is. -/
  | receiver {s : Spelling} (hreceiver : use.isReceiver) (harray : use.parameter.type.array = none)
    (hvoid : g.VoidBy id use.parameter.type.spec s false) (hs : s.isPointer = false)
  /-- The pointer marker at a name for `void` is a reference. -/
  | pointer {s : Spelling} (harray : use.parameter.type.array = none)
    (hvoid : g.VoidBy id use.parameter.type.spec s true) (hs : s.isPointer = false)
  /-- An array of known length has elements of any kind of primitive. -/
  | element {array : ArrayInfo} {length : Nat} {element : TypeSpec} {s : Spelling}
    (harray : use.parameter.type.array = some array) (hsized : array.sized? = some (length, element))
    (hlength : length ≠ 0) (hvoid : g.VoidBy id element s false) (hs : s.isPointer = false)

/-- The type of a reference, or that of its elements, is `void` in some way. -/
inductive ConcernsVoid (g : Graph) (id : RepositoryId) (reference : TypeReference) : Prop
  | scalar {s : Spelling} {behind : Bool} (harray : reference.array = none)
    (hvoid : g.VoidBy id reference.spec s behind)
  | element {array : ArrayInfo} {element : TypeSpec} {s : Spelling} {behind : Bool}
    (harray : reference.array = some array) (helement : array.element = some element)
    (hvoid : g.VoidBy id element s behind)

variable {g : Graph} {id : RepositoryId} {use : ParameterUse} {reference : TypeReference} {d : DecidedType}

/-- Whatever concerns `void` is decided to `void` or to a handle. -/
theorem Decides.handle_or_void (h : g.Decides id reference d) (hvoid : g.ConcernsVoid id reference) :
    (d.isHandle ∧ d.byRef = false) ∨ d.representation = .primitive .void := by
  have helement : ∀ {array : ArrayInfo} {length : Nat} {element : TypeSpec} {decided : DecidedType},
      reference.array = some array → array.sized? = some (length, element) →
        g.decideSpec id element (reference.context == .parameter) = .ok decided →
          ∃ isPointer behind, decided = .ofVoid isPointer behind := by
    intro array length element decided harray hsized hd
    rcases hvoid with ⟨hnone, -⟩ | ⟨harray', helement, hvoid⟩
    · rw [harray] at hnone
      cases hnone
    · obtain rfl := Option.some.inj (harray.symm.trans harray')
      obtain ⟨-, htold, -⟩ := ArrayInfo.sized?_eq_some.mp hsized
      obtain rfl := Option.some.inj (htold.symm.trans helement)
      exact ⟨_, _, (decideSpec_eq_ok.mp hd).eq_ofVoid hvoid⟩
  cases h with
  | scalar harray hd =>
      rcases hvoid with ⟨-, hvoid⟩ | ⟨hsome, -, -⟩
      · rw [(decideSpec_eq_ok.mp hd).eq_ofVoid hvoid]
        exact DecidedType.handle_or_void_ofVoid _ _
      · rw [harray] at hsome
        cases hsome
  | unsized | collapsed => exact .inl ⟨rfl, rfl⟩
  | texts harray hsized hd htext =>
      obtain ⟨isPointer, behind, rfl⟩ := helement harray hsized hd
      rw [DecidedType.isText_ofVoid] at htext
      cases htext
  | typed harray hsized hd htext hlength hopaque =>
      obtain ⟨isPointer, behind, rfl⟩ := helement harray hsized hd
      rw [isOpaqueElement_ofVoid, Bool.or_eq_false_iff] at hopaque
      obtain ⟨rfl, rfl⟩ := hopaque
      exact .inr rfl

/-- A parameter is passed as `void`, in some shape, if and only if it stays `void`. -/
theorem Decides.passing_eq_void (h : g.Decides id use.parameter.type d) :
    (use.passing g d).type.representation = .primitive .void ↔ g.KeepsVoid id use := by
  rw [use.representation_passing]
  constructor
  · intro hpassing
    split at hpassing
    · cases hpassing
    next hstays =>
    cases h with
    | scalar harray hd =>
        obtain ⟨s, behind, hvoid, hs⟩ := (decideSpec_eq_ok.mp hd).exists_voidBy hpassing
        cases behind with
        | true => exact .pointer harray hvoid hs
        | false =>
            rw [(decideSpec_eq_ok.mp hd).eq_ofVoid hvoid, hs] at hstays
            have hisVoid : (DecidedType.ofVoid false false).isVoid := rfl
            refine .receiver ?_ harray hvoid hs
            simpa [hisVoid] using hstays
    | unsized | texts | collapsed => cases hpassing
    | typed harray hsized hd htext hlength hopaque =>
        obtain ⟨s, behind, hvoid, hs⟩ := (decideSpec_eq_ok.mp hd).exists_voidBy hpassing
        rw [(decideSpec_eq_ok.mp hd).eq_ofVoid hvoid, isOpaqueElement_ofVoid, Bool.or_eq_false_iff] at hopaque
        obtain ⟨-, rfl⟩ := hopaque
        exact .element harray hsized hlength hvoid hs
  · have hscalar : ∀ {s : Spelling} {behind : Bool}, use.parameter.type.array = none →
        g.VoidBy id use.parameter.type.spec s behind → s.isPointer = false → d = .ofVoid false behind := by
      intro s behind hnone hvoid hs
      rw [(h.decidesSpec hnone).eq_ofVoid hvoid, hs]
    rintro (⟨hreceiver, hnone, hvoid, hs⟩ | ⟨hnone, hvoid, hs⟩ | ⟨harray, hsized, hlength, hvoid, hs⟩)
    · rw [hscalar hnone hvoid hs, hreceiver]
      rfl
    · rw [hscalar hnone hvoid hs]
      cases use.isReceiver <;> rfl
    · have hd := decide_eq_ok.mpr h
      rw [decide_of_array harray, hsized] at hd
      obtain ⟨decided, hdecided, rfl⟩ := decideArray_eq_ok.mp hd
      rw [(decideSpec_eq_ok.mp hdecided).eq_ofVoid hvoid, hs, DecidedType.isText_ofVoid,
        isOpaqueElement_ofVoid, decide_eq_false hlength]
      cases use.isReceiver <;> rfl

/-- A parameter that concerns `void` is passed as a handle unless it stays `void`. -/
theorem Decides.passing_handle (h : g.Decides id use.parameter.type d)
    (hvoid : g.ConcernsVoid id use.parameter.type) (hkeeps : ¬g.KeepsVoid id use) :
    (use.passing g d).type.isHandle ∧ (use.passing g d).type.byRef = false := by
  rw [← h.passing_eq_void, use.representation_passing] at hkeeps
  rcases h.handle_or_void hvoid with ⟨hhandle, hbyRef⟩ | hd
  · have hisVoid : d.isVoid = false := by
      rw [DecidedType.isHandle, Bool.and_eq_true, beq_iff_eq] at hhandle
      rw [DecidedType.isVoid, hhandle.1]
      rfl
    rw [use.passing_of_not_byRef g d hisVoid hbyRef]
    exact ⟨hhandle, hbyRef⟩
  · split at hkeeps
    next hvoid =>
      rw [Bool.and_eq_true, Bool.not_eq_true'] at hvoid
      rw [use.passing_of_isVoid g d hvoid.1 hvoid.2]
      exact ⟨rfl, rfl⟩
    · exact absurd hd hkeeps

end Graph

/-- A parameter of what is emitted is shown by what its type decides to. It is represented as `void`, alone, by
reference or as the element of an array, if and only if it is an instance of type `void`, or its type is a name
for `void` with a pointer marker, or it is an array of `void` of known length; any other parameter that is or
has elements of `void` in some way is the untyped handle. -/
theorem passing_void_iff {g : Graph} {id : RepositoryId} {r : Repository} (hr : g.repository? id = some r)
    {m : Memo} (hm : g.Coherent id m) {item : WorkItem} (hitem : item ∈ (Emitter.mk g id).items r.content)
    {declaration : EmittedDeclaration} (h : (Emitter.mk g id).emitFrom m item = .ok declaration) :
    (Emitter.mk g id).ShowsAll item.work declaration ∧
    ∀ use ∈ item.work.uses, ∃ d, g.decide id use.parameter.type = .ok d ∧
      ((use.passing g d).type.representation = .primitive .void ↔ g.KeepsVoid id use) ∧
      (g.ConcernsVoid id use.parameter.type → ¬g.KeepsVoid id use →
        (use.passing g d).type.isHandle ∧ g.typeName id (use.passing g d).type use.target = "IntPtr") := by
  have hshows := Emitter.shows_of_emitFrom (Emitter.content?_eq_some hr) hm hitem h
  refine ⟨hshows, fun use huse => ?_⟩
  obtain ⟨d, hd⟩ := hshows.exists_decide huse
  have hdecides := Graph.decide_eq_ok.mp hd
  refine ⟨d, hd, hdecides.passing_eq_void, fun hvoid hkeeps => ?_⟩
  obtain ⟨hhandle, hbyRef⟩ := hdecides.passing_handle hvoid hkeeps
  exact ⟨hhandle, g.typeName_of_isHandle id hhandle hbyRef use.target⟩

namespace Sample

def voidUse : Description.TypeUse := { name := some "none", ctype := some "void" }

def takes (name : String) (type : Description.TypeUse) : Description.Parameter where
  name := some name
  type := some type
  transferOwnership := some "none"

/-- A method of an instance, an array and a name for `void`, and of plain data. -/
def fillDescription : Description.Callable where
  name := some "fill"
  cIdentifier := some "void_box_fill"
  returnValue := some { type := some voidUse, transferOwnership := some "none" }
  instanceParameter := some (takes "self" voidUse)
  parameters := [
    { name := some "items", array := some { length := some 1, element := some voidUse },
      transferOwnership := some "none" },
    takes "count" { name := some "gint", ctype := some "gint" },
    takes "target" { name := some "Nothing", ctype := some "const VNothing*" },
    takes "data" voidUse]

def voidDescription : Description where
  namespaceInfo := {
    name := some "Void", version := some "1.0"
    aliases := [{ name := some "Nothing", ctype := some "VNothing", target := some voidUse }]
    records := [{ name := some "Box", ctype := some "VBox", methods := [fillDescription] }] }

def void : Graph := ({} : Graph).after [.register voidDescription, .link]

def voidSpec : TypeSpec := ⟨some "none", some (.ofString "void")⟩

def taken (name : String) (type : TypeReference) : Parameter :=
  ⟨.parameter name, type, .into, .nothing, false, false, none⟩

def fill : Callable where
  name := .pascal "fill"
  cIdentifier := "void_box_fill"
  kind := .method
  returnValue := .nothing
  parameters := {
    receiver := some (taken "self" (.scalar voidSpec .parameter))
    declared := [
      taken "items" (.ofArray { length := some 1, element := some voidSpec } .parameter),
      taken "count" (.scalar ⟨some "gint", some (.ofString "gint")⟩ .parameter),
      taken "target" (.scalar ⟨some "Nothing", some (.ofString "const VNothing*")⟩ .parameter),
      taken "data" (.scalar voidSpec .parameter)] }
  throws := false

def voidRepository : Repository where
  content := {
    key := ⟨"Void", "1.0"⟩
    aliases := [⟨.pascal "Nothing", .ofString "VNothing", .scalar voidSpec .aliasTarget⟩]
    records := [⟨.pascal "Box", some (.ofString "VBox"), .ref, none, { methods := [fill] }, []⟩] }
  includes := []

theorem void_eq : void = {
    repositories := [voidRepository], positions := [(⟨"Void", "1.0"⟩, ⟨0⟩)], buildOrder := [⟨0⟩] } := by
  cbv

def fillItem : WorkItem :=
  ⟨"Void.Box.fill", .callable (.record 0) .method 0, .callable (some (.pascal "Box")) fill⟩

theorem items_void : (Emitter.mk void ⟨0⟩).items voidRepository.content =
    [⟨"Void.Box", .type (.record 0), .layout (.pascal "Box") (some (.ofString "VBox")) [] .records⟩,
      fillItem] := by
  rw [void_eq]
  rfl

theorem shown_fill : fill.parameters.nativeUses.mapM (Emitter.mk void ⟨0⟩).shown = .ok [
    ⟨"", "void", "self"⟩,
    ⟨"[MarshalAs(UnmanagedType.LPArray, SizeParamIndex=2)]", "void[]", "items"⟩,
    ⟨"", "int", "count"⟩, ⟨"", "ref void", "target"⟩, ⟨"", "IntPtr", "data"⟩] := by
  rw [void_eq]
  rfl

theorem exists_emitFrom_fill (m : Memo) :
    ∃ f, (Emitter.mk void ⟨0⟩).emitFrom m fillItem = .ok (.function f) := by
  refine Emitter.exists_emitFrom_callable ⟨.of (.primitive .void), ?_⟩ ⟨_, shown_fill⟩ _ _ _ m
  rw [void_eq]
  rfl

theorem repository?_void : void.repository? ⟨0⟩ = some voidRepository := by
  rw [void_eq]
  rfl

theorem fillItem_mem : fillItem ∈ (Emitter.mk void ⟨0⟩).items voidRepository.content := by
  rw [items_void]
  exact .tail _ (.head _)

end Sample

open Sample in
/-- An instance, the elements of an array and a name with a pointer marker are `void` in a signature. -/
theorem void_fill : ∃ f, (Emitter.mk void ⟨0⟩).emitFrom {} fillItem = .ok (.function f) ∧
    f.nativeParameters.map (·.typeName) = ["void", "void[]", "int", "ref void", "IntPtr"] := by
  obtain ⟨f, hf⟩ := exists_emitFrom_fill {}
  have hshows := Emitter.shows_of_emitFrom (Emitter.content?_eq_some repository?_void)
    (Graph.coherent_empty void ⟨0⟩) fillItem_mem hf
  cases hshows with
  | callable hnative herror =>
      rw [shown_fill] at hnative
      cases hnative
      refine ⟨f, hf, ?_⟩
      rw [herror]
      rfl

open Sample in
theorem passing_void_iff_fill : ∃ declaration, (Emitter.mk void ⟨0⟩).emitFrom {} fillItem = .ok declaration ∧
    void.KeepsVoid ⟨0⟩ ⟨taken "self" (.scalar voidSpec .parameter), true, .native, 0⟩ ∧
    ¬void.KeepsVoid ⟨0⟩ ⟨taken "data" (.scalar voidSpec .parameter), false, .native, 1⟩ := by
  obtain ⟨f, hf⟩ := exists_emitFrom_fill {}
  obtain ⟨-, huses⟩ := passing_void_iff repository?_void (Graph.coherent_empty void ⟨0⟩) fillItem_mem hf
  have hvoid : void.decide ⟨0⟩ (.scalar voidSpec .parameter) = .ok (.of (.primitive .void)) := by
    rw [void_eq]
    rfl
  obtain ⟨instanceType, hinstance, hself, -⟩ :=
    huses ⟨taken "self" (.scalar voidSpec .parameter), true, .native, 0⟩ (by decide)
  obtain ⟨dataType, hdataType, hdata, -⟩ :=
    huses ⟨taken "data" (.scalar voidSpec .parameter), false, .native, 1⟩ (by decide)
  cases hvoid.symm.trans hinstance
  cases hvoid.symm.trans hdataType
  exact ⟨_, hf, hself.mp rfl, fun hkeeps => nomatch hdata.mpr hkeeps⟩

end Interop
