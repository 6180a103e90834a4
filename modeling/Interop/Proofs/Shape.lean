import Interop.Proofs.AliasTrail
import Interop.Proofs.Deciding

/-! The shapes of decided types. A scalar type is decided to one of a few shapes, and an array to that of its
elements, a handle, or the address of a handle. All that the parts of a decided type have to do with one
another follows from that. Main statement: `decide_shape`. -/

namespace Interop

open Relation

/-! ### Scalar types -/

/-- Only spellings with a pointer marker stand for texts. -/
theorem isPointer_of_category_eq_text {s : Spelling} (h : (classify s).category = .text) : s.isPointer = true := by
  have hrows : ∀ row ∈ classificationTable, row.category = .text → row.pointer = some true := by decide
  rw [category_classify] at h
  obtain ⟨row, hrow, hcovers, hcategory⟩ | ⟨-, hcategory⟩ | ⟨-, -, hcategory⟩ :=
    categoryOf_cases s.base s.isPointer
  · exact ClassificationRow.pointer_eq hcovers (hrows row hrow (hcategory.symm.trans h))
  · simp [hcategory] at h
  · simp [hcategory] at h

namespace Representation

/-- What can be passed by reference. -/
inductive IsValue : Representation → Prop
  | primitive (kind : PrimitiveKind) : IsValue (.primitive kind)
  | value : IsValue .value

/-- A representation by a spelling that is no text. -/
inductive IsPlain : Representation → Prop
  | value {representation : Representation} (h : IsValue representation) : IsPlain representation
  | handle : IsPlain .handle
  | delegate : IsPlain .delegate

variable {representation : Representation}

theorem IsPlain.ne_text (h : representation.IsPlain) (encoding : TextEncoding) :
    representation ≠ .text encoding := by
  cases h with
  | value h => cases h <;> nofun
  | handle | delegate => nofun

theorem IsPlain.ne_symbol (h : representation.IsPlain) (symbol : SymbolRef) :
    representation ≠ .symbol symbol := by
  cases h with
  | value h => cases h <;> nofun
  | handle | delegate => nofun

/-- A category other than that of texts has a plain representation, which is one of values if they are passed by
reference. -/
theorem isPlain_of_ofCategory {name : Option String} {s : Spelling} {category : Category}
    (h : ofCategory name s category = .ok (some representation)) (htext : category ≠ .text) :
    representation.IsPlain ∧ (category.isPrimitive = true ↔ representation.IsValue) := by
  cases category with
  | text => exact absurd rfl htext
  | unsupported | unknown | countedHandle => cases h
  | primitive kind =>
      cases h
      exact ⟨.value (.primitive kind), iff_of_true rfl (.primitive kind)⟩
  | structuredValue =>
      cases h
      exact ⟨.value .value, iff_of_true rfl .value⟩
  | handle =>
      cases h
      exact ⟨.handle, iff_of_false Bool.false_ne_true nofun⟩
  | callback =>
      cases h
      exact ⟨.delegate, iff_of_false Bool.false_ne_true nofun⟩

end Representation

/-- A symbol that a repository may use: it is no alias, it is declared, and bound includes lead to its
repository. -/
structure Graph.Usable (g : Graph) (id : RepositoryId) (symbol : SymbolRef) : Prop where
  kind : symbol.kind ≠ .alias
  declared : ∃ r name, g.repository? symbol.repository = some r ∧
    r.content.symbolName? symbol.kind symbol.index = some name
  path : ReflTransGen (fun a b => b ∈ g.boundOf a) id symbol.repository

/-- The shapes of decided scalar types. -/
inductive DecidedType.IsScalar (g : Graph) (id : RepositoryId) (isParameter : Bool) : DecidedType → Prop
  /-- Without a pointer marker. -/
  | plain {representation : Representation} (h : representation.IsPlain) :
    IsScalar g id isParameter (.of representation)
  /-- Behind a pointer marker. -/
  | value {representation : Representation} (h : representation.IsValue) :
    IsScalar g id isParameter ((DecidedType.of representation).withPointer true).asRef
  | text (encoding : TextEncoding) (h : isParameter = true) :
    IsScalar g id isParameter ((DecidedType.of (.text encoding)).withPointer true)
  | handle : IsScalar g id isParameter (DecidedType.handle.withPointer true)
  | symbol {address : SymbolRef} (h : g.Usable id address) (isPointer : Bool) :
    IsScalar g id isParameter ((DecidedType.of (.symbol address)).withPointer isPointer)

namespace DecidedType

variable {g : Graph} {id : RepositoryId} {isParameter : Bool}

/-- Texts are decided for parameters, which take them behind a pointer marker. -/
theorem IsScalar.of_text {d : DecidedType} (h : d.IsScalar g id isParameter) {encoding : TextEncoding}
    (hencoding : d.representation = .text encoding) :
    isParameter = true ∧ d.isPointer = true ∧ d.byRef = false := by
  cases h with
  | text _ hparameter => exact ⟨hparameter, rfl, rfl⟩
  | plain hplain => exact absurd hencoding (hplain.ne_text encoding)
  | value hvalue => exact absurd hencoding ((Representation.IsPlain.value hvalue).ne_text encoding)
  | handle | symbol => cases hencoding

theorem IsScalar.usable {d : DecidedType} (h : d.IsScalar g id isParameter) {symbol : SymbolRef}
    (hsymbol : d.representation = .symbol symbol) : g.Usable id symbol := by
  cases h with
  | symbol husable =>
      cases hsymbol
      exact husable
  | plain hplain => exact absurd hsymbol (hplain.ne_symbol symbol)
  | value hvalue => exact absurd hsymbol ((Representation.IsPlain.value hvalue).ne_symbol symbol)
  | text | handle => cases hsymbol

theorem IsScalar.isArray_eq_false {d : DecidedType} (h : d.IsScalar g id isParameter) : d.isArray = false := by
  cases h <;> rfl

theorem isScalar_ofClassified_of_isPlain {representation : Representation} (hplain : representation.IsPlain)
    {c : Classification} (hvalue : c.isPrimitive = true ↔ representation.IsValue) :
    IsScalar g id isParameter (ofClassified representation c isParameter) := by
  have htext : representation.isText = false := by
    cases hplain with
    | value h => cases h <;> rfl
    | handle | delegate => rfl
  rw [ofClassified, htext, Bool.false_and, if_neg Bool.false_ne_true]
  split
  · exact .plain hplain
  · split
    · next hprimitive => exact .value (hvalue.mp hprimitive)
    · exact .handle

/-- A spelling is decided to one of the shapes, with a pointer marker behind it or not. -/
theorem isScalar_ofClassified {name : Option String} {s : Spelling} {representation : Representation}
    (h : Representation.ofCategory name s (classify s).category = .ok (some representation)) (isPointer : Bool) :
    IsScalar g id isParameter (ofClassified representation ((classify s).orPointer isPointer) isParameter) := by
  by_cases htext : (classify s).category = .text
  · have hpointer : ((classify s).orPointer isPointer).isPointer = true := by
      rw [Classification.orPointer, isPointer_classify, isPointer_of_category_eq_text htext, Bool.true_or]
    have hprimitive : ((classify s).orPointer isPointer).isPrimitive = false := by
      rw [Classification.orPointer, isPrimitive_classify, htext]
      rfl
    rw [htext] at h
    cases h
    rw [ofClassified, hpointer, hprimitive]
    cases isParameter with
    | true => exact .text _ rfl
    | false => exact .handle
  · obtain ⟨hplain, hvalue⟩ := Representation.isPlain_of_ofCategory h htext
    exact isScalar_ofClassified_of_isPlain hplain hvalue

end DecidedType

namespace Graph

variable {g : Graph} {id : RepositoryId} {spec : TypeSpec} {reference : TypeReference} {isParameter : Bool}
  {d element : DecidedType} {length : Nat}

theorem usable_of_resolveName {name : String} {symbol : SymbolRef}
    (h : g.resolveName id name = .ok (.symbol symbol)) : g.Usable id symbol := by
  obtain ⟨⟨earlier, htrail⟩, hkind⟩ := resolveName_eq_symbol.mp h
  obtain ⟨a, name, hlookup⟩ := htrail.exists_lookupSymbol
  exact ⟨hkind, exists_symbolName?_of_lookupSymbol hlookup, htrail.path symbol (List.mem_cons_self ..)⟩

/-- Scalar types are decided to one of the shapes. -/
theorem DecidesSpec.isScalar (h : g.DecidesSpec id spec isParameter d) : d.IsScalar g id isParameter := by
  cases h with
  | untyped => exact .plain .handle
  | @spelled s representation _ hrepresentation =>
      rw [← Classification.orPointer_false (classify s)]
      exact DecidedType.isScalar_ofClassified hrepresentation false
  | symbol _ _ hlead => exact .symbol (usable_of_resolveName hlead) _
  | native _ _ _ _ hrepresentation => exact DecidedType.isScalar_ofClassified hrepresentation _

end Graph

/-! ### Elements of arrays -/

/-- An element that cannot stand in a typed array. -/
inductive DecidedType.Collapses (g : Graph) (d : DecidedType) : Prop
  | text (h : d.isText)
  | handle (h : d.representation = .handle)
  | delegate (h : d.representation = .delegate)
  | symbol {address : SymbolRef} (h : d.representation = .symbol address) (hreference : g.isReferenceType address)
  | byRef (h : d.byRef)

namespace Graph

variable {g : Graph} {id : RepositoryId} {reference : TypeReference} {isParameter : Bool}
  {d element : DecidedType} {length : Nat}

/-- A reference to an array of a length that is told, with the decision for its elements. -/
def HasElements (g : Graph) (id : RepositoryId) (reference : TypeReference) (length : Nat)
    (element : DecidedType) : Prop :=
  ∃ array spec, reference.array = some array ∧ array.length = some length ∧ array.element = some spec ∧
    spec.isTyped = true ∧ g.decide id (.scalar spec reference.context) = .ok element

theorem hasElements_iff : g.HasElements id reference length element ↔ ∃ array spec,
    reference.array = some array ∧ array.sized? = some (length, spec) ∧
      g.decideSpec id spec (reference.context == .parameter) = .ok element := by
  simp only [HasElements, ArrayInfo.sized?_eq_some, decide_scalar, and_assoc]

/-- The length and the decision are determined. -/
theorem HasElements.eq {length' : Nat} {element' : DecidedType} (h : g.HasElements id reference length element)
    (h' : g.HasElements id reference length' element') : length = length' ∧ element = element' := by
  obtain ⟨array, spec, harray, hsized, helement⟩ := hasElements_iff.mp h
  obtain ⟨array', spec', harray', hsized', helement'⟩ := hasElements_iff.mp h'
  obtain rfl := Option.some.inj (harray.symm.trans harray')
  cases hsized.symm.trans hsized'
  exact ⟨rfl, Except.ok.inj (helement.symm.trans helement')⟩

theorem HasElements.isScalar (h : g.HasElements id reference length element) :
    element.IsScalar g id (reference.context == .parameter) := by
  obtain ⟨array, spec, -, -, helement⟩ := hasElements_iff.mp h
  exact (decideSpec_eq_ok.mp helement).isScalar

theorem collapses_iff (h : g.HasElements id reference length element) :
    element.Collapses g ↔ element.isText = true ∨ g.isOpaqueElement element = true := by
  constructor
  · rintro (htext | hhandle | hdelegate | ⟨hsymbol, hreference⟩ | hbyRef)
    · exact .inl htext
    · exact .inr (by rw [isOpaqueElement, hhandle])
    · exact .inr (by rw [isOpaqueElement, hdelegate])
    · exact .inr (by rw [isOpaqueElement, hsymbol]; exact hreference)
    · cases h.isScalar with
      | value hvalue => exact .inr (by cases hvalue <;> rfl)
      | plain | text | handle | symbol => cases hbyRef
  · rintro (htext | hopaque)
    · exact .text htext
    · obtain ⟨representation, byRef, isArray, isPointer, lengthIndex⟩ := element
      cases representation with
      | handle => exact .handle rfl
      | delegate => exact .delegate rfl
      | symbol address => exact .symbol rfl hopaque
      | primitive | value | text => exact .byRef hopaque

/-! ### References -/

/-- What the parts of a decided type have to do with one another and with the reference. -/
structure Shape (g : Graph) (id : RepositoryId) (reference : TypeReference) (d : DecidedType) : Prop where
  isArray_iff : d.isArray = true ↔
    ∃ length element, g.HasElements id reference length element ∧ 0 < length ∧ ¬element.Collapses g
  typed : d.isArray = true → ∃ length element, g.HasElements id reference length element ∧
    d.representation = element.representation ∧ d.byRef = false
  lengthIndex : ∀ length, d.lengthIndex = some length ↔ d.isArray = true ∧ reference.context = .parameter ∧
    ∃ element, g.HasElements id reference length element
  /-- An array of texts is passed by the address of a handle. -/
  texts : reference.context = .parameter → ∀ length element, g.HasElements id reference length element →
    element.isText = true → d = DecidedType.handle.asRef
  collapsed : reference.array.isSome → d.isArray = false →
    (reference.context = .parameter → ∀ length element, g.HasElements id reference length element →
      element.isText = false) → d = .handle
  text : ∀ encoding, d.representation = .text encoding →
    reference.array = none ∧ reference.context = .parameter ∧ d.isPointer = true ∧ d.byRef = false
  byRef : d.byRef = true →
    (reference.array = none ∧ d.isPointer = true ∧ d.representation.IsValue) ∨
    (d = DecidedType.handle.asRef ∧ reference.context = .parameter ∧
      ∃ length element, g.HasElements id reference length element ∧ element.isText = true)
  symbol : ∀ symbol, d.representation = .symbol symbol → g.Usable id symbol

theorem not_hasElements (harray : reference.array = none) : ¬g.HasElements id reference length element := by
  rintro ⟨array, spec, hsome, -⟩
  rw [harray] at hsome
  cases hsome

theorem exists_text_of_isText {d : DecidedType} (h : d.isText = true) :
    ∃ encoding, d.representation = .text encoding := by
  obtain ⟨representation, byRef, isArray, isPointer, lengthIndex⟩ := d
  cases representation with
  | text encoding => exact ⟨encoding, rfl⟩
  | _ => cases h

/-- Elements are texts for parameters only. -/
theorem HasElements.context_of_isText (h : g.HasElements id reference length element)
    (htext : element.isText = true) : reference.context = .parameter := by
  obtain ⟨encoding, hencoding⟩ := exists_text_of_isText htext
  exact beq_iff_eq.mp (h.isScalar.of_text hencoding).1

theorem shape_of_scalar (harray : reference.array = none)
    (h : d.IsScalar g id (reference.context == .parameter)) : g.Shape id reference d := by
  have hnone : ∀ {length element}, ¬g.HasElements id reference length element := not_hasElements harray
  have hisArray := h.isArray_eq_false
  constructor
  case isArray_iff =>
    rw [hisArray]
    exact iff_of_false Bool.false_ne_true fun ⟨_, _, h, _⟩ => hnone h
  case typed =>
    intro htrue
    rw [hisArray] at htrue
    cases htrue
  case lengthIndex =>
    intro length
    have hlength : d.lengthIndex = none := by cases h <;> rfl
    rw [hlength]
    exact iff_of_false nofun fun ⟨_, _, _, h⟩ => hnone h
  case texts => exact fun _ _ _ h => absurd h hnone
  case collapsed =>
    intro hsome
    rw [harray] at hsome
    cases hsome
  case text =>
    intro encoding hencoding
    obtain ⟨hparameter, hpointer, hbyRef⟩ := h.of_text hencoding
    exact ⟨harray, beq_iff_eq.mp hparameter, hpointer, hbyRef⟩
  case byRef =>
    intro hbyRef
    cases h with
    | value hvalue => exact .inl ⟨harray, rfl, hvalue⟩
    | plain | text | handle | symbol => cases hbyRef
  case symbol => exact fun _ hsymbol => h.usable hsymbol

/-- An array that is neither typed nor one of texts. -/
theorem shape_of_handle (hcollapses : ∀ length element, g.HasElements id reference length element →
      length = 0 ∨ element.Collapses g)
    (htext : ∀ length element, g.HasElements id reference length element → element.isText = false) :
    g.Shape id reference .handle := by
  constructor
  case isArray_iff =>
    refine iff_of_false nofun fun ⟨length, element, h, hpos, hstays⟩ => ?_
    rcases hcollapses length element h with rfl | hcollapses
    · exact Nat.lt_irrefl 0 hpos
    · exact hstays hcollapses
  case typed => exact nofun
  case lengthIndex => exact fun length => iff_of_false nofun nofun
  case texts =>
    intro _ length element h hisText
    rw [htext length element h] at hisText
    cases hisText
  case collapsed => exact fun _ _ _ => rfl
  case text => exact nofun
  case byRef => exact nofun
  case symbol => exact nofun

theorem shape_of_texts (h : g.HasElements id reference length element) (htext : element.isText = true) :
    g.Shape id reference DecidedType.handle.asRef := by
  have hcontext := h.context_of_isText htext
  constructor
  case isArray_iff =>
    refine iff_of_false nofun fun ⟨_, _, h', _, hstays⟩ => ?_
    obtain ⟨rfl, rfl⟩ := h.eq h'
    exact hstays (.text htext)
  case typed => exact nofun
  case lengthIndex => exact fun length => iff_of_false nofun nofun
  case texts => exact fun _ _ _ _ _ => rfl
  case collapsed =>
    intro _ _ hnone
    rw [hnone hcontext length element h] at htext
    cases htext
  case text => exact nofun
  case byRef => exact fun _ => .inr ⟨rfl, hcontext, length, element, h, htext⟩
  case symbol => exact nofun

theorem shape_of_typed (h : g.HasElements id reference length element) (hlength : 0 < length)
    (hstays : ¬element.Collapses g) :
    g.Shape id reference { element with
      isArray := true, lengthIndex := if reference.context == .parameter then some length else none } := by
  have hbyRef : element.byRef = false := Bool.eq_false_iff.mpr fun hbyRef => hstays (.byRef hbyRef)
  constructor
  case isArray_iff => exact iff_of_true rfl ⟨length, element, h, hlength, hstays⟩
  case typed => exact fun _ => ⟨length, element, h, rfl, hbyRef⟩
  case lengthIndex =>
    intro other
    dsimp only
    rw [Option.ite_none_right_eq_some, beq_iff_eq, Option.some.injEq]
    constructor
    · rintro ⟨hcontext, rfl⟩
      exact ⟨rfl, hcontext, element, h⟩
    · rintro ⟨-, hcontext, other, h'⟩
      exact ⟨hcontext, (h.eq h').1⟩
  case texts =>
    intro _ length' element' h' htext
    obtain ⟨rfl, rfl⟩ := h.eq h'
    exact absurd (.text htext) hstays
  case collapsed => exact nofun
  case text =>
    intro encoding hencoding
    have htext : element.isText = true := by
      rw [DecidedType.isText, show element.representation = _ from hencoding, h.isScalar.isArray_eq_false]
      rfl
    exact absurd (.text htext) hstays
  case byRef =>
    intro htrue
    rw [show element.byRef = true from htrue] at hbyRef
    cases hbyRef
  case symbol => exact fun _ hsymbol => h.isScalar.usable hsymbol

end Graph

/-- The parts of a decided type fit one another. It is an array for a reference to an array of a length that is
told and not zero, whose elements keep their structure: then it is represented like these and not passed by
reference. Only parameters have a length position, which is that of the reference. An array of texts in a
parameter is the address of a handle, any other array that is not typed is a handle. Texts are parameters
behind a pointer, and no arrays; a value is passed by reference only behind a pointer; and a symbol is one that
the repository may use. -/
theorem decide_shape {g : Graph} {id : RepositoryId} {reference : TypeReference} {d : DecidedType}
    (hd : g.decide id reference = .ok d) : g.Shape id reference d := by
  have helements : ∀ {array length spec element}, reference.array = some array →
      array.sized? = some (length, spec) →
      g.decideSpec id spec (reference.context == .parameter) = .ok element →
        g.HasElements id reference length element := fun harray hsized h =>
    Graph.hasElements_iff.mpr ⟨_, _, harray, hsized, h⟩
  cases Graph.decide_eq_ok.mp hd with
  | scalar harray h => exact Graph.shape_of_scalar harray (Graph.decideSpec_eq_ok.mp h).isScalar
  | unsized harray hsized =>
      have hnone : ∀ length element, ¬g.HasElements id reference length element := by
        intro length element h
        obtain ⟨array', spec, harray', hsized', -⟩ := Graph.hasElements_iff.mp h
        obtain rfl := Option.some.inj (harray.symm.trans harray')
        rw [hsized] at hsized'
        cases hsized'
      exact Graph.shape_of_handle (fun _ _ h => absurd h (hnone _ _)) fun _ _ h => absurd h (hnone _ _)
  | texts harray hsized h htext => exact Graph.shape_of_texts (helements harray hsized h) htext
  | collapsed harray hsized h htext helement =>
      have h := helements harray hsized h
      refine Graph.shape_of_handle (fun _ _ h' => ?_) fun _ _ h' => ?_
      · obtain ⟨rfl, rfl⟩ := h.eq h'
        exact helement.imp_right fun hopaque => (Graph.collapses_iff h).mpr (.inr hopaque)
      · obtain ⟨rfl, rfl⟩ := h.eq h'
        exact htext
  | typed harray hsized h htext hlength helement =>
      have h := helements harray hsized h
      refine Graph.shape_of_typed h (Nat.pos_of_ne_zero hlength) fun hcollapses => ?_
      rcases (Graph.collapses_iff h).mp hcollapses with hisText | hopaque
      · rw [htext] at hisText
        cases hisText
      · rw [helement] at hopaque
        cases hopaque

namespace Sample

/-- A parameter that is an array of integers, with its length in another one. -/
def counts : TypeReference := .ofArray ⟨some 2, none, some (named "gint" "gint")⟩ .parameter

/-- A parameter that is an array of texts. -/
def names : TypeReference := .ofArray ⟨some 2, none, some (named "utf8" "gchar*")⟩ .parameter

end Sample

open Sample in
theorem decide_shape_small :
    small.decide ⟨0⟩ counts = .ok { representation := .primitive .i32, isArray := true, lengthIndex := some 2 } ∧
      small.Shape ⟨0⟩ counts { representation := .primitive .i32, isArray := true, lengthIndex := some 2 } ∧
      small.decide ⟨0⟩ names = .ok DecidedType.handle.asRef ∧
      small.Shape ⟨0⟩ names DecidedType.handle.asRef := by
  have hcounts : small.decide ⟨0⟩ counts =
      .ok { representation := .primitive .i32, isArray := true, lengthIndex := some 2 } := by
    rw [small_eq]
    decide +kernel
  have hnames : small.decide ⟨0⟩ names = .ok DecidedType.handle.asRef := by
    rw [small_eq]
    decide +kernel
  exact ⟨hcounts, decide_shape hcounts, hnames, decide_shape hnames⟩

end Interop
