import Interop.Proofs.Deciding
import Interop.Proofs.Parameters

/-! Null in native signatures. A native signature cannot allow null where an address is passed. It does so
wherever the pointer marker of the spelling that a reference has itself is the one that it is decided by.
Main statement: `nullable_native_iff`. -/

namespace Interop

/-! ### Pointer markers -/

namespace Graph

variable {g : Graph} {id : RepositoryId} {spec : TypeSpec} {reference : TypeReference} {isParameter : Bool}
  {d : DecidedType}

theorem isHandle_of_isPrimitiveValue (h : g.isPrimitiveValue d) : d.isHandle = false := by
  obtain ⟨representation, byRef, isArray, isPointer, lengthIndex⟩ := d
  cases representation with
  | handle => cases h
  | _ => rfl

/-- A primitive or structured value is no symbol of a reference type. -/
theorem not_isReferenceType_of_isPrimitiveValue (h : g.isPrimitiveValue d) :
    d.symbol?.any g.isReferenceType = false := by
  obtain ⟨representation, byRef, isArray, isPointer, lengthIndex⟩ := d
  cases representation with
  | symbol address =>
      show g.isReferenceType address = false
      replace h : (g.category address).isPrimitive = true := h
      rw [category] at h
      rw [isReferenceType]
      cases hr : g.repository? address.repository with
      | none => rfl
      | some r =>
          rw [hr] at h
          replace h : (r.content.category address.kind address.index).isPrimitive = true := h
          show r.content.isReferenceType address.kind address.index = false
          cases hkind : address.kind with
          | classType | interfaceType =>
              rw [hkind] at h
              cases h
          | record =>
              rw [hkind] at h
              simp only [Namespace.category, Namespace.isReferenceType] at h ⊢
              cases hrecord : r.content.records[address.index]? with
              | none => rfl
              | some record =>
                  rw [hrecord] at h
                  dsimp only at h
                  split at h
                  · cases h
                  · next hvalue => simpa using hvalue
          | _ => rfl
  | _ => rfl

/-- The pointer marker by which a type is decided stands in the spelling that it is classified by, or in the one
that its name leads to. -/
inductive Pointed (g : Graph) (id : RepositoryId) (spec : TypeSpec) : Prop
  | spelled {s : Spelling} (hs : g.classifiedSpelling id spec = some s) (h : s.isPointer)
  | named {isPointer : Bool} {name : String} {target : TypeSpec} {s : Spelling}
    (hleft : g.LeftToName id spec isPointer) (hname : spec.name = some name)
    (hlead : g.resolveName id name = .ok (.native target)) (hs : target.nativeSpelling = some s)
    (h : s.isPointer)

end Graph

/-- A classified value is a pointer as its spelling is, and by reference only if it is. -/
theorem DecidedType.isPointer_ofClassified {g : Graph} {representation : Representation} {c : Classification}
    {isParameter : Bool} (h : g.isPrimitiveValue (ofClassified representation c isParameter)) :
    (ofClassified representation c isParameter).isPointer = c.isPointer := by
  unfold ofClassified at h ⊢
  split at h
  next htext =>
    rw [Bool.and_eq_true] at htext
    cases representation with
    | text encoding => cases h
    | _ => cases htext.1
  next htext =>
    rw [if_neg htext]
    cases hpointer : c.isPointer with
    | false => rfl
    | true =>
        rw [hpointer] at h
        cases hprimitive : c.isPrimitive with
        | false =>
            rw [hprimitive] at h
            cases h
        | true => rfl

/-- What is passed by reference is a value behind a pointer marker. -/
theorem DecidedType.of_byRef_ofClassified {name : Option String} {s : Spelling}
    {representation : Representation} {behind isParameter : Bool}
    (hrepresentation : Representation.ofCategory name s (classify s).category = .ok (some representation))
    (h : (ofClassified representation ((classify s).orPointer behind) isParameter).byRef) (g : Graph) :
    g.isPrimitiveValue (ofClassified representation ((classify s).orPointer behind) isParameter) ∧
      (ofClassified representation ((classify s).orPointer behind) isParameter).isPointer := by
  have hvalue : (classify s).category.isPrimitive → g.isPrimitiveValue (.of representation) := by
    intro hprimitive
    cases hcategory : (classify s).category with
    | primitive | structuredValue =>
        rw [hcategory] at hrepresentation
        cases hrepresentation
        rfl
    | _ =>
        rw [hcategory] at hprimitive
        cases hprimitive
  unfold ofClassified at h ⊢
  split at h
  · cases h
  next htext =>
    rw [if_neg htext]
    split at h
    · cases h
    next hpointer =>
      rw [if_neg hpointer]
      split at h
      next hprimitive =>
        rw [if_pos hprimitive]
        exact ⟨hvalue hprimitive, rfl⟩
      · cases h

theorem DecidedType.isArray_ofClassified (representation : Representation) (c : Classification)
    (isParameter : Bool) : (ofClassified representation c isParameter).isArray = false := by
  unfold ofClassified
  split
  · rfl
  · split
    · rfl
    · split <;> rfl

namespace Graph

variable {g : Graph} {id : RepositoryId} {spec : TypeSpec} {reference : TypeReference} {isParameter : Bool}
  {d : DecidedType}

/-- A spelling that is known is all that points a type. -/
theorem pointed_of_known {s : Spelling} (hs : g.classifiedSpelling id spec = some s)
    (hknown : (classify s).category ≠ .unknown) : g.Pointed id spec ↔ s.isPointer := by
  constructor
  · rintro (⟨hs', h⟩ | ⟨hleft, -, -, -, -⟩)
    · obtain rfl := Option.some.inj (hs.symm.trans hs')
      exact h
    · exact absurd (hleft.category_eq_unknown hs) hknown
  · exact .spelled hs

/-- A type that is left to its name is pointed there or where the name leads to. -/
theorem pointed_of_leftToName {isPointer : Bool} (hleft : g.LeftToName id spec isPointer) {name : String}
    (hname : spec.name = some name) {target : NameTarget} (hlead : g.resolveName id name = .ok target) :
    g.Pointed id spec ↔ isPointer ∨ ∃ native s, target = .native native ∧ native.nativeSpelling = some s ∧
      s.isPointer := by
  constructor
  · rintro (⟨hs, h⟩ | ⟨-, hname', hlead', hs, h⟩)
    · cases hleft with
      | unspelled hnone =>
          rw [hs] at hnone
          cases hnone
      | unknown hs' =>
          obtain rfl := Option.some.inj (hs.symm.trans hs')
          exact .inl h
    · obtain rfl := Option.some.inj (hname.symm.trans hname')
      exact .inr ⟨_, _, Except.ok.inj (hlead.symm.trans hlead'), hs, h⟩
  · rintro (h | ⟨native, s, rfl, hs, h⟩)
    · cases hleft with
      | unspelled => cases h
      | unknown hs => exact .spelled hs h
    · exact .named hleft hname hlead hs h

namespace DecidesSpec

theorem isArray_eq_false (h : g.DecidesSpec id spec isParameter d) : d.isArray = false := by
  cases h with
  | untyped | symbol => rfl
  | spelled | native => exact DecidedType.isArray_ofClassified _ _ _

theorem of_byRef (h : g.DecidesSpec id spec isParameter d) (hbyRef : d.byRef) :
    g.isPrimitiveValue d ∧ d.isPointer := by
  cases h with
  | untyped | symbol => cases hbyRef
  | @spelled s representation hs hrepresentation =>
      rw [← Classification.orPointer_false (classify s)] at hbyRef ⊢
      exact DecidedType.of_byRef_ofClassified hrepresentation hbyRef g
  | native hleft hname hlead hs hrepresentation =>
      exact DecidedType.of_byRef_ofClassified hrepresentation hbyRef g

/-- A value is decided to be a pointer exactly where its type is pointed. -/
theorem isPointer_iff (h : g.DecidesSpec id spec isParameter d) (hvalue : g.isPrimitiveValue d) :
    d.isPointer = true ↔ g.Pointed id spec := by
  cases h with
  | untyped => cases hvalue
  | @spelled s representation hs hrepresentation =>
      have hknown : (classify s).category ≠ .unknown := by
        intro hunknown
        rw [Representation.ofCategory_eq_none.mpr hunknown] at hrepresentation
        cases hrepresentation
      rw [DecidedType.isPointer_ofClassified hvalue, isPointer_classify, pointed_of_known hs hknown]
  | symbol hleft hname hlead =>
      rw [pointed_of_leftToName hleft hname hlead]
      simp [DecidedType.withPointer]
  | native hleft hname hlead hs hrepresentation =>
      rw [DecidedType.isPointer_ofClassified hvalue, Classification.orPointer, isPointer_classify,
        pointed_of_leftToName hleft hname hlead]
      simp [hs, or_comm]

end DecidesSpec

/-- An array is a handle, at most by reference, or stays an array. -/
theorem Decides.handle_or_array (h : g.Decides id reference d) (harray : reference.isArray) :
    (d.representation = .handle ∧ d.isArray = false) ∨ d.isArray = true := by
  cases h with
  | scalar hnone =>
      rw [TypeReference.isArray, hnone] at harray
      cases harray
  | unsized | texts | collapsed => exact .inl ⟨rfl, rfl⟩
  | typed => exact .inr rfl

/-- The marker of the spelling that a reference has itself is not the one that it is decided by. -/
def MarkerDiffers (g : Graph) (id : RepositoryId) (reference : TypeReference) : Prop :=
  reference.array = none ∧ ¬(reference.isPointer = true ↔ g.Pointed id reference.spec)

end Graph

/-! ### Native signatures -/

/-- What a parameter of a decided type passes is an address: an untyped handle, an array, a value of a reference
type, or a pointer to a value. -/
def ParameterUse.passesAddress (use : ParameterUse) (g : Graph) (d : DecidedType) : Bool :=
  (use.passing g d).type.isHandle || (use.passing g d).type.isArray
    || (use.passing g d).type.symbol?.any g.isReferenceType
    || ((d.isPointer || d.byRef) && g.isPrimitiveValue (use.passing g d).type)

namespace ParameterUse

variable {use : ParameterUse} {g : Graph} {id : RepositoryId} {d : DecidedType}

/-- What is passed as a value is decided to be one. -/
theorem decided_of_isPrimitiveValue (h : g.isPrimitiveValue (use.passing g d).type) :
    g.isPrimitiveValue d ∧ (use.passing g d).type.isArray = d.isArray := by
  rw [type_passing] at h ⊢
  split at h
  · cases h
  next hstays =>
    rw [if_neg hstays]
    exact ⟨h, rfl⟩

/-- A parameter that is declared as an array is passed as a handle or an array. -/
theorem isHandle_or_isArray (hd : g.Decides id use.parameter.type d) (harray : use.parameter.type.isArray) :
    (use.passing g d).type.isHandle || (use.passing g d).type.isArray := by
  rw [type_passing]
  split
  · rfl
  · rcases hd.handle_or_array harray with ⟨hhandle, hscalar⟩ | harray
    · simp [DecidedType.isHandle, hhandle, hscalar]
    · simp [harray]

/-- A value that is declared as no array is none of the addresses that are not pointers. -/
theorem not_address_of_isPrimitiveValue (hd : g.Decides id use.parameter.type d)
    (hscalar : use.parameter.type.array = none) (hvalue : g.isPrimitiveValue (use.passing g d).type) :
    (use.passing g d).type.isHandle = false ∧ (use.passing g d).type.isArray = false ∧
      (use.passing g d).type.symbol?.any g.isReferenceType = false := by
  refine ⟨Graph.isHandle_of_isPrimitiveValue hvalue, ?_, Graph.not_isReferenceType_of_isPrimitiveValue hvalue⟩
  rw [(decided_of_isPrimitiveValue hvalue).2]
  exact (hd.decidesSpec hscalar).isArray_eq_false

/-- The native signature takes the addresses for such, but for pointers to values, for which the spelling that
the reference has itself counts. -/
theorem isAddress_eq (hd : g.Decides id use.parameter.type d) :
    g.isAddress use.parameter.type (use.passing g d).type =
      if use.parameter.type.array = none ∧ g.isPrimitiveValue (use.passing g d).type then
        use.parameter.type.isPointer
      else use.passesAddress g d := by
  rw [Graph.isAddress, passesAddress]
  split
  next hcase =>
    obtain ⟨hhandle, harray, hsymbol⟩ := not_address_of_isPrimitiveValue hd hcase.1 hcase.2
    rw [hhandle, harray, hsymbol, hcase.2, TypeReference.isArray, hcase.1]
    simp
  next hcase =>
    cases harray : use.parameter.type.array with
    | none =>
        have hvalue : g.isPrimitiveValue (use.passing g d).type = false := by
          rw [harray, not_and, Bool.not_eq_true] at hcase
          exact hcase rfl
        rw [hvalue, TypeReference.isArray, harray]
        simp
    | some array =>
        have hsome : use.parameter.type.isArray = true := by
          rw [TypeReference.isArray, harray]
          rfl
        rw [isHandle_or_isArray hd hsome, hsome]
        simp

/-- A value that is declared as no array passes an address exactly where its type is pointed. -/
theorem passesAddress_iff (hd : g.Decides id use.parameter.type d)
    (hscalar : use.parameter.type.array = none) (hvalue : g.isPrimitiveValue (use.passing g d).type) :
    use.passesAddress g d = true ↔ g.Pointed id use.parameter.type.spec := by
  obtain ⟨hhandle, harray, hsymbol⟩ := not_address_of_isPrimitiveValue hd hscalar hvalue
  have hspec := hd.decidesSpec hscalar
  rw [passesAddress, hhandle, harray, hsymbol, hvalue, ← hspec.isPointer_iff (decided_of_isPrimitiveValue hvalue).1]
  have hbyRef := fun h => (hspec.of_byRef h).2
  simpa using hbyRef

/-- What is passed by reference is a value whose type is pointed. -/
theorem pointed_of_byRef (hd : g.Decides id use.parameter.type d)
    (hscalar : use.parameter.type.array = none) (hbyRef : (use.passing g d).type.byRef) :
    g.isPrimitiveValue (use.passing g d).type ∧ g.Pointed id use.parameter.type.spec := by
  rw [type_passing] at hbyRef ⊢
  split at hbyRef
  · cases hbyRef
  next hstays =>
    rw [if_neg hstays]
    have hspec := hd.decidesSpec hscalar
    obtain ⟨hvalue, hpointer⟩ := hspec.of_byRef (Bool.and_eq_true_iff.mp hbyRef).1
    exact ⟨hvalue, (hspec.isPointer_iff hvalue).mp hpointer⟩

theorem nullable_of_native (htarget : use.target = .native) : (use.passing g d).nullable =
    (use.parameter.nullable && !g.isAddress use.parameter.type (use.passing g d).type) := by
  rw [nullable_passing, htarget]
  rfl

/-- Where no address is seen, what is passed by reference is pointed by another spelling. -/
theorem markerDiffers_of_byRef (hd : g.Decides id use.parameter.type d)
    (hscalar : use.parameter.type.array = none)
    (haddress : g.isAddress use.parameter.type (use.passing g d).type = false)
    (hbyRef : (use.passing g d).type.byRef) : g.MarkerDiffers id use.parameter.type := by
  obtain ⟨hvalue, hpointed⟩ := pointed_of_byRef hd hscalar hbyRef
  rw [isAddress_eq hd, if_pos ⟨hscalar, hvalue⟩] at haddress
  refine ⟨hscalar, fun hsame => ?_⟩
  rw [hsame.mpr hpointed] at haddress
  cases haddress

/-- Native signatures allow null as declared for all but addresses, except where the markers differ. -/
theorem nullable_eq_iff (htarget : use.target = .native) (hd : g.Decides id use.parameter.type d) :
    (use.passing g d).nullable = (use.parameter.nullable && !use.passesAddress g d) ↔
      ¬(use.parameter.nullable ∧ g.isPrimitiveValue (use.passing g d).type ∧
        g.MarkerDiffers id use.parameter.type) := by
  rw [nullable_of_native htarget, isAddress_eq hd]
  split
  -- of a value, one side has its own marker and the other the one that it is decided by
  next hcase =>
    rw [Graph.MarkerDiffers, ← passesAddress_iff hd hcase.1 hcase.2]
    cases use.parameter.nullable <;> cases use.parameter.type.isPointer <;> cases use.passesAddress g d <;>
      simp [hcase.1, hcase.2]
  next hcase => exact iff_of_true rfl fun h => hcase ⟨h.2.2.1, h.2.1⟩

end ParameterUse

/-- A native signature that allows null for a parameter declares it so and passes no untyped handle, no array
and no value of a reference type. It allows null wherever the declaration does and no address is passed, unless
the marker of the spelling that the reference has itself is not the one that the type is decided by; then it
allows null for a pointer to a value, and does not for a value that is none. -/
theorem nullable_native_iff {g : Graph} {id : RepositoryId} {use : ParameterUse} (htarget : use.target = .native)
    {d : DecidedType} (hd : g.decide id use.parameter.type = .ok d) :
    ((use.passing g d).nullable → use.parameter.nullable ∧ (use.passing g d).type.isHandle = false ∧
      (use.passing g d).type.isArray = false ∧ (use.passing g d).type.symbol?.any g.isReferenceType = false ∧
      ((use.passing g d).type.byRef → g.MarkerDiffers id use.parameter.type)) ∧
    ((use.passing g d).nullable = (use.parameter.nullable && !use.passesAddress g d) ↔
      ¬(use.parameter.nullable ∧ g.isPrimitiveValue (use.passing g d).type ∧
        g.MarkerDiffers id use.parameter.type)) ∧
    ∃ p, (Emitter.mk g id).shown use = .ok p ∧ p.typeName = (use.passing g d).decoration.keyword ++
      g.typeName id (use.passing g d).type .native ++ if (use.passing g d).nullable then "?" else "" := by
  have hdecides := Graph.decide_eq_ok.mp hd
  refine ⟨fun hnull => ?_, use.nullable_eq_iff htarget hdecides, ?_⟩
  · rw [use.nullable_of_native htarget, Bool.and_eq_true, Bool.not_eq_true'] at hnull
    obtain ⟨hdeclared, haddress⟩ := hnull
    have hparts := haddress
    rw [Graph.isAddress] at hparts
    simp only [Bool.or_eq_false_iff] at hparts
    obtain ⟨⟨⟨⟨hhandle, hreference⟩, harray⟩, hsymbol⟩, -⟩ := hparts
    have hscalar : use.parameter.type.array = none :=
      Option.isNone_iff_eq_none.mp (Option.isSome_eq_false_iff.mp hreference)
    exact ⟨hdeclared, hhandle, harray, hsymbol, use.markerDiffers_of_byRef hdecides hscalar haddress⟩
  · refine ⟨_, bind_eq_ok.mpr ⟨d, hd, rfl⟩, ?_⟩
    rw [htarget]
    rfl

namespace Sample

/-- A native parameter that may be null. -/
def nullableUse (name : String) (spec : TypeSpec) : ParameterUse where
  parameter := ⟨.parameter name, .scalar spec .parameter, .into, .nothing, true, false, none⟩
  isReceiver := false
  target := .native
  offset := 0

/-- The typedef stands for a pointer. -/
def addressUse : ParameterUse := nullableUse "address" (named "Address" "GAddress")

/-- The typedef has a pointer marker and stands for a value. -/
def itemUse : ParameterUse := nullableUse "item" (named "Item" "GItem*")

theorem decide_address : misleading.decide ⟨0⟩ addressUse.parameter.type =
    .ok { representation := .primitive .i32, byRef := true, isPointer := true } := by
  rw [misleading_eq]
  rfl

end Sample

open Sample in
/-- Null is allowed for a reference whose pointer marker a typedef brings, and not for a value whose typedef is
spelled with one. -/
theorem null_address :
    (Emitter.mk misleading ⟨0⟩).shown addressUse = .ok ⟨"", "ref int?", "address"⟩ ∧
    (Emitter.mk misleading ⟨0⟩).shown itemUse = .ok ⟨"", "int", "item"⟩ := by
  rw [misleading_eq]
  exact ⟨rfl, rfl⟩

open Sample in
theorem nullable_native_iff_address : addressUse.target = .native ∧
    misleading.decide ⟨0⟩ addressUse.parameter.type =
      .ok { representation := .primitive .i32, byRef := true, isPointer := true } ∧
    misleading.MarkerDiffers ⟨0⟩ addressUse.parameter.type := by
  refine ⟨rfl, decide_address, ?_⟩
  obtain ⟨hnull, -, -⟩ := nullable_native_iff rfl decide_address
  obtain ⟨-, -, -, -, hbyRef⟩ := hnull rfl
  exact hbyRef rfl

end Interop
