import Interop.Proofs.Typedef

/-! How types are decided. A scalar type is decided by its spelling, after one hop, or else by what its name
leads to, with the pointer marker that stands at the name; an array by its elements. What can be decided is
told by one inductive relation for scalar types and by one for references. Main statements:
`decideSpec_eq_ok`, `decide_eq_ok`. -/

namespace Interop

theorem Classification.orPointer_false (c : Classification) : c.orPointer false = c := by
  rw [orPointer, Bool.or_false]

namespace DecidedType

/-- A spelling is decided by what its category is represented by. -/
theorem ofSpelling_eq_ok {name : Option String} {s : Spelling} {c : Classification} {isParameter : Bool}
    {found : Option DecidedType} :
    ofSpelling name s c isParameter = .ok found ↔
      ∃ representation, Representation.ofCategory name s c.category = .ok representation ∧
        found = representation.map (ofClassified · c isParameter) := by
  rw [ofSpelling, bind_eq_ok]
  refine exists_congr fun representation => and_congr_right fun _ => ?_
  constructor
  · rintro ⟨⟩
    rfl
  · rintro rfl
    rfl

end DecidedType

/-- Only a spelling that is not known has to be the name of a symbol. -/
theorem Representation.ofCategory_eq_none {name : Option String} {s : Spelling} :
    ofCategory name s (classify s).category = .ok none ↔ (classify s).category = .unknown := by
  have hcounted : (classify s).category ≠ .countedHandle := by
    rw [category_classify]
    exact categoryOf_ne_countedHandle _ _
  cases hcategory : (classify s).category with
  | unknown => exact iff_of_true rfl rfl
  | countedHandle => exact absurd hcategory hcounted
  | _ => exact iff_of_false nofun nofun

theorem DecidedType.ofSpelling_eq_none {name : Option String} {s : Spelling} {c : Classification}
    {isParameter : Bool} (hc : c.category = (classify s).category) :
    ofSpelling name s c isParameter = .ok none ↔ (classify s).category = .unknown := by
  rw [ofSpelling_eq_ok, hc, ← Representation.ofCategory_eq_none]
  constructor
  · rintro ⟨representation, hcategory, heq⟩
    obtain rfl := Option.map_eq_none_iff.mp heq.symm
    exact hcategory
  · exact fun hcategory => ⟨none, hcategory, rfl⟩

theorem Spelling.isPointer_of_isAlwaysHandle {s : Spelling} (h : s.isAlwaysHandle) : s.isPointer = false := by
  rw [← isPointer_classify, classify_of_isAlwaysHandle h]

/-- The length position and the element of an array, if both are told. -/
def ArrayInfo.sized? (array : ArrayInfo) : Option (Nat × TypeSpec) :=
  array.length.bind fun length => (array.element.filter (·.isTyped)).map (length, ·)

theorem ArrayInfo.sized?_eq_some {array : ArrayInfo} {length : Nat} {element : TypeSpec} :
    array.sized? = some (length, element) ↔
      array.length = some length ∧ array.element = some element ∧ element.isTyped = true := by
  obtain ⟨length?, ctype, element?⟩ := array
  cases length? with
  | none => simp [sized?]
  | some length => simp [sized?, Option.filter_eq_some_iff, and_comm]

namespace Graph

variable {g : Graph} {id : RepositoryId} {spec : TypeSpec} {isParameter : Bool} {reference : TypeReference}

/-- The spelling by which a scalar type is classified: the one that it has, after one hop through the alias
tables unless it always stands for a handle. -/
def classifiedSpelling (g : Graph) (id : RepositoryId) (spec : TypeSpec) : Option Spelling :=
  spec.nativeSpelling.map fun s => if s.isAlwaysHandle then s else (g.aliasHop id s).getD s

/-- A scalar type is left to its name, with or without a pointer marker: it has no spelling, or the spelling
is not known. -/
inductive LeftToName (g : Graph) (id : RepositoryId) (spec : TypeSpec) : Bool → Prop
  | unspelled (h : g.classifiedSpelling id spec = none) : LeftToName g id spec false
  | unknown {s : Spelling} (h : g.classifiedSpelling id spec = some s)
    (hunknown : (classify s).category = .unknown) : LeftToName g id spec s.isPointer

theorem LeftToName.eq {isPointer other : Bool} (h : g.LeftToName id spec isPointer)
    (h' : g.LeftToName id spec other) : isPointer = other := by
  cases h with
  | unspelled h =>
      cases h' with
      | unspelled => rfl
      | unknown h' =>
          rw [h] at h'
          cases h'
  | unknown h =>
      cases h' with
      | unspelled h' =>
          rw [h] at h'
          cases h'
      | unknown h' =>
          rw [h] at h'
          cases h'
          rfl

theorem LeftToName.category_eq_unknown {isPointer : Bool} (h : g.LeftToName id spec isPointer)
    {s : Spelling} (hs : g.classifiedSpelling id spec = some s) : (classify s).category = .unknown := by
  cases h with
  | unspelled h =>
      rw [h] at hs
      cases hs
  | unknown h hunknown =>
      rw [h] at hs
      cases hs
      exact hunknown

/-- How a scalar type is decided. -/
inductive DecidesSpec (g : Graph) (id : RepositoryId) (spec : TypeSpec) (isParameter : Bool) :
    DecidedType → Prop
  /-- Nothing is said about the type. -/
  | untyped (hname : spec.name = none) (hspelling : g.classifiedSpelling id spec = none) :
    DecidesSpec g id spec isParameter .handle
  /-- The spelling is known. -/
  | spelled {s : Spelling} {representation : Representation} (hs : g.classifiedSpelling id spec = some s)
    (hrepresentation : Representation.ofCategory spec.name s (classify s).category =
      .ok (some representation)) :
    DecidesSpec g id spec isParameter (.ofClassified representation (classify s) isParameter)
  /-- The name leads to a symbol. -/
  | symbol {isPointer : Bool} {name : String} {address : SymbolRef} (h : g.LeftToName id spec isPointer)
    (hname : spec.name = some name) (hlead : g.resolveName id name = .ok (.symbol address)) :
    DecidesSpec g id spec isParameter ((DecidedType.of (.symbol address)).withPointer isPointer)
  /-- The name leads to an alias of a native type. -/
  | native {isPointer : Bool} {name : String} {target : TypeSpec} {s : Spelling}
    {representation : Representation} (h : g.LeftToName id spec isPointer) (hname : spec.name = some name)
    (hlead : g.resolveName id name = .ok (.native target)) (hs : target.nativeSpelling = some s)
    (hrepresentation : Representation.ofCategory target.name s (classify s).category =
      .ok (some representation)) :
    DecidesSpec g id spec isParameter
      (.ofClassified representation ((classify s).orPointer isPointer) isParameter)

theorem decideByName_eq_ok {isPointer : Bool} {d : DecidedType} :
    g.decideByName id spec isPointer isParameter = .ok d ↔ ∃ name, spec.name = some name ∧
      ((∃ address, g.resolveName id name = .ok (.symbol address) ∧
          d = (DecidedType.of (.symbol address)).withPointer isPointer) ∨
        ∃ target s representation, g.resolveName id name = .ok (.native target) ∧
          target.nativeSpelling = some s ∧
          Representation.ofCategory target.name s (classify s).category = .ok (some representation) ∧
          d = .ofClassified representation ((classify s).orPointer isPointer) isParameter) := by
  rw [decideByName]
  cases spec.name with
  | none =>
      constructor
      · rintro ⟨⟩
      · rintro ⟨_, ⟨⟩, _⟩
  | some name =>
      simp only [Option.some.injEq, exists_eq_left']
      show g.resolveName id name >>= _ = .ok d ↔ _
      cases g.resolveName id name with
      | error fault =>
          constructor
          · rintro ⟨⟩
          · rintro (⟨_, ⟨⟩, _⟩ | ⟨_, _, _, ⟨⟩, _⟩)
      | ok target =>
          cases target with
          | symbol address =>
              constructor
              · rintro ⟨⟩
                exact .inl ⟨address, rfl, rfl⟩
              · rintro (⟨_, ⟨⟩, rfl⟩ | ⟨_, _, _, ⟨⟩, _⟩)
                rfl
          | native target =>
              dsimp only [bind, Except.bind]
              cases hs : target.nativeSpelling with
              | none =>
                  constructor
                  · rintro ⟨⟩
                  · rintro (⟨_, ⟨⟩, _⟩ | ⟨_, _, _, ⟨⟩, hother, _⟩)
                    rw [hs] at hother
                    cases hother
              | some s =>
                  refine Iff.trans bind_eq_ok ?_
                  constructor
                  · rintro ⟨found, hfound, hd⟩
                    obtain ⟨representation, hrepresentation, rfl⟩ := DecidedType.ofSpelling_eq_ok.mp hfound
                    cases representation with
                    | none => cases hd
                    | some representation =>
                        cases hd
                        exact .inr ⟨target, s, representation, rfl, hs, hrepresentation, rfl⟩
                  · rintro (⟨_, ⟨⟩, _⟩ | ⟨_, _, representation, ⟨⟩, hother, hrepresentation, rfl⟩)
                    obtain rfl := Option.some.inj (hs.symm.trans hother)
                    exact ⟨_, DecidedType.ofSpelling_eq_ok.mpr ⟨_, hrepresentation, rfl⟩, rfl⟩

/-- A scalar type is decided by the spelling that it is classified by, and by its name if that is not known. -/
theorem decideSpec_eq (g : Graph) (id : RepositoryId) (spec : TypeSpec) (isParameter : Bool) :
    g.decideSpec id spec isParameter = match g.classifiedSpelling id spec with
      | none => if spec.name.isNone then .ok .handle else g.decideByName id spec false isParameter
      | some s => (do
        match ← DecidedType.ofSpelling spec.name s (classify s) isParameter with
        | some decided => return decided
        | none => g.decideByName id spec s.isPointer isParameter) := by
  rw [decideSpec, classifiedSpelling]
  cases spec.nativeSpelling with
  | none => rfl
  | some s =>
      dsimp only [Option.map_some]
      by_cases hhandle : s.isAlwaysHandle
      · have hpointer := Spelling.isPointer_of_isAlwaysHandle hhandle
        rw [if_pos hhandle, if_pos hhandle, classify_of_isAlwaysHandle hhandle, hpointer]
        rfl
      · rw [if_neg hhandle, if_neg hhandle]
        rfl

/-- A scalar type that is left to its name is decided by it, unless it has neither a name nor a spelling. -/
theorem decideSpec_of_leftToName {isPointer : Bool} (h : g.LeftToName id spec isPointer)
    (hspelled : spec.name = none → ∃ s, g.classifiedSpelling id spec = some s) :
    g.decideSpec id spec isParameter = g.decideByName id spec isPointer isParameter := by
  rw [decideSpec_eq]
  cases h with
  | unspelled hnone =>
      have hname : spec.name.isNone = false := by
        rw [Option.isNone_eq_false_iff, Option.isSome_iff_ne_none]
        intro hname
        obtain ⟨s, hs⟩ := hspelled hname
        rw [hnone] at hs
        cases hs
      rw [hnone, hname]
      rfl
  | unknown hs hunknown =>
      rw [hs]
      dsimp only
      rw [(DecidedType.ofSpelling_eq_none (by rfl)).mpr hunknown]
      rfl

/-- A scalar type is decided in one of the four ways. -/
theorem decideSpec_eq_ok {d : DecidedType} :
    g.decideSpec id spec isParameter = .ok d ↔ g.DecidesSpec id spec isParameter d := by
  have hbyName : ∀ {isPointer}, g.LeftToName id spec isPointer →
      g.decideByName id spec isPointer isParameter = .ok d → g.DecidesSpec id spec isParameter d := by
    intro isPointer hleft h
    obtain ⟨name, hname, ⟨address, hlead, rfl⟩ | ⟨target, s, representation, hlead, hs, hcategory, rfl⟩⟩ :=
      decideByName_eq_ok.mp h
    · exact .symbol hleft hname hlead
    · exact .native hleft hname hlead hs hcategory
  have hleft : ∀ {isPointer name}, g.LeftToName id spec isPointer → spec.name = some name →
      g.decideByName id spec isPointer isParameter = .ok d → g.decideSpec id spec isParameter = .ok d := by
    intro isPointer name hleft hname h
    rwa [decideSpec_of_leftToName hleft fun hnone => by rw [hname] at hnone; cases hnone]
  constructor
  · -- a spelling that is known decides; all else is left to the name
    intro h
    rw [decideSpec_eq] at h
    cases hs : g.classifiedSpelling id spec with
    | none =>
        rw [hs] at h
        cases hname : spec.name with
        | none =>
            rw [hname] at h
            cases h
            exact .untyped hname hs
        | some name =>
            rw [hname] at h
            exact hbyName (.unspelled hs) h
    | some s =>
        rw [hs] at h
        obtain ⟨found, hfound, h⟩ := bind_eq_ok.mp h
        obtain ⟨representation, hcategory, rfl⟩ := DecidedType.ofSpelling_eq_ok.mp hfound
        cases representation with
        | none => exact hbyName (.unknown hs (Representation.ofCategory_eq_none.mp hcategory)) h
        | some representation =>
            cases h
            exact .spelled hs hcategory
  · rintro (⟨hname, hs⟩ | ⟨hs, hcategory⟩ | ⟨h, hname, hlead⟩ | ⟨h, hname, hlead, hs, hcategory⟩)
    · rw [decideSpec_eq, hs, hname]
      rfl
    · rw [decideSpec_eq, hs]
      exact bind_eq_ok.mpr ⟨_, DecidedType.ofSpelling_eq_ok.mpr ⟨_, hcategory, rfl⟩, rfl⟩
    · exact hleft h hname (decideByName_eq_ok.mpr ⟨_, hname, .inl ⟨_, hlead, rfl⟩⟩)
    · exact hleft h hname (decideByName_eq_ok.mpr ⟨_, hname, .inr ⟨_, _, _, hlead, hs, hcategory, rfl⟩⟩)

theorem decideArray_eq_ok {element : TypeSpec} {length : Nat} {d : DecidedType} :
    g.decideArray id element length isParameter = .ok d ↔
      ∃ decided, g.decideSpec id element isParameter = .ok decided ∧
        d = if decided.isText then DecidedType.handle.asRef
          else if length = 0 || g.isOpaqueElement decided then .handle
          else { decided with
            isArray := true, lengthIndex := if isParameter then some length else none } := by
  have hreturn : ∀ {x : DecidedType}, (return x : Except Fault DecidedType) = .ok d ↔ d = x :=
    ⟨fun h => (Except.ok.inj h).symm, fun h => congrArg Except.ok h.symm⟩
  rw [decideArray, bind_eq_ok]
  refine exists_congr fun decided => and_congr_right fun _ => ?_
  split
  · exact hreturn
  · split
    · exact hreturn
    · exact hreturn

/-- How a reference is decided. -/
inductive Decides (g : Graph) (id : RepositoryId) (reference : TypeReference) : DecidedType → Prop
  | scalar {d : DecidedType} (harray : reference.array = none)
    (h : g.decideSpec id reference.spec (reference.context == .parameter) = .ok d) :
    Decides g id reference d
  | unsized {array : ArrayInfo} (harray : reference.array = some array) (hsized : array.sized? = none) :
    Decides g id reference .handle
  /-- An array of texts is passed by the address of a handle. -/
  | texts {array : ArrayInfo} {length : Nat} {element : TypeSpec} {d : DecidedType}
    (harray : reference.array = some array) (hsized : array.sized? = some (length, element))
    (h : g.decideSpec id element (reference.context == .parameter) = .ok d) (htext : d.isText) :
    Decides g id reference DecidedType.handle.asRef
  /-- An array without a length, or of elements without structure, is a handle. -/
  | collapsed {array : ArrayInfo} {length : Nat} {element : TypeSpec} {d : DecidedType}
    (harray : reference.array = some array) (hsized : array.sized? = some (length, element))
    (h : g.decideSpec id element (reference.context == .parameter) = .ok d) (htext : d.isText = false)
    (helement : length = 0 ∨ g.isOpaqueElement d) : Decides g id reference .handle
  | typed {array : ArrayInfo} {length : Nat} {element : TypeSpec} {d : DecidedType}
    (harray : reference.array = some array) (hsized : array.sized? = some (length, element))
    (h : g.decideSpec id element (reference.context == .parameter) = .ok d) (htext : d.isText = false)
    (hlength : length ≠ 0) (helement : g.isOpaqueElement d = false) :
    Decides g id reference { d with
      isArray := true, lengthIndex := if reference.context == .parameter then some length else none }

theorem decide_of_array {array : ArrayInfo} (harray : reference.array = some array) :
    g.decide id reference = match array.sized? with
      | none => .ok .handle
      | some (length, element) =>
        g.decideArray id element length (reference.context == .parameter) := by
  obtain ⟨length, ctype, element⟩ := array
  rw [decide, harray]
  cases length with
  | none => rfl
  | some length =>
      cases element with
      | none => rfl
      | some element =>
          dsimp only [ArrayInfo.sized?, Option.bind_some]
          cases htyped : element.isTyped with
          | false => rw [if_neg Bool.false_ne_true, Option.filter_some_neg (by simp [htyped])]; rfl
          | true => rw [if_pos rfl, Option.filter_some_pos htyped]; rfl

/-- A reference is decided in one of the five ways. -/
theorem decide_eq_ok {d : DecidedType} : g.decide id reference = .ok d ↔ g.Decides id reference d := by
  constructor
  · intro h
    cases harray : reference.array with
    | none =>
        rw [decide, harray] at h
        exact .scalar harray h
    | some array =>
        rw [decide_of_array harray] at h
        cases hsized : array.sized? with
        | none =>
            rw [hsized] at h
            cases h
            exact .unsized harray hsized
        | some sized =>
            obtain ⟨length, element⟩ := sized
            rw [hsized] at h
            obtain ⟨decided, hdecided, rfl⟩ := decideArray_eq_ok.mp h
            split
            · next htext => exact .texts harray hsized hdecided htext
            · next htext =>
                rw [Bool.not_eq_true] at htext
                split
                · next helement =>
                    rw [Bool.or_eq_true, decide_eq_true_iff] at helement
                    exact .collapsed harray hsized hdecided htext helement
                · next helement =>
                    rw [Bool.not_eq_true, Bool.or_eq_false_iff, decide_eq_false_iff_not] at helement
                    exact .typed harray hsized hdecided htext helement.1 helement.2
  · intro h
    cases h with
    | scalar harray h =>
        rw [decide, harray]
        exact h
    | unsized harray hsized => rw [decide_of_array harray, hsized]
    | texts harray hsized h htext =>
        rw [decide_of_array harray, hsized]
        exact decideArray_eq_ok.mpr ⟨_, h, (if_pos htext).symm⟩
    | @collapsed _ length _ decided harray hsized h htext helement =>
        have hcollapses : (Decidable.decide (length = 0) || g.isOpaqueElement decided) = true := by
          rwa [Bool.or_eq_true, decide_eq_true_iff]
        rw [decide_of_array harray, hsized]
        refine decideArray_eq_ok.mpr ⟨_, h, ?_⟩
        rw [if_neg (Bool.eq_false_iff.mp htext), if_pos hcollapses]
    | @typed _ length _ decided harray hsized h htext hlength helement =>
        have hstays : ¬(Decidable.decide (length = 0) || g.isOpaqueElement decided) = true := by
          rw [Bool.not_eq_true, Bool.or_eq_false_iff, decide_eq_false_iff_not]
          exact ⟨hlength, helement⟩
        rw [decide_of_array harray, hsized]
        refine decideArray_eq_ok.mpr ⟨_, h, ?_⟩
        rw [if_neg (Bool.eq_false_iff.mp htext), if_neg hstays]

theorem Decides.decidesSpec {d : DecidedType} (h : g.Decides id reference d)
    (hscalar : reference.array = none) :
    g.DecidesSpec id reference.spec (reference.context == .parameter) d := by
  have hd := decide_eq_ok.mpr h
  rw [decide, hscalar] at hd
  exact decideSpec_eq_ok.mp hd

end Graph

end Interop
