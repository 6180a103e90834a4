import Interop.Proofs.AliasTrail
import Interop.Proofs.BestEffort
import Interop.Proofs.Deciding

/-! Why a type is not decided. For a linked repository there are four reasons: the spelling that a type is
classified by belongs to a refused library, it is not known and there is no name, the name or one on its trail
is not found, or the trail of the name comes back to one of its symbols. Where a name leads to a native type,
this is always represented. Main statement: `decide_fails_exactly`. -/

namespace Interop

/-! ### Categories -/

/-- No row of the table is about a refused library. -/
theorem categoryOf_eq_unsupported {base : String} {pointer : Bool} :
    categoryOf base pointer = .unsupported ↔ isRefused base := by
  have hrows : ∀ row ∈ classificationTable, row.category ≠ .unsupported := by decide
  have hbases : ∀ row ∈ classificationTable, ∀ base ∈ row.bases, isRefused base = false := by decide
  obtain ⟨row, hrow, hcovers, h⟩ | ⟨hrefused, h⟩ | ⟨-, hrefused, h⟩ := categoryOf_cases base pointer
  · rw [h, hbases row hrow base (ClassificationRow.mem_bases hcovers)]
    exact iff_of_false (hrows row hrow) Bool.false_ne_true
  · exact iff_of_true h hrefused
  · simp [h, hrefused]

theorem Representation.ofCategory_eq_error {name : Option String} {s : Spelling} {fault : Fault} :
    ofCategory name s (classify s).category = .error fault ↔ isRefused s.base ∧ fault = .unsupportedType s.text := by
  have hrefused : (classify s).category = .unsupported ↔ isRefused s.base := by
    rw [category_classify]
    exact categoryOf_eq_unsupported
  rw [← hrefused]
  cases (classify s).category with
  | unsupported => simp [ofCategory, eq_comm]
  | _ => simp [ofCategory]

theorem DecidedType.ofSpelling_eq_error {name : Option String} {s : Spelling} {c : Classification}
    {isParameter : Bool} {fault : Fault} (hc : c.category = (classify s).category) :
    ofSpelling name s c isParameter = .error fault ↔ isRefused s.base ∧ fault = .unsupportedType s.text := by
  refine Iff.trans ?_ (Representation.ofCategory_eq_error : Representation.ofCategory name s _ = _ ↔ _)
  rw [ofSpelling, hc, bind_eq_error]
  constructor
  · rintro (h | ⟨_, _, ⟨⟩⟩)
    exact h
  · exact .inl

/-! ### Names -/

namespace Graph

variable {g : Graph} {id : RepositoryId} {spec : TypeSpec} {name : String} {isPointer isParameter : Bool}
  {fault : Fault}

theorem EndsNative.nativeSpelling_eq {target : TypeSpec} {s : Spelling} (h : g.EndsNative id name target s) :
    target.nativeSpelling = some s := by
  cases h with
  | intro _ _ hs _ => exact hs

theorem EndsNative.known {target : TypeSpec} {s : Spelling} (h : g.EndsNative id name target s) :
    (classify s).category ≠ .unknown := by
  cases h with
  | intro _ _ _ hknown => exact hknown

/-- The native type that a name leads to is represented, or refused. -/
theorem EndsNative.ofSpelling_ne {target : TypeSpec} {s : Spelling} (h : g.EndsNative id name target s)
    {c : Classification} (hc : c.category = (classify s).category) (isParameter : Bool) :
    DecidedType.ofSpelling target.name s c isParameter ≠ .ok none := by
  exact fun hnone => h.known ((DecidedType.ofSpelling_eq_none hc).mp hnone)

/-- A type that is decided by its name fails without one, with the name, or with what the name leads to. -/
theorem decideByName_eq_error (hg : Obtained g) :
    g.decideByName id spec isPointer isParameter = .error fault ↔
      (spec.name = none ∧ fault = .unresolvedSymbol spec.label (g.canonicalName id)) ∨
      ∃ name, spec.name = some name ∧ (g.resolveName id name = .error fault ∨
        ∃ target s, g.EndsNative id name target s ∧ isRefused s.base ∧ fault = .unsupportedType s.text) := by
  rw [decideByName]
  generalize Fault.unresolvedSymbol spec.label (g.canonicalName id) = unresolved
  cases spec.name with
  | none =>
      constructor
      · rintro ⟨⟩
        exact .inl ⟨rfl, rfl⟩
      · rintro (⟨-, rfl⟩ | ⟨_, ⟨⟩, _⟩)
        rfl
  | some name =>
      simp only [reduceCtorEq, false_and, false_or, Option.some.injEq, exists_eq_left']
      show g.resolveName id name >>= _ = .error fault ↔ _
      rw [bind_eq_error]
      refine or_congr_right ?_
      constructor
      · rintro ⟨target, htarget, hfault⟩
        cases target with
        | symbol address => cases hfault
        | native target =>
            obtain ⟨s, hends⟩ := (resolveName_eq_native hg).mp htarget
            dsimp only at hfault
            rw [hends.nativeSpelling_eq] at hfault
            rcases bind_eq_error.mp hfault with hfault | ⟨found, hfound, hfault⟩
            · obtain ⟨hrefused, hfault⟩ := (DecidedType.ofSpelling_eq_error (by rfl)).mp hfault
              exact ⟨target, s, hends, hrefused, hfault⟩
            · cases found with
              | none => exact absurd hfound (hends.ofSpelling_ne (by rfl) isParameter)
              | some decided => cases hfault
      · rintro ⟨target, s, hends, hrefused, hfault⟩
        refine ⟨.native target, (resolveName_eq_native hg).mpr ⟨s, hends⟩, ?_⟩
        dsimp only
        rw [hends.nativeSpelling_eq]
        exact bind_eq_error.mpr (.inl ((DecidedType.ofSpelling_eq_error (by rfl)).mpr ⟨hrefused, hfault⟩))

/-! ### Scalar types -/

/-- The spelling by which a scalar type is classified in the end: its own, or that of the native type that
its name leads to, if it is left to the name. -/
inductive ClassifiedBy (g : Graph) (id : RepositoryId) (spec : TypeSpec) : Spelling → Prop
  | own {s : Spelling} (h : g.classifiedSpelling id spec = some s) : ClassifiedBy g id spec s
  | behind {isPointer : Bool} {name : String} {target : TypeSpec} {s : Spelling}
    (h : g.LeftToName id spec isPointer) (hname : spec.name = some name)
    (hends : g.EndsNative id name target s) : ClassifiedBy g id spec s

/-- Why a scalar type is not decided. -/
inductive Fails (g : Graph) (id : RepositoryId) (spec : TypeSpec) : Fault → Prop
  | refused {s : Spelling} (h : g.ClassifiedBy id spec s) (hrefused : isRefused s.base) :
    Fails g id spec (.unsupportedType s.text)
  /-- The spelling is not known, and there is no name. -/
  | unnamed {s : Spelling} (h : g.classifiedSpelling id spec = some s)
    (hunknown : (classify s).category = .unknown) (hname : spec.name = none) :
    Fails g id spec (.unresolvedSymbol spec.label (g.canonicalName id))
  /-- The name, or one on its trail, is not found. -/
  | missed {isPointer : Bool} {name searched place : String} (h : g.LeftToName id spec isPointer)
    (hname : spec.name = some name) (hmisses : g.Misses id name (.unresolvedSymbol searched place)) :
    Fails g id spec (.unresolvedSymbol searched place)
  /-- The trail of the name comes back to one of its symbols. -/
  | cycle {isPointer : Bool} {name : String} {names : List String} (h : g.LeftToName id spec isPointer)
    (hname : spec.name = some name) (hcycles : g.Cycles id name names) :
    Fails g id spec (.aliasCycle names)

/-- A type without a spelling and a name does not fail. -/
theorem not_fails (hspelling : g.classifiedSpelling id spec = none) (hname : spec.name = none) :
    ¬g.Fails id spec fault := by
  have hunspelled : ∀ s, g.classifiedSpelling id spec ≠ some s := by simp [hspelling]
  have hunnamed : ∀ name, spec.name ≠ some name := by simp [hname]
  intro h
  cases h with
  | refused hby =>
      cases hby with
      | own hs => exact hunspelled _ hs
      | behind _ hsome => exact hunnamed _ hsome
  | unnamed hs => exact hunspelled _ hs
  | missed _ hsome => exact hunnamed _ hsome
  | cycle _ hsome => exact hunnamed _ hsome

/-- A type with a spelling that is known can only be refused. -/
theorem Fails.eq_of_known (h : g.Fails id spec fault) {s : Spelling}
    (hs : g.classifiedSpelling id spec = some s) (hknown : (classify s).category ≠ .unknown) :
    isRefused s.base ∧ fault = .unsupportedType s.text := by
  have hleft : ∀ isPointer, ¬g.LeftToName id spec isPointer := fun _ hleft =>
    hknown (hleft.category_eq_unknown hs)
  cases h with
  | refused hby hrefused =>
      cases hby with
      | own hown =>
          obtain rfl := Option.some.inj (hs.symm.trans hown)
          exact ⟨hrefused, rfl⟩
      | behind h => exact absurd h (hleft _)
  | unnamed hown hunknown =>
      obtain rfl := Option.some.inj (hs.symm.trans hown)
      exact absurd hunknown hknown
  | missed h => exact absurd h (hleft _)
  | cycle h => exact absurd h (hleft _)

end Graph

namespace History.Consistent

variable {h : History} (hh : h.Consistent) {id : RepositoryId} (hid : id ∈ h.graph.buildOrder)

include hh hid

theorem mem_buildOrder_of_trail {name : String} {trail : List SymbolRef} (htrail : h.graph.Trail id name trail) :
    ∀ s ∈ trail, s.repository ∈ h.graph.buildOrder := fun s hs =>
  hh.mem_buildOrder_of_path hid (htrail.path s hs)

theorem exists_unresolved_of_misses {name : String} {fault : Fault} (hmisses : h.graph.Misses id name fault) :
    ∃ searched place, fault = .unresolvedSymbol searched place := by
  cases hmisses with
  | start hmissed => exact ⟨_, _, hh.fault_of_lookupSymbol hid hmissed⟩
  | hop htrail _ _ hmissed =>
      have hcurrent := hh.mem_buildOrder_of_trail hid htrail _ (List.mem_cons_self ..)
      exact ⟨_, _, hh.fault_of_lookupSymbol hcurrent hmissed⟩

variable (hg : Obtained h.graph) {spec : TypeSpec} {isParameter : Bool} {fault : Fault}

include hg

/-- A type that is left to its name fails by its name. -/
theorem decideByName_eq_error_iff {isPointer : Bool} (hleft : h.graph.LeftToName id spec isPointer)
    (hspelled : spec.name = none → ∃ s, h.graph.classifiedSpelling id spec = some s) :
    h.graph.decideByName id spec isPointer isParameter = .error fault ↔ h.graph.Fails id spec fault := by
  rw [Graph.decideByName_eq_error hg]
  constructor
  · rintro (⟨hname, rfl⟩ | ⟨name, hname, hfault | ⟨target, s, hends, hrefused, rfl⟩⟩)
    · obtain ⟨s, hs⟩ := hspelled hname
      exact .unnamed hs (hleft.category_eq_unknown hs) hname
    · rcases Graph.resolveName_eq_error.mp hfault with hmisses | ⟨names, rfl, hcycles⟩
      · obtain ⟨searched, place, rfl⟩ := hh.exists_unresolved_of_misses hid hmisses
        exact .missed hleft hname hmisses
      · exact .cycle hleft hname hcycles
    · exact .refused (.behind hleft hname hends) hrefused
  · intro hfails
    cases hfails with
    | refused hby hrefused =>
        cases hby with
        | own hs =>
            have hunknown := hleft.category_eq_unknown hs
            rw [category_classify, categoryOf_eq_unsupported.mpr hrefused] at hunknown
            cases hunknown
        | behind _ hname hends => exact .inr ⟨_, hname, .inr ⟨_, _, hends, hrefused, rfl⟩⟩
    | unnamed _ _ hname => exact .inl ⟨hname, rfl⟩
    | missed _ hname hmisses => exact .inr ⟨_, hname, .inl (Graph.resolveName_eq_error.mpr (.inl hmisses))⟩
    | cycle _ hname hcycles =>
        exact .inr ⟨_, hname, .inl (Graph.resolveName_eq_error.mpr (.inr ⟨_, rfl, hcycles⟩))⟩

/-- A scalar type is not decided for one of the four reasons. -/
theorem decideSpec_eq_error_iff :
    h.graph.decideSpec id spec isParameter = .error fault ↔ h.graph.Fails id spec fault := by
  have hbyName : ∀ {isPointer}, h.graph.LeftToName id spec isPointer →
      (spec.name = none → ∃ s, h.graph.classifiedSpelling id spec = some s) →
        (h.graph.decideSpec id spec isParameter = .error fault ↔ h.graph.Fails id spec fault) := by
    intro isPointer hleft hspelled
    rw [Graph.decideSpec_of_leftToName hleft hspelled]
    exact hh.decideByName_eq_error_iff hid hg hleft hspelled
  cases hs : h.graph.classifiedSpelling id spec with
  | none =>
      cases hname : spec.name with
      | none =>
          rw [Graph.decideSpec_eq, hs, hname]
          exact iff_of_false nofun (Graph.not_fails hs hname)
      | some name => exact hbyName (.unspelled hs) fun hnone => by rw [hname] at hnone; cases hnone
  | some s =>
      by_cases hunknown : (classify s).category = .unknown
      · exact hbyName (.unknown hs hunknown) fun _ => ⟨s, hs⟩
      · rw [Graph.decideSpec_eq, hs]
        refine Iff.trans bind_eq_error ?_
        constructor
        · rintro (hfault | ⟨found, hfound, hfault⟩)
          · obtain ⟨hrefused, rfl⟩ := (DecidedType.ofSpelling_eq_error (by rfl)).mp hfault
            exact .refused (.own hs) hrefused
          · cases found with
            | some decided => cases hfault
            | none => exact absurd ((DecidedType.ofSpelling_eq_none (by rfl)).mp hfound) hunknown
        · exact fun hfails => .inl ((DecidedType.ofSpelling_eq_error (by rfl)).mpr (hfails.eq_of_known hs hunknown))

end History.Consistent

/-! ### References -/

theorem TypeReference.scalar?_of_array {reference : TypeReference} {array : ArrayInfo}
    (h : reference.array = some array) : reference.scalar? = array.sized?.map (·.2) := by
  obtain ⟨_ | length, ctype, _ | element⟩ := array
  · rw [scalar?, h]; rfl
  · rw [scalar?, h]; rfl
  · rw [scalar?, h]; rfl
  · rw [scalar?, h]
    by_cases htyped : element.isTyped
    · simp [ArrayInfo.sized?, htyped, Option.filter_some_pos]
    · simp [ArrayInfo.sized?, htyped, Option.filter_some_neg]

namespace Graph

variable {g : Graph} {id : RepositoryId} {reference : TypeReference}

/-- A reference is not decided if its scalar type, or that of its elements, is not. -/
theorem decide_eq_error {fault : Fault} : g.decide id reference = .error fault ↔
    ∃ spec, reference.scalar? = some spec ∧
      g.decideSpec id spec (reference.context == .parameter) = .error fault := by
  cases harray : reference.array with
  | none =>
      have hscalar : reference.scalar? = some reference.spec := by rw [TypeReference.scalar?, harray]
      rw [hscalar, decide, harray]
      simp
  | some array =>
      rw [decide_of_array harray, TypeReference.scalar?_of_array harray]
      cases array.sized? with
      | none => simp
      | some sized =>
          obtain ⟨length, element⟩ := sized
          simp only [Option.map_some, Option.some.injEq, exists_eq_left']
          rw [decideArray, bind_eq_error]
          constructor
          · rintro (hfault | ⟨decided, -, hfault⟩)
            · exact hfault
            · split at hfault
              · cases hfault
              · split at hfault
                · cases hfault
                · cases hfault
          · exact .inl

/-- What keeps a reference from being decided, exactly. -/
structure FailsExactly (g : Graph) (id : RepositoryId) (reference : TypeReference) : Prop where
  error_iff : ∀ fault, g.decide id reference = .error fault ↔
    ∃ spec, reference.scalar? = some spec ∧ g.Fails id spec fault
  succeeds : (∃ d, g.decide id reference = .ok d) ↔
    ∀ spec, reference.scalar? = some spec → ∀ fault, ¬g.Fails id spec fault
  unsized : ∀ array, reference.array = some array → array.length = none → g.decide id reference = .ok .handle
  untyped : reference.array = none → reference.spec.isTyped = false → g.decide id reference = .ok .handle
  /-- A type that is not told is spelled as one that is always a handle. -/
  untold : reference = .untyped reference.context → g.decide id reference = .ok .handle
  /-- Where a name leads to a native type, this is represented or refused. -/
  native : ∀ name target, g.resolveName id name = .ok (.native target) →
    ∃ s, target.nativeSpelling = some s ∧ ∀ isPointer isParameter,
      DecidedType.ofSpelling target.name s ((classify s).orPointer isPointer) isParameter ≠ .ok none

end Graph

/-- For a linked repository it is told exactly why a reference is not decided. The spelling that it is
classified by in the end belongs to a refused library; or its own spelling is not known and it has no name; or
its spelling is not known or absent, and its name, or one on the trail of the name, is not found; or the trail
comes back to one of its symbols. All other references are decided, arrays without a length and untyped
references among them. -/
theorem decide_fails_exactly {g : Graph} (hg : Obtained g) {id : RepositoryId} (hid : id ∈ g.buildOrder)
    (reference : TypeReference) : g.FailsExactly id reference := by
  obtain ⟨h, hh, rfl⟩ := hg.exists_consistent
  have herror : ∀ fault, h.graph.decide id reference = .error fault ↔
      ∃ spec, reference.scalar? = some spec ∧ h.graph.Fails id spec fault := by
    intro fault
    rw [Graph.decide_eq_error]
    exact exists_congr fun spec => and_congr_right fun _ => hh.decideSpec_eq_error_iff hid hg
  constructor
  case error_iff => exact herror
  case succeeds =>
    constructor
    · rintro ⟨d, hd⟩ spec hspec fault hfails
      rw [(herror fault).mpr ⟨spec, hspec, hfails⟩] at hd
      cases hd
    · intro hnone
      cases hdecide : h.graph.decide id reference with
      | ok d => exact ⟨d, rfl⟩
      | error fault =>
          obtain ⟨spec, hspec, hfails⟩ := (herror fault).mp hdecide
          exact absurd hfails (hnone spec hspec fault)
  case unsized =>
    intro array harray hlength
    rw [Graph.decide_of_array harray, ArrayInfo.sized?, hlength]
    rfl
  case untyped =>
    intro harray htyped
    obtain ⟨⟨name, ctype⟩, array, context⟩ := reference
    obtain rfl : array = none := harray
    cases name with
    | some name => cases htyped
    | none =>
        cases ctype with
        | some ctype => cases htyped
        | none => rfl
  case untold =>
    intro heq
    have hhandle : (Spelling.ofString "gpointer").isAlwaysHandle = true := by decide
    have hpointer := Spelling.isPointer_of_isAlwaysHandle hhandle
    rw [heq, TypeReference.untyped, Graph.decide_scalar, Graph.decideSpec]
    dsimp only [TypeSpec.nativeSpelling]
    rw [if_pos hhandle, hpointer]
    rfl
  case native =>
    intro name target htarget
    obtain ⟨s, hends⟩ := (Graph.resolveName_eq_native hg).mp htarget
    exact ⟨s, hends.nativeSpelling_eq, fun _ isParameter => hends.ofSpelling_ne (by rfl) isParameter⟩

open Sample in
/-- A spelling that leads to another unknown one leaves the type to its name, which leads into a cycle. -/
theorem decide_fails_exactly_looped :
    Obtained looped ∧ (⟨0⟩ : RepositoryId) ∈ looped.buildOrder ∧
      looped.FailsExactly ⟨0⟩ (.scalar (named "Entry" "LEntry") .field) ∧
      looped.decide ⟨0⟩ (.scalar (named "Entry" "LEntry") .field) =
        .error (.aliasCycle ["Loop.Entry", "Loop.Left", "Loop.Right", "Loop.Left"]) := by
  have hlooped : Obtained looped := Obtained.empty.after _
  have hmem : (⟨0⟩ : RepositoryId) ∈ looped.buildOrder := by
    rw [looped_eq]
    decide
  have hfails := decide_fails_exactly hlooped hmem (.scalar (named "Entry" "LEntry") .field)
  have hspelling : looped.classifiedSpelling ⟨0⟩ (named "Entry" "LEntry") = some (.ofString "LLeft") := by
    rw [looped_eq]
    decide +kernel
  have hleft := Graph.LeftToName.unknown hspelling (by decide +kernel)
  exact ⟨hlooped, hmem, hfails, (hfails.error_iff _).mpr ⟨_, rfl, .cycle hleft rfl cycles_looped⟩⟩

end Interop
