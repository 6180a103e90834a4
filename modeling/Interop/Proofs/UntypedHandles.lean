import Interop.Proofs.Nullability

/-! Spellings that always stand for an untyped handle. Without pointer markers, no alias replaces them. With
pointer markers they are handles as well, unless an alias table in sight has the spelling, with its markers or
without them; then what stands there counts. Main statement: `untyped_handle_iff`. -/

namespace Interop

/-! ### Handles among the classified types -/

/-- Whether a classified type is passed as a handle: it is one, or a pointer to neither a value nor a text that
a parameter takes as it is. -/
def Classification.isPassedAsHandle (c : Classification) (isParameter : Bool) : Bool :=
  c.category == .handle || c.isPointer && (c.category == .callback || c.category == .text && !isParameter)

/-- A spelling is decided to a handle, with a pointer marker behind it or not, if it is passed as one. -/
theorem DecidedType.isHandle_ofClassified {name : Option String} {s : Spelling} {representation : Representation}
    (h : Representation.ofCategory name s (classify s).category = .ok (some representation))
    (behind isParameter : Bool) :
    (ofClassified representation ((classify s).orPointer behind) isParameter).isHandle =
      ((classify s).orPointer behind).isPassedAsHandle isParameter := by
  have hprimitive := isPrimitive_classify s
  generalize classify s = c at h hprimitive ⊢
  obtain ⟨category, isPointer, isPrimitive⟩ := c
  obtain rfl : isPrimitive = category.isPrimitive := hprimitive
  rw [Classification.orPointer]
  generalize (isPointer || behind) = marked
  cases category with
  | unsupported | unknown | countedHandle => cases h
  | text =>
      cases h
      cases marked <;> cases isParameter <;> rfl
  | _ =>
      cases h
      cases marked <;> rfl

/-- What is passed as a handle is represented. -/
theorem Classification.exists_ofCategory {c : Classification} {behind isParameter : Bool}
    (h : (c.orPointer behind).isPassedAsHandle isParameter = true) (name : Option String) (s : Spelling) :
    ∃ representation, Representation.ofCategory name s c.category = .ok (some representation) := by
  obtain ⟨category, isPointer, isPrimitive⟩ := c
  cases category with
  | unsupported | unknown | countedHandle =>
      rw [orPointer, isPassedAsHandle] at h
      simp at h
  | _ => exact ⟨_, rfl⟩

namespace Graph

variable {g : Graph} {id : RepositoryId} {spec : TypeSpec} {s : Spelling} {isParameter : Bool} {d : DecidedType}

/-- A spelling, or else what the name at it leads to, is passed as a handle. -/
inductive StandsForHandle (g : Graph) (id : RepositoryId) (name : Option String) (s : Spelling)
    (isParameter : Bool) : Prop
  | spelled (h : (classify s).isPassedAsHandle isParameter = true)
  | named {known : String} {target : TypeSpec} {t : Spelling} (hunknown : (classify s).category = .unknown)
    (hname : name = some known) (hlead : g.resolveName id known = .ok (.native target))
    (ht : target.nativeSpelling = some t)
    (h : ((classify t).orPointer s.isPointer).isPassedAsHandle isParameter = true)

theorem DecidesSpec.byRef_eq_false (h : g.DecidesSpec id spec isParameter d) (hhandle : d.isHandle = true) :
    d.byRef = false := by
  refine Bool.eq_false_iff.mpr fun hbyRef => ?_
  rw [isHandle_of_isPrimitiveValue (h.of_byRef hbyRef).1] at hhandle
  cases hhandle

/-- A type is decided to a handle if the spelling that it is classified by stands for one. -/
theorem exists_isHandle_iff (hs : g.classifiedSpelling id spec = some s) :
    (∃ d, g.decideSpec id spec isParameter = .ok d ∧ d.isHandle = true) ↔
      g.StandsForHandle id spec.name s isParameter := by
  constructor
  · rintro ⟨d, hd, hhandle⟩
    cases decideSpec_eq_ok.mp hd with
    | untyped _ hnone =>
        rw [hs] at hnone
        cases hnone
    | spelled hs' hrepresentation =>
        obtain rfl := Option.some.inj (hs.symm.trans hs')
        have hpassed := DecidedType.isHandle_ofClassified hrepresentation false isParameter
        rw [Classification.orPointer_false, hhandle] at hpassed
        exact .spelled hpassed.symm
    | symbol => cases hhandle
    | native hleft hname hlead ht hrepresentation =>
        rw [DecidedType.isHandle_ofClassified hrepresentation] at hhandle
        cases hleft with
        | unspelled hnone =>
            rw [hs] at hnone
            cases hnone
        | unknown hs' hunknown =>
            obtain rfl := Option.some.inj (hs.symm.trans hs')
            exact .named hunknown hname hlead ht hhandle
  · rintro (h | ⟨hunknown, hname, hlead, ht, h⟩)
    · rw [← Classification.orPointer_false (classify s)] at h
      obtain ⟨representation, hrepresentation⟩ := Classification.exists_ofCategory h spec.name s
      have hpassed := DecidedType.isHandle_ofClassified hrepresentation false isParameter
      rw [h, Classification.orPointer_false] at hpassed
      exact ⟨_, decideSpec_eq_ok.mpr (.spelled hs hrepresentation), hpassed⟩
    · obtain ⟨representation, hrepresentation⟩ := Classification.exists_ofCategory h _ _
      have hpassed := DecidedType.isHandle_ofClassified hrepresentation s.isPointer isParameter
      rw [h] at hpassed
      exact ⟨_, decideSpec_eq_ok.mpr (.native (.unknown hs hunknown) hname hlead ht hrepresentation), hpassed⟩

end Graph

/-! ### Pointer markers behind them -/

namespace Spelling

variable {s : Spelling}

theorem isNormal_of_isAlwaysHandle (h : s.isAlwaysHandle) : s.IsNormal ∧ s.pointerDepth = 0 := by
  have hall : ∀ text ∈ handleSpellings, normalize text.toList = text.toList ∧ pointerDepth ⟨text⟩ = 0 := by
    decide +kernel
  rw [isAlwaysHandle, List.contains_iff_mem] at h
  exact hall s.text h

/-- The guard of these spellings is about those without a marker. -/
theorem isAlwaysHandle_addPointers (s : Spelling) {k : Nat} (hk : k ≠ 0) :
    (s.addPointers k).isAlwaysHandle = false := by
  refine Bool.eq_false_iff.mpr fun h => ?_
  have hpointer := isPointer_of_isAlwaysHandle h
  rw [s.isPointer_addPointers, decide_eq_true (Nat.pos_of_ne_zero hk), Bool.or_true] at hpointer
  cases hpointer

end Spelling

/-- The table has these spellings as handles with pointer markers and without. -/
theorem classify_addPointers_of_isAlwaysHandle {s : Spelling} (h : s.isAlwaysHandle) (k : Nat) :
    classify (s.addPointers k) = ⟨.handle, decide (0 < k), false⟩ := by
  have hall : ∀ text ∈ Spelling.handleSpellings, ∀ pointer, categoryOf (Spelling.base ⟨text⟩) pointer = .handle := by
    decide +kernel
  have hbase := s.base_addPointers k
  have hpointer := s.isPointer_addPointers k
  rw [Spelling.isPointer_of_isAlwaysHandle h, Bool.false_or] at hpointer
  rw [Spelling.isAlwaysHandle, List.contains_iff_mem] at h
  rw [classify, hbase, hpointer, hall s.text h]
  rfl

/-- A table replaces a spelling with pointer markers if it has it with these or without them. -/
theorem AliasTable.hop_addPointers_eq_none {table : AliasTable} {s : Spelling} (hs : s.IsNormal)
    (hdepth : s.pointerDepth = 0) {k : Nat} (hk : k ≠ 0) :
    table.hop (s.addPointers k) = none ↔ table.find? s = none ∧ table.find? (s.addPointers k) = none := by
  have hplain : table.hop s = table.find? s := by
    unfold hop
    cases table.find? s with
    | some target => rfl
    | none => exact if_pos hdepth
  cases hmarked : table.find? (s.addPointers k) with
  | some target =>
      rw [hop, hmarked]
      simp
  | none =>
      rw [hop_addPointers hs hdepth hk hmarked, hplain, Option.map_eq_none_iff]
      simp

namespace Graph

variable {g : Graph} {id : RepositoryId} {s : Spelling}

theorem not_isAliasSpelling_iff : ¬g.IsAliasSpelling id s ↔
    ∀ other ∈ g.reachable id, ∀ r, g.repository? other = some r → r.aliasTable.find? s = none := by
  simp only [IsAliasSpelling, not_exists, not_and, Option.not_isSome_iff_eq_none, Option.bind_eq_none_iff]

theorem aliasHop_addPointers_eq_none (hs : s.IsNormal) (hdepth : s.pointerDepth = 0) {k : Nat} (hk : k ≠ 0) :
    g.aliasHop id (s.addPointers k) = none ↔
      ¬g.IsAliasSpelling id s ∧ ¬g.IsAliasSpelling id (s.addPointers k) := by
  rw [not_isAliasSpelling_iff, not_isAliasSpelling_iff, aliasHop, List.findSome?_eq_none_iff]
  simp only [Option.bind_eq_none_iff, AliasTable.hop_addPointers_eq_none hs hdepth hk]
  exact ⟨fun h => ⟨fun other hother r hr => (h other hother r hr).1, fun other hother r hr => (h other hother r hr).2⟩,
    fun h other hother r hr => ⟨h.1 other hother r hr, h.2 other hother r hr⟩⟩

end Graph

/-- A type whose spelling always stands for an untyped handle is one, whatever the aliases. With pointer markers
behind the spelling it is one as well, marked as a pointer, unless a table in sight has the spelling, with the
markers or without; then it is one exactly if the spelling that stands there is passed as a handle. -/
theorem untyped_handle_iff {g : Graph} {id : RepositoryId} {spec : TypeSpec} {s : Spelling}
    (hhandle : s.isAlwaysHandle) {k : Nat} (hs : spec.nativeSpelling = some (s.addPointers k))
    (context : TypeContext) :
    (k = 0 → g.decide id (.scalar spec context) = .ok .handle) ∧
    (¬g.IsAliasSpelling id s ∧ ¬g.IsAliasSpelling id (s.addPointers k) →
      g.decide id (.scalar spec context) = .ok (DecidedType.handle.withPointer (decide (0 < k)))) ∧
    ((∃ d, g.decide id (.scalar spec context) = .ok d ∧ d.isHandle = true ∧ d.byRef = false) ↔
      k = 0 ∨ (¬g.IsAliasSpelling id s ∧ ¬g.IsAliasSpelling id (s.addPointers k)) ∨
      ∃ t, g.aliasHop id (s.addPointers k) = some t ∧
        g.StandsForHandle id spec.name t (context == .parameter)) := by
  obtain ⟨hnormal, hdepth⟩ := Spelling.isNormal_of_isAlwaysHandle hhandle
  rw [Graph.decide_scalar]
  by_cases hk : k = 0
  · obtain rfl := hk
    have hdecide : g.decideSpec id spec (context == .parameter) = .ok .handle := by
      rw [hnormal.addPointers_zero] at hs
      rw [Graph.decideSpec, hs]
      dsimp only
      rw [if_pos hhandle, Spelling.isPointer_of_isAlwaysHandle hhandle]
      rfl
    exact ⟨fun _ => hdecide, fun _ => hdecide, iff_of_true ⟨_, hdecide, rfl, rfl⟩ (.inl rfl)⟩
  have hspelling : g.classifiedSpelling id spec =
      some ((g.aliasHop id (s.addPointers k)).getD (s.addPointers k)) := by
    rw [Graph.classifiedSpelling, hs, Option.map_some, s.isAlwaysHandle_addPointers hk]
    rfl
  rw [← Graph.aliasHop_addPointers_eq_none hnormal hdepth hk]
  cases hhop : g.aliasHop id (s.addPointers k) with
  | none =>
      have hdecide : g.decideSpec id spec (context == .parameter) =
          .ok (DecidedType.handle.withPointer (decide (0 < k))) := by
        rw [hhop, Option.getD_none] at hspelling
        rw [Graph.decideSpec_eq, hspelling]
        dsimp only
        rw [classify_addPointers_of_isAlwaysHandle hhandle, decide_eq_true (Nat.pos_of_ne_zero hk)]
        rfl
      exact ⟨fun h => absurd h hk, fun _ => hdecide, iff_of_true ⟨_, hdecide, rfl, rfl⟩ (.inr (.inl rfl))⟩
  | some t =>
      rw [hhop, Option.getD_some] at hspelling
      refine ⟨fun h => absurd h hk, fun h => absurd h (Option.some_ne_none t), ?_⟩
      simp only [hk, reduceCtorEq, Option.some.injEq, exists_eq_left', false_or]
      rw [← Graph.exists_isHandle_iff hspelling]
      refine exists_congr fun d => and_congr_right fun hd => and_iff_left_of_imp fun hisHandle => ?_
      exact (Graph.decideSpec_eq_ok.mp hd).byRef_eq_false hisHandle

open Sample in
/-- A pointer to a spelling that always stands for a handle is a number by reference, because of an alias that
the spelling itself is not replaced by. -/
theorem replaced_dialect :
    misleading.decide ⟨0⟩ (.scalar (named "Type" "GType") .parameter) = .ok .handle ∧
    misleading.decide ⟨0⟩ (.scalar (named "Type" "GType*") .parameter) =
      .ok { representation := .primitive .u64, byRef := true, isPointer := true } := by
  rw [misleading_eq]
  decide +kernel

open Sample in
theorem untyped_handle_iff_dialect :
    misleading.IsAliasSpelling ⟨0⟩ (.ofString "GType") ∧
    (¬∃ d, misleading.decide ⟨0⟩ (.scalar (named "Type" "GType*") .parameter) = .ok d ∧
      d.isHandle = true ∧ d.byRef = false) ∧
    misleading.decide ⟨0⟩ (.scalar (named "gpointer" "gpointer * *") .parameter) =
      .ok (DecidedType.handle.withPointer true) := by
  have htype : (named "Type" "GType*").nativeSpelling = some ((Spelling.ofString "GType").addPointers 1) := by
    decide +kernel
  have hdata : (named "gpointer" "gpointer * *").nativeSpelling =
      some ((Spelling.ofString "gpointer").addPointers 2) := by
    decide +kernel
  have halias : misleading.IsAliasSpelling ⟨0⟩ (.ofString "GType") := by
    rw [misleading_eq]
    decide +kernel
  have hhop : misleading.aliasHop ⟨0⟩ ((Spelling.ofString "GType").addPointers 1) = some (.ofString "gsize*") := by
    rw [misleading_eq]
    decide +kernel
  have hfresh : ¬misleading.IsAliasSpelling ⟨0⟩ (.ofString "gpointer") ∧
      ¬misleading.IsAliasSpelling ⟨0⟩ ((Spelling.ofString "gpointer").addPointers 2) := by
    rw [misleading_eq]
    decide +kernel
  obtain ⟨-, -, hiff⟩ := @untyped_handle_iff misleading ⟨0⟩ _ _ (by decide +kernel) _ htype .parameter
  obtain ⟨-, hplain, -⟩ := @untyped_handle_iff misleading ⟨0⟩ _ _ (by decide +kernel) _ hdata .parameter
  refine ⟨halias, fun h => ?_, hplain hfresh⟩
  obtain ⟨⟨⟩⟩ | ⟨hnone, -⟩ | ⟨t, ht, hstands⟩ := hiff.mp h
  · exact hnone halias
  · obtain rfl := Option.some.inj (hhop.symm.trans ht)
    cases hstands with
    | spelled h => exact absurd h (by decide +kernel)
    | named hunknown => exact absurd hunknown (by decide +kernel)

end Interop
