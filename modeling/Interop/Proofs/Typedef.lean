import Interop.Proofs.Locality
import Interop.Proofs.Spelling

/-! Typedefs. The name and the spelling of an alias are looked up apart: the name along all aliases, the
spelling by one hop, after which a type is decided by the spelling if that is classified, and by the name
otherwise. Where both lead the same way, a typedef decides like what it stands for, and so does a chain of
typedefs. Main statement: `outline_decide_of_unfolds`. -/

namespace Interop

open Relation

/-! ### Outlines -/

/-- A representation with the encoding of texts left open. -/
def Representation.plain : Representation → Representation
  | .text _ => .text .utf8
  | other => other

/-- What a type is represented by, the encoding of texts aside, and whether it is passed by reference. -/
abbrev Outline := Representation × Bool

def DecidedType.outline (d : DecidedType) : Outline := (d.representation.plain, d.byRef)

/-- The outline of a decision, if there is one. -/
def outline (decided : Except Fault DecidedType) : Option Outline := decided.toOption.map (·.outline)

/-- The outline of a classified spelling; `byName` is that of the name, which counts for a spelling that
is not known. -/
def Classification.outline (c : Classification) (isParameter : Bool) (byName : Option Outline) :
    Option Outline :=
  match DecidedType.ofSpelling none default c isParameter with
  | .error _ => none
  | .ok none => byName
  | .ok (some d) => some d.outline

/-- The classification of what a name leads to, with the pointer markers that come with the name. -/
def Classification.orPointer (c : Classification) (isPointer : Bool) : Classification :=
  { c with isPointer := c.isPointer || isPointer }

/-- The outline of what a name leads to. -/
def NameTarget.outline (isPointer isParameter : Bool) : NameTarget → Option Outline
  | .symbol address => some (.symbol address, false)
  | .native target => target.nativeSpelling.bind fun s =>
    ((classify s).orPointer isPointer).outline isParameter none

/-- The name and the spelling of a type matter only for the encoding of texts and for faults. -/
theorem outline_ofSpelling (name : Option String) (s : Spelling) (c : Classification) (isParameter : Bool)
    (byName : Except Fault DecidedType) :
    outline (do
      match ← DecidedType.ofSpelling name s c isParameter with
      | some decided => return decided
      | none => byName) = c.outline isParameter (outline byName) := by
  obtain ⟨category, isPointer, isPrimitive⟩ := c
  cases category with
  | unsupported => rfl
  | unknown => rfl
  | countedHandle => rfl
  | text => cases isPointer <;> cases isParameter <;> cases isPrimitive <;> rfl
  | _ => cases isPointer <;> cases isPrimitive <;> rfl

theorem Classification.outline_of_unknown {c : Classification} (h : c.category = .unknown)
    (isParameter : Bool) (byName : Option Outline) : c.outline isParameter byName = byName := by
  obtain ⟨category, isPointer, isPrimitive⟩ := c
  cases h
  rfl

namespace Graph

/-- Where the name of a type leads, if it leads anywhere. -/
def nameTarget? (g : Graph) (id : RepositoryId) (spec : TypeSpec) : Option NameTarget :=
  spec.name.bind fun name => (g.resolveName id name).toOption

variable {g : Graph}

theorem outline_decideByName (id : RepositoryId) (spec : TypeSpec) (isPointer isParameter : Bool) :
    outline (g.decideByName id spec isPointer isParameter) =
      (g.nameTarget? id spec).bind (·.outline isPointer isParameter) := by
  rw [decideByName, nameTarget?]
  cases spec.name with
  | none => rfl
  | some name =>
      show outline (g.resolveName id name >>= _) = (g.resolveName id name).toOption.bind _
      cases g.resolveName id name with
      | error fault => rfl
      | ok target =>
          cases target with
          | symbol address => rfl
          | native target =>
              simp only [bind, Except.bind, Except.toOption, Option.bind_some, NameTarget.outline]
              cases target.nativeSpelling with
              | none => rfl
              | some s => exact outline_ofSpelling _ _ _ _ (.error _)

/-- The spelling counts after one hop, and the name where that leaves the spelling unknown. -/
theorem outline_decideSpec {id : RepositoryId} {spec : TypeSpec} {s : Spelling} (hs : spec.ctype = some s)
    (hhandle : s.isAlwaysHandle = false) (isParameter : Bool) :
    outline (g.decideSpec id spec isParameter) =
      (classify ((g.aliasHop id s).getD s)).outline isParameter
        ((g.nameTarget? id spec).bind
          (·.outline (classify ((g.aliasHop id s).getD s)).isPointer isParameter)) := by
  have hnative : spec.nativeSpelling = some s := by rw [TypeSpec.nativeSpelling, hs]
  rw [← outline_decideByName, ← outline_ofSpelling spec.name ((g.aliasHop id s).getD s), decideSpec, hnative]
  dsimp only
  rw [hhandle]
  rfl

end Graph

/-! ### Pointer markers -/

/-- The category is that of a row that covers the base, and a base that no row covers is refused or
unknown. -/
theorem categoryOf_cases (base : String) (pointer : Bool) :
    (∃ row ∈ classificationTable, row.covers base pointer ∧ categoryOf base pointer = row.category) ∨
      (isRefused base ∧ categoryOf base pointer = .unsupported) ∨
      ((∀ row ∈ classificationTable, row.covers base pointer = false) ∧ isRefused base = false ∧
        categoryOf base pointer = .unknown) := by
  rw [categoryOf]
  cases hfind : classificationTable.find? (·.covers base pointer) with
  | some row =>
      have hcovers := List.find?_some hfind
      exact .inl ⟨row, List.mem_of_find?_eq_some hfind, hcovers, rfl⟩
  | none =>
      refine .inr ?_
      rw [List.find?_eq_none] at hfind
      by_cases hrefused : isRefused base
      · exact .inl ⟨hrefused, if_pos hrefused⟩
      · refine .inr ⟨fun row hrow => ?_, ?_, if_neg hrefused⟩
        · exact Bool.eq_false_iff.mpr (hfind row hrow)
        · exact Bool.eq_false_iff.mpr hrefused

/-- A row covers only the bases that it lists. -/
theorem ClassificationRow.mem_bases {row : ClassificationRow} {base : String} {pointer : Bool}
    (h : row.covers base pointer) : base ∈ row.bases := by
  rw [covers, Bool.and_eq_true] at h
  exact List.contains_iff_mem.mp h.1

/-- A row that asks for a marker, or for none, covers only bases with that marker. -/
theorem ClassificationRow.pointer_eq {row : ClassificationRow} {base : String} {pointer marked : Bool}
    (h : row.covers base pointer) (hmarked : row.pointer = some marked) : pointer = marked := by
  rw [covers, hmarked, Bool.and_eq_true] at h
  have hsame : marked = pointer := by simpa using h.2
  exact hsame.symm

theorem categoryOf_ne_countedHandle (base : String) (pointer : Bool) :
    categoryOf base pointer ≠ .countedHandle := by
  have hrows : ∀ row ∈ classificationTable, row.category ≠ .countedHandle := by decide
  obtain ⟨row, hrow, -, h⟩ | ⟨-, h⟩ | ⟨-, -, h⟩ := categoryOf_cases base pointer
  · rw [h]
    exact hrows row hrow
  · simp [h]
  · simp [h]

/-- A base that is unknown with a pointer marker is unknown without one: whatever is known without a
marker only has another row that asks for one. -/
theorem categoryOf_eq_unknown {base : String} (h : categoryOf base true = .unknown) (pointer : Bool) :
    categoryOf base pointer = .unknown := by
  have hrows : ∀ row ∈ classificationTable, row.category ≠ .unknown := by decide
  have hother : ∀ row ∈ classificationTable, ∀ b ∈ row.bases, ∃ other ∈ classificationTable,
      other.covers b true := by decide
  obtain ⟨row, hrow, -, hcategory⟩ | ⟨-, hcategory⟩ | ⟨hnone, hknown, -⟩ := categoryOf_cases base true
  · exact absurd (hcategory.symm.trans h) (hrows row hrow)
  · simp [hcategory] at h
  · obtain ⟨row, hrow, hcovers, -⟩ | ⟨hrefused, -⟩ | ⟨-, -, hcategory⟩ := categoryOf_cases base pointer
    · obtain ⟨other, hmem, hcovered⟩ := hother row hrow base (ClassificationRow.mem_bases hcovers)
      simp [hnone other hmem] at hcovered
    · simp [hknown] at hrefused
    · exact hcategory

theorem category_classify (s : Spelling) : (classify s).category = categoryOf s.base s.isPointer := by
  rw [classify]

theorem isPointer_classify (s : Spelling) : (classify s).isPointer = s.isPointer := by
  rw [classify]

theorem isPrimitive_classify (s : Spelling) :
    (classify s).isPrimitive = (classify s).category.isPrimitive := by
  rw [classify]

theorem category_of_addPointers {s : Spelling} {k : Nat}
    (h : (classify (s.addPointers k)).category = .unknown) : (classify s).category = .unknown := by
  rw [category_classify, s.base_addPointers, s.isPointer_addPointers] at h
  rw [category_classify]
  cases hpointer : s.isPointer || decide (0 < k) with
  | true =>
      rw [hpointer] at h
      exact categoryOf_eq_unknown h s.isPointer
  | false =>
      rw [hpointer] at h
      rw [Bool.or_eq_false_iff] at hpointer
      rw [hpointer.1]
      exact h

/-- Pointer markers that leave the category as it is only make a pointer. -/
theorem classify_addPointers {s : Spelling} {k : Nat}
    (h : (classify (s.addPointers k)).category = (classify s).category) :
    classify (s.addPointers k) = (classify s).orPointer (decide (0 < k)) := by
  have hext : ∀ c c' : Classification, c.category = c'.category → c.isPointer = c'.isPointer →
      c.isPrimitive = c'.isPrimitive → c = c' := by
    rintro ⟨_, _, _⟩ ⟨_, _, _⟩ rfl rfl rfl
    rfl
  apply hext
  · rw [h, Classification.orPointer]
  · rw [Classification.orPointer, isPointer_classify, isPointer_classify, s.isPointer_addPointers]
  · rw [Classification.orPointer, isPrimitive_classify, isPrimitive_classify, h]

/-- Where a spelling is known, the name does not matter. -/
theorem outline_of_known {s : Spelling} (h : (classify s).category ≠ .unknown) (isParameter : Bool)
    (byName byName' : Option Outline) :
    (classify s).outline isParameter byName = (classify s).outline isParameter byName' := by
  have hcounted : (classify s).category ≠ .countedHandle := by
    rw [category_classify]
    exact categoryOf_ne_countedHandle _ _
  generalize classify s = c at h hcounted ⊢
  obtain ⟨category, isPointer, isPrimitive⟩ := c
  cases category with
  | unknown => exact absurd rfl h
  | countedHandle => exact absurd rfl hcounted
  | _ => rfl

/-- Spellings that always stand for a handle are classified as handles. -/
theorem classify_of_isAlwaysHandle {s : Spelling} (h : s.isAlwaysHandle) :
    classify s = ⟨.handle, false, false⟩ := by
  have hall : ∀ text ∈ Spelling.handleSpellings, classify ⟨text⟩ = ⟨.handle, false, false⟩ := by
    decide +kernel
  rw [Spelling.isAlwaysHandle, List.contains_iff_mem] at h
  obtain ⟨text⟩ := s
  exact hall text h

/-! ### One hop -/

/-- Pointer markers behind an alias spelling without markers are carried over by a hop. -/
theorem AliasTable.hop_addPointers {table : AliasTable} {s : Spelling} (hs : s.IsNormal)
    (hdepth : s.pointerDepth = 0) {k : Nat} (hk : k ≠ 0) (hfresh : table.find? (s.addPointers k) = none) :
    table.hop (s.addPointers k) = (table.hop s).map (·.addPointers k) := by
  have hbase : Spelling.ofString (s.addPointers k).base = s := by
    rw [s.base_addPointers, hs.base_eq_text hdepth, hs.ofString_text]
  have hpointers : (s.addPointers k).pointerDepth = k := by
    rw [s.pointerDepth_addPointers, hdepth, Nat.zero_add]
  have hplain : table.hop s = table.find? s := by
    unfold hop
    cases table.find? s with
    | some target => rfl
    | none => exact if_pos hdepth
  rw [hplain, hop, hfresh, hpointers, hbase]
  exact if_neg hk

namespace Graph

variable {g : Graph}

/-- A spelling is an alias in one of the tables that a repository sees. -/
def IsAliasSpelling (g : Graph) (id : RepositoryId) (s : Spelling) : Prop :=
  ∃ other ∈ g.reachable id, ((g.repository? other).bind (·.aliasTable.find? s)).isSome

instance (id : RepositoryId) (s : Spelling) : Decidable (g.IsAliasSpelling id s) :=
  inferInstanceAs (Decidable (∃ _ ∈ _, _))

theorem aliasHop_addPointers {id : RepositoryId} {s : Spelling} (hs : s.IsNormal)
    (hdepth : s.pointerDepth = 0) {k : Nat} (hk : k ≠ 0)
    (hfresh : ¬g.IsAliasSpelling id (s.addPointers k)) :
    g.aliasHop id (s.addPointers k) = (g.aliasHop id s).map (·.addPointers k) := by
  rw [aliasHop, aliasHop, List.map_findSome?]
  refine findSome?_congr fun other hother => ?_
  rw [Function.comp_apply, Option.map_bind]
  cases hr : g.repository? other with
  | none => rfl
  | some r =>
      refine AliasTable.hop_addPointers hs hdepth hk ?_
      rw [← Option.not_isSome_iff_eq_none]
      intro hsome
      refine hfresh ⟨other, hother, ?_⟩
      rw [hr]
      exact hsome

/-- A name leads to an alias that stands for a spelling. -/
structure NamesAlias (g : Graph) (id : RepositoryId) (name : String) (address : SymbolRef) (found : Alias)
    (target : Spelling) : Prop where
  lookup : g.lookupSymbol id name = .ok address
  declared : g.alias? address = some found
  ctype : found.target.spec.ctype = some target

namespace NamesAlias

variable {id : RepositoryId} {name : String} {address : SymbolRef} {found : Alias} {target : Spelling}
  (h : g.NamesAlias id name address found target)

include h

theorem nativeSpelling : found.target.spec.nativeSpelling = some target := by
  rw [TypeSpec.nativeSpelling, h.ctype]

/-- An alias of a known spelling ends the search for the name. -/
theorem nameTarget?_of_known (hknown : (classify target).category ≠ .unknown) (ctype : Option Spelling) :
    g.nameTarget? id ⟨some name, ctype⟩ = some (.native found.target.spec) := by
  have hnext : nextName? found.target.spec = none := by
    rw [nextName?, h.nativeSpelling, Option.any_some, if_pos (bne_iff_ne.mpr hknown)]
  have hresolve : g.resolveName id name = .ok (.native found.target.spec) :=
    resolveName_eq_ok.mpr ⟨address, h.lookup, 0, .native h.declared hnext⟩
  rw [nameTarget?, Option.bind_some, hresolve]
  rfl

/-- An alias of an unknown spelling is followed by its name, from the repository that declares it. -/
theorem outline_byName (hunknown : (classify target).category = .unknown) (ctype ctype' : Option Spelling)
    (isPointer isParameter : Bool) :
    (g.nameTarget? id ⟨some name, ctype⟩).bind (·.outline isPointer isParameter) =
      (g.nameTarget? address.repository ⟨found.target.spec.name, ctype'⟩).bind
        (·.outline isPointer isParameter) := by
  have hnext : nextName? found.target.spec = found.target.spec.name := by
    rw [nextName?, h.nativeSpelling, if_neg]
    simp [hunknown]
  have hstart : ∀ result, g.resolveName id name = .ok result ↔ g.Leads address result := by
    intro result
    rw [resolveName_eq_ok]
    constructor
    · rintro ⟨start, hstart, hleads⟩
      rw [h.lookup] at hstart
      cases hstart
      exact hleads
    · intro hleads
      exact ⟨address, h.lookup, hleads⟩
  rw [nameTarget?, Option.bind_some, nameTarget?]
  dsimp only
  cases hname : found.target.spec.name with
  | none =>
      rw [hname] at hnext
      rw [(hstart _).mpr ⟨0, .native h.declared hnext⟩]
      have hmarked : ((classify target).orPointer isPointer).category = .unknown := by
        rw [Classification.orPointer, hunknown]
      simp only [Except.toOption, Option.bind_some, Option.bind_none, NameTarget.outline,
        h.nativeSpelling]
      exact Classification.outline_of_unknown hmarked isParameter none
  | some next =>
      rw [hname] at hnext
      rw [Option.bind_some, toOption_eq_of_iff fun result => ?_]
      rw [hstart, leads_iff_of_nextName? h.declared hnext, ← resolveName_eq_ok]

end NamesAlias

/-- The outline of a type by a spelling that is taken as it stands, and by the name where the spelling is
unknown. -/
def spelledOutline (g : Graph) (id : RepositoryId) (spec : TypeSpec) (s : Spelling) (isParameter : Bool) :
    Option Outline :=
  (classify s).outline isParameter
    ((g.nameTarget? id spec).bind (·.outline (classify s).isPointer isParameter))

theorem spelledOutline_of_unknown {id : RepositoryId} {spec : TypeSpec} {s : Spelling}
    (h : (classify s).category = .unknown) (isParameter : Bool) :
    g.spelledOutline id spec s isParameter =
      (g.nameTarget? id spec).bind (·.outline (classify s).isPointer isParameter) :=
  Classification.outline_of_unknown h _ _

/-! ### Unfolding -/

/-- A typedef: a name leads to an alias, and a hop from the spelling of the alias to its target. -/
structure Typedef (g : Graph) (id : RepositoryId) (name : String) (address : SymbolRef) (found : Alias)
    (target : Spelling) : Prop extends g.NamesAlias id name address found target where
  hop : g.aliasHop id found.ctype = some target

/-- How pointer markers behind the spelling of an alias get behind its target. -/
inductive Carries (g : Graph) (id : RepositoryId) (s target : Spelling) : Nat → Prop
  /-- There are none. -/
  | nothing : Carries g id s target 0
  /-- The hop carries them over, for a spelling without markers of its own. -/
  | byHop {k : Nat} (hdepth : s.pointerDepth = 0) (hfresh : ¬g.IsAliasSpelling id (s.addPointers k)) :
    Carries g id s target k
  /-- With markers of its own, a spelling may be found by no hop; then the name tells of a pointer. -/
  | byName {k : Nat} (hk : k ≠ 0) (hhop : g.aliasHop id (s.addPointers k) = none)
    (hunknown : (classify (s.addPointers k)).category = .unknown)
    (hcategory : (classify (target.addPointers k)).category = (classify target).category) :
    Carries g id s target k

/-- The name and the spelling of a type lead on to the same alias. The spelling itself is not known, and
its pointer markers neither change the category of what the alias stands for nor get lost behind it. -/
structure InStep (g : Graph) (id : RepositoryId) (name : String) (s : Spelling) (address : SymbolRef)
    (found : Alias) (target : Spelling) : Prop extends g.NamesAlias id name address found target where
  unknown : (classify s).category = .unknown
  hop : g.aliasHop id s = some (target.addPointers s.pointerDepth)
  category : (classify (target.addPointers s.pointerDepth)).category = (classify target).category
  pointer : (classify target).category = .unknown → s.isPointer = false → target.isPointer = true →
    ∃ symbol, g.resolveName id name = .ok (.symbol symbol)

/-- A hop does not mislead: it leaves the spelling of a type or its known classification as it is, or it
goes in step with the name. -/
inductive Settles (g : Graph) (id : RepositoryId) (spec : TypeSpec) (s : Spelling) : Prop
  | expanded (h : g.aliasHop id s = none)
  | alike {target : Spelling} (hhop : g.aliasHop id s = some target)
    (hknown : (classify s).category ≠ .unknown) (hsame : classify target = classify s)
  | inStep {name : String} {address : SymbolRef} {found : Alias} {target : Spelling}
    (hname : spec.name = some name) (h : g.InStep id name s address found target)

/-- A type of a repository that is a typedef, with pointer markers behind its spelling, stands for the
target of the alias with the same markers, in the repository that declares the alias. -/
inductive Unfolds (g : Graph) : RepositoryId × TypeSpec → RepositoryId × TypeSpec → Prop
  | typedef {id : RepositoryId} {name : String} {address : SymbolRef} {found : Alias} {target : Spelling}
    {k : Nat} (h : g.Typedef id name address found target)
    (hcarries : g.Carries id found.ctype target k)
    (hhandle : (found.ctype.addPointers k).isAlwaysHandle = false)
    (hsettles : g.Settles address.repository found.target.spec (target.addPointers k)) :
    Unfolds g (id, ⟨some name, some (found.ctype.addPointers k)⟩)
      (address.repository, ⟨found.target.spec.name, some (target.addPointers k)⟩)

theorem Unfolds.of_eq {id : RepositoryId} {name : String} {address : SymbolRef} {found : Alias}
    {s s' target : Spelling} {k : Nat} (h : g.Typedef id name address found target)
    (hcarries : g.Carries id found.ctype target k) (hs : found.ctype.addPointers k = s)
    (hs' : target.addPointers k = s') (hhandle : s.isAlwaysHandle = false)
    (hsettles : g.Settles address.repository found.target.spec s') :
    g.Unfolds (id, ⟨some name, some s⟩) (address.repository, ⟨found.target.spec.name, some s'⟩) := by
  subst hs hs'
  exact .typedef h hcarries hhandle hsettles

/-- Every alias comes from a description, which names its target. -/
theorem exists_described_of_alias? (hg : Obtained g) {address : SymbolRef} {found : Alias}
    (h : g.alias? address = some found) : ∃ name ctype target targetCtype,
      found = ⟨.pascal name, .ofString ctype,
        .scalar ⟨some target, Option.map .ofString targetCtype⟩ .aliasTarget⟩ := by
  rw [alias?] at h
  split at h
  · obtain ⟨r, hr, hfound⟩ := Option.bind_eq_some_iff.mp h
    obtain ⟨key, d, hcontent⟩ := hg.exists_content hr
    obtain ⟨described, -, hdescribed⟩ := exists_mem_left
      (mapM_eq_ok.mp (Namespace.aliases_ofDescription hcontent)) (List.mem_of_getElem? hfound)
    obtain ⟨name, -, hdescribed⟩ := bind_eq_ok.mp hdescribed
    obtain ⟨ctype, -, hdescribed⟩ := bind_eq_ok.mp hdescribed
    dsimp only at hdescribed
    split at hdescribed
    on_goal 2 => cases hdescribed
    obtain ⟨⟨target?, targetCtype⟩, -, hdescribed⟩ := bind_eq_ok.mp hdescribed
    obtain ⟨target, hrequired, hdescribed⟩ := bind_eq_ok.mp hdescribed
    cases hdescribed
    cases target? with
    | none => cases hrequired
    | some target => exact ⟨name, ctype, target, targetCtype, rfl⟩
  · cases h

/-- The spellings of aliases are kept in normal form. -/
theorem isNormal_of_alias? (hg : Obtained g) {address : SymbolRef} {found : Alias}
    (h : g.alias? address = some found) :
    found.ctype.IsNormal ∧ ∀ target, found.target.spec.ctype = some target → target.IsNormal := by
  obtain ⟨name, ctype, target, targetCtype, rfl⟩ := exists_described_of_alias? hg h
  refine ⟨Spelling.isNormal_ofString ctype, fun target htarget => ?_⟩
  obtain ⟨text, -, rfl⟩ := Option.map_eq_some_iff.mp htarget
  exact Spelling.isNormal_ofString text

section Step

variable {id : RepositoryId} {name : String} {address : SymbolRef} {found : Alias} {target : Spelling}

/-- A typedef decides like what it stands for, its spelling taken as it stands. -/
theorem Typedef.outline_decideSpec (hg : Obtained g) (h : g.Typedef id name address found target) {k : Nat}
    (hcarries : g.Carries id found.ctype target k)
    (hhandle : (found.ctype.addPointers k).isAlwaysHandle = false) (isParameter : Bool) :
    outline (g.decideSpec id ⟨some name, some (found.ctype.addPointers k)⟩ isParameter) =
      g.spelledOutline address.repository found.target.spec (target.addPointers k) isParameter := by
  obtain ⟨hnormal, htarget⟩ := isNormal_of_alias? hg h.declared
  have htarget := htarget target h.ctype
  -- After a hop, only the name may still be that of the typedef.
  have hhopped : g.aliasHop id (found.ctype.addPointers k) = some (target.addPointers k) →
      outline (g.decideSpec id ⟨some name, some (found.ctype.addPointers k)⟩ isParameter) =
        g.spelledOutline address.repository found.target.spec (target.addPointers k) isParameter := by
    intro hhop
    rw [Graph.outline_decideSpec rfl hhandle, hhop, Option.getD_some, ← spelledOutline]
    by_cases hcategory : (classify (target.addPointers k)).category = .unknown
    · rw [spelledOutline_of_unknown hcategory, spelledOutline_of_unknown hcategory]
      exact h.outline_byName (category_of_addPointers hcategory) _ _ _ _
    · exact outline_of_known hcategory _ _ _
  cases hcarries with
  | nothing =>
      apply hhopped
      rw [hnormal.addPointers_zero, htarget.addPointers_zero, h.hop]
  | byHop hdepth hfresh =>
      apply hhopped
      by_cases hk : k = 0
      · rw [hk, hnormal.addPointers_zero, htarget.addPointers_zero, h.hop]
      · rw [aliasHop_addPointers hnormal hdepth hk hfresh, h.hop, Option.map_some]
  | byName hk hhop hunknown hcategory =>
      have hpointer : ∀ s : Spelling, (classify (s.addPointers k)).isPointer = true := by
        intro s
        rw [isPointer_classify, s.isPointer_addPointers, decide_eq_true (Nat.pos_of_ne_zero hk),
          Bool.or_true]
      rw [Graph.outline_decideSpec rfl hhandle, hhop, Option.getD_none, ← spelledOutline,
        spelledOutline_of_unknown hunknown, hpointer]
      by_cases hknown : (classify target).category = .unknown
      · rw [spelledOutline_of_unknown (hcategory.trans hknown), hpointer]
        exact h.outline_byName hknown _ _ _ _
      · have hmarked : classify (target.addPointers k) = (classify target).orPointer true := by
          rw [classify_addPointers hcategory, decide_eq_true (Nat.pos_of_ne_zero hk)]
        rw [h.nameTarget?_of_known hknown, Option.bind_some, NameTarget.outline, h.nativeSpelling,
          Option.bind_some, ← hmarked]
        rw [← hcategory] at hknown
        exact outline_of_known hknown _ _ _

/-- What a name leads to behind the markers of a spelling in step with it. -/
theorem InStep.spelledOutline_eq {s : Spelling} (h : g.InStep id name s address found target)
    (ctype : Option Spelling) (isParameter : Bool) :
    g.spelledOutline id ⟨some name, ctype⟩ (target.addPointers s.pointerDepth) isParameter =
      g.spelledOutline id ⟨some name, ctype⟩ s isParameter := by
  have hpointer : (classify (target.addPointers s.pointerDepth)).isPointer =
      (target.isPointer || s.isPointer) := by
    rw [isPointer_classify, target.isPointer_addPointers, ← Spelling.isPointer]
  rw [spelledOutline_of_unknown h.unknown]
  by_cases hknown : (classify target).category = .unknown
  · rw [spelledOutline_of_unknown (h.category.trans hknown), hpointer, isPointer_classify]
    by_cases hlost : s.isPointer = false ∧ target.isPointer = true
    · obtain ⟨symbol, hsymbol⟩ := h.pointer hknown hlost.1 hlost.2
      rw [nameTarget?, Option.bind_some, hsymbol]
      simp only [Except.toOption, Option.bind_some, NameTarget.outline]
    · have hsame : (target.isPointer || s.isPointer) = s.isPointer := by
        cases hs : s.isPointer with
        | true => exact Bool.or_true _
        | false =>
            rw [Bool.or_false]
            exact Bool.eq_false_iff.mpr fun htarget => hlost ⟨hs, htarget⟩
      rw [hsame]
  · rw [h.nameTarget?_of_known hknown, Option.bind_some, NameTarget.outline, h.nativeSpelling,
      Option.bind_some, isPointer_classify, Spelling.isPointer, ← classify_addPointers h.category]
    rw [← h.category] at hknown
    exact outline_of_known hknown _ _ _

/-- What a typedef stands for decides by its spelling as it stands, if no hop misleads. -/
theorem Settles.outline_decideSpec {spec : TypeSpec} {s : Spelling} (h : g.Settles id spec s)
    (isParameter : Bool) :
    outline (g.decideSpec id ⟨spec.name, some s⟩ isParameter) = g.spelledOutline id spec s isParameter := by
  cases hhandle : s.isAlwaysHandle with
  | true =>
      have hdecided : g.decideSpec id ⟨spec.name, some s⟩ isParameter =
          .ok (DecidedType.handle.withPointer s.isPointer) := if_pos hhandle
      rw [hdecided, spelledOutline, classify_of_isAlwaysHandle hhandle]
      rfl
  | false =>
      rw [Graph.outline_decideSpec rfl hhandle]
      cases h with
      | expanded hhop => rw [hhop, Option.getD_none, spelledOutline, nameTarget?, nameTarget?]
      | alike hhop hknown hsame =>
          rw [hhop, Option.getD_some, hsame]
          exact outline_of_known hknown _ _ _
      | @inStep name _ _ _ hname hstep =>
          obtain ⟨_, ctype⟩ := spec
          cases hname
          rw [hstep.hop, Option.getD_some]
          exact hstep.spelledOutline_eq ctype isParameter

end Step

theorem decide_scalar (id : RepositoryId) (spec : TypeSpec) (context : TypeContext) :
    g.decide id (.scalar spec context) = g.decideSpec id spec (context == .parameter) := by
  rw [decide, TypeReference.scalar]

/-- A type decides like what it unfolds to, wherever it is referred to. -/
theorem Unfolds.outline_decide (hg : Obtained g) {start next : RepositoryId × TypeSpec}
    (h : g.Unfolds start next) (context : TypeContext) :
    outline (g.decide start.1 (.scalar start.2 context)) =
      outline (g.decide next.1 (.scalar next.2 context)) := by
  cases h with
  | typedef h hcarries hhandle hsettles =>
      rw [decide_scalar, decide_scalar, h.outline_decideSpec hg hcarries hhandle,
        hsettles.outline_decideSpec]

end Graph

/-- A chain of typedefs decides like the type that it unfolds to: both fail, or both succeed with the same
representation, passed by reference or not alike. -/
theorem outline_decide_of_unfolds {g : Graph} (hg : Obtained g) {start finish : RepositoryId × TypeSpec}
    (h : ReflTransGen g.Unfolds start finish) (context : TypeContext) :
    outline (g.decide start.1 (.scalar start.2 context)) =
      outline (g.decide finish.1 (.scalar finish.2 context)) := by
  induction h with
  | refl => rfl
  | tail _ hstep ih => rw [ih, hstep.outline_decide hg]

namespace Sample

/-- An alias: its name and spelling, and those of its target. -/
abbrev AliasRow := String × String × String × String

def described : AliasRow → Description.Alias
  | (name, ctype, target, targetCtype) => {
    name := some name
    ctype := some ctype
    target := some { name := some target, ctype := some targetCtype } }

/-- What is built from the description. -/
def built : AliasRow → Alias
  | (name, ctype, target, targetCtype) =>
    ⟨.pascal name, .ofString ctype, .scalar ⟨some target, some (.ofString targetCtype)⟩ .aliasTarget⟩

/-- A scalar type with a name and a spelling. -/
def named (name ctype : String) : TypeSpec := ⟨some name, some (.ofString ctype)⟩

/-- Typedefs on the way to `GLib`, one of them of a pointer. -/
def processAliases : List AliasRow :=
  [("Process", "GProcess", "GLib.Pid", "GPid*"), ("Child", "GChild", "Process", "GProcess")]

def spawn : Graph :=
  ({} : Graph).after
    [.register glib, .register (description "Spawn" ["GLib"] (processAliases.map described)), .link]

def processRepository : Repository where
  content := { key := ⟨"Spawn", "2.0"⟩, aliases := processAliases.map built }
  includes := [⟨⟨"GLib", "2.0"⟩, "Spawn-2.0", some ⟨0⟩⟩]

theorem spawn_eq : spawn = {
    repositories := [glibRepository, processRepository]
    positions := [(⟨"Spawn", "2.0"⟩, ⟨1⟩), (⟨"GLib", "2.0"⟩, ⟨0⟩)]
    edges := [(⟨0⟩, ⟨1⟩)]
    buildOrder := [⟨0⟩, ⟨1⟩] } := by
  cbv

theorem namesAlias_child : spawn.NamesAlias ⟨1⟩ "Child" ⟨⟨1⟩, .alias, 1⟩
    (built ("Child", "GChild", "Process", "GProcess")) (.ofString "GProcess") := by
  rw [spawn_eq]
  exact ⟨by decide +kernel, rfl, rfl⟩

theorem namesAlias_process : spawn.NamesAlias ⟨1⟩ "Process" ⟨⟨1⟩, .alias, 0⟩
    (built ("Process", "GProcess", "GLib.Pid", "GPid*")) (.ofString "GPid*") := by
  rw [spawn_eq]
  exact ⟨by decide +kernel, rfl, rfl⟩

theorem namesAlias_pid : spawn.NamesAlias ⟨1⟩ "GLib.Pid" ⟨⟨0⟩, .alias, 0⟩
    (built ("Pid", "GPid", "gint", "gint")) (.ofString "gint") := by
  rw [spawn_eq]
  exact ⟨by decide +kernel, rfl, rfl⟩

theorem unfolds_child :
    spawn.Unfolds (⟨1⟩, named "Child" "GChild*") (⟨1⟩, named "Process" "GProcess*") := by
  have hhop : spawn.aliasHop ⟨1⟩ (.ofString "GChild") = some (.ofString "GProcess") := by
    rw [spawn_eq]
    decide +kernel
  have hcarries : spawn.Carries ⟨1⟩ (.ofString "GChild") (.ofString "GProcess") 1 := by
    rw [spawn_eq]
    exact .byHop (by decide +kernel) (by decide +kernel)
  have hstep : spawn.InStep ⟨1⟩ "Process" (.ofString "GProcess*") ⟨⟨1⟩, .alias, 0⟩
      (built ("Process", "GProcess", "GLib.Pid", "GPid*")) (.ofString "GPid*") := {
    namesAlias_process with
    unknown := by decide +kernel
    hop := by
      rw [spawn_eq]
      decide +kernel
    category := by decide +kernel
    pointer := fun _ hpointer => absurd hpointer (by decide +kernel) }
  exact .of_eq ⟨namesAlias_child, hhop⟩ hcarries (by decide +kernel) (by decide +kernel)
    (by decide +kernel) (.inStep rfl hstep)

theorem unfolds_process :
    spawn.Unfolds (⟨1⟩, named "Process" "GProcess*") (⟨1⟩, named "GLib.Pid" "GPid**") := by
  have hhop : spawn.aliasHop ⟨1⟩ (.ofString "GProcess") = some (.ofString "GPid*") := by
    rw [spawn_eq]
    decide +kernel
  have hcarries : spawn.Carries ⟨1⟩ (.ofString "GProcess") (.ofString "GPid*") 1 := by
    rw [spawn_eq]
    exact .byHop (by decide +kernel) (by decide +kernel)
  have hstep : spawn.InStep ⟨1⟩ "GLib.Pid" (.ofString "GPid**") ⟨⟨0⟩, .alias, 0⟩
      (built ("Pid", "GPid", "gint", "gint")) (.ofString "gint") := {
    namesAlias_pid with
    unknown := by decide +kernel
    hop := by
      rw [spawn_eq]
      decide +kernel
    category := by decide +kernel
    pointer := fun _ hpointer => absurd hpointer (by decide +kernel) }
  exact .of_eq ⟨namesAlias_process, hhop⟩ hcarries (by decide +kernel) (by decide +kernel)
    (by decide +kernel) (.inStep rfl hstep)

theorem unfolds_pid : spawn.Unfolds (⟨1⟩, named "GLib.Pid" "GPid**") (⟨0⟩, named "gint" "gint**") := by
  have hhop : spawn.aliasHop ⟨1⟩ (.ofString "GPid") = some (.ofString "gint") := by
    rw [spawn_eq]
    decide +kernel
  have hcarries : spawn.Carries ⟨1⟩ (.ofString "GPid") (.ofString "gint") 2 := by
    rw [spawn_eq]
    exact .byHop (by decide +kernel) (by decide +kernel)
  have hexpanded : spawn.aliasHop ⟨0⟩ (.ofString "gint**") = none := by
    rw [spawn_eq]
    decide +kernel
  exact .of_eq ⟨namesAlias_pid, hhop⟩ hcarries (by decide +kernel) (by decide +kernel)
    (by decide +kernel) (.expanded hexpanded)

end Sample

/-- Two typedefs and a third one within a pointer: all pointer markers get to the end. -/
theorem outline_decide_of_unfolds_spawn :
    Obtained Sample.spawn ∧ ReflTransGen Sample.spawn.Unfolds
      (⟨1⟩, Sample.named "Child" "GChild*") (⟨0⟩, Sample.named "gint" "gint**") ∧
    outline (Sample.spawn.decide ⟨1⟩ (.scalar (Sample.named "Child" "GChild*") .field)) =
      outline (Sample.spawn.decide ⟨0⟩ (.scalar (Sample.named "gint" "gint**") .field)) := by
  have hspawn : Obtained Sample.spawn := Obtained.empty.after _
  have hunfolds := ((ReflTransGen.single Sample.unfolds_child).tail Sample.unfolds_process).tail Sample.unfolds_pid
  exact ⟨hspawn, hunfolds, outline_decide_of_unfolds hspawn hunfolds .field⟩

/-! ### Where typedefs are not transparent -/

namespace Graph

/-- A type that a typedef of a repository stands for decides differently. -/
def Misleads (g : Graph) (id : RepositoryId) (name : String) (address : SymbolRef) (found : Alias)
    (target : Spelling) (k : Nat) : Prop :=
  g.Typedef id name address found target ∧
    (k ≠ 0 → ¬g.IsAliasSpelling id (found.ctype.addPointers k)) ∧
    ∃ context, outline (g.decide id (.scalar ⟨some name, some (found.ctype.addPointers k)⟩ context)) ≠
      outline (g.decide address.repository
        (.scalar ⟨found.target.spec.name, some (target.addPointers k)⟩ context))

end Graph

namespace Sample

/-- Typedefs of a spelling that always is a handle, of a pointer, of a spelling that is known and an
alias, with a name and a spelling that lead apart, of nothing, and of a typedef of a pointer. -/
def dialectAliases : List AliasRow :=
  [("Type", "GType", "gsize", "gsize"), ("Real", "GItem", "gfloat", "gfloat"),
    ("Item", "GItem*", "gint", "gint"), ("Byte", "guint8", "gdouble", "gdouble"),
    ("Octet", "GOctet", "guint8", "guint8"), ("Mixed", "GMixed", "Octet", "GItem"),
    ("Void", "GVoid", "none", "void"), ("Nothing", "GNothing", "Void", "GVoid"),
    ("Number", "GNumber", "gint", "gint"), ("Address", "GAddress", "Number", "GNumber*"),
    ("Place", "GPlace", "Address", "GAddress")]

def misleading : Graph :=
  ({} : Graph).after [.register (description "Dialect" [] (dialectAliases.map described)), .link]

def dialectRepository : Repository where
  content := { key := ⟨"Dialect", "2.0"⟩, aliases := dialectAliases.map built }
  includes := []

theorem misleading_eq : misleading = {
    repositories := [dialectRepository]
    positions := [(⟨"Dialect", "2.0"⟩, ⟨0⟩)]
    edges := []
    buildOrder := [⟨0⟩] } := by
  cbv

end Sample

open Sample in
/-- Typedefs that are not transparent, one for each condition of `Unfolds`: the spelling of the first
always is a handle; the marker of the second gives way to another alias; the target of the third is known
and an alias; the name and the spelling of the fourth lead apart; a pointer to what the fifth stands for is
no pointer to nothing; and behind the last, the marker of a typedef on the way gets lost. -/
theorem misleads_dialect :
    Obtained misleading ∧ ⟨0⟩ ∈ misleading.buildOrder ∧
    misleading.Misleads ⟨0⟩ "Type" ⟨⟨0⟩, .alias, 0⟩ (built ("Type", "GType", "gsize", "gsize"))
      (.ofString "gsize") 0 ∧
    misleading.Misleads ⟨0⟩ "Item" ⟨⟨0⟩, .alias, 2⟩ (built ("Item", "GItem*", "gint", "gint"))
      (.ofString "gint") 1 ∧
    misleading.Misleads ⟨0⟩ "Octet" ⟨⟨0⟩, .alias, 4⟩ (built ("Octet", "GOctet", "guint8", "guint8"))
      (.ofString "guint8") 0 ∧
    misleading.Misleads ⟨0⟩ "Mixed" ⟨⟨0⟩, .alias, 5⟩ (built ("Mixed", "GMixed", "Octet", "GItem"))
      (.ofString "GItem") 0 ∧
    misleading.Misleads ⟨0⟩ "Nothing" ⟨⟨0⟩, .alias, 7⟩ (built ("Nothing", "GNothing", "Void", "GVoid"))
      (.ofString "GVoid") 1 ∧
    misleading.Misleads ⟨0⟩ "Place" ⟨⟨0⟩, .alias, 10⟩ (built ("Place", "GPlace", "Address", "GAddress"))
      (.ofString "GAddress") 0 := by
  refine ⟨Obtained.empty.after _, ?_⟩
  rw [misleading_eq]
  refine ⟨by decide, ?_, ?_, ?_, ?_, ?_, ?_⟩ <;>
    exact ⟨⟨⟨by decide +kernel, rfl, rfl⟩, by decide +kernel⟩, by decide +kernel, .field,
      by decide +kernel⟩

end Interop
