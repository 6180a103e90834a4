import Interop.Proofs.DecisionFaults

/-! Types of refused libraries. The prefix is looked for where the base of a spelling starts, so that a type with
its name in front is refused, whatever stands behind the name. With a qualifier before the name the spelling is
not known, and the type is left to its name like any other. Main statement: `refused_iff_unqualified`. -/

namespace Interop

open Text

/-! ### Words of a base -/

namespace Spelling

variable {s : Spelling}

/-- A base starts with the first of its words. -/
theorem prefix_base {w : List Char} {rest : List (List Char)} (h : s.baseWords = w :: rest) :
    w <+: s.base.toList := by
  rw [toList_base, h]
  cases rest with
  | nil => rw [List.intercalate_singleton]
  | cons next rest =>
      rw [List.intercalate_cons_cons, List.append_assoc]
      exact List.prefix_append ..

end Spelling

/-! ### Refused names -/

theorem isRefused_iff {base : String} :
    isRefused base ↔ ∃ library ∈ refusedLibraries, library.toList <+: base.toList := by
  simp only [isRefused, List.any_eq_true, List.isPrefixOf_iff_prefix]

/-- What starts with a refused name is refused. -/
theorem isRefused_of_prefix {name base : String} (hname : isRefused name) (h : name.toList <+: base.toList) :
    isRefused base := by
  obtain ⟨library, hlibrary, hprefix⟩ := isRefused_iff.mp hname
  exact isRefused_iff.mpr ⟨library, hlibrary, hprefix.trans h⟩

theorem isRefused_of_const {base : String} (h : "const".toList <+: base.toList) : isRefused base = false := by
  have hlibraries : ∀ library ∈ refusedLibraries, ¬library.toList <+: "const".toList ∧
      ¬"const".toList <+: library.toList := by decide
  refine Bool.eq_false_iff.mpr fun hrefused => ?_
  obtain ⟨library, hlibrary, hprefix⟩ := isRefused_iff.mp hrefused
  obtain ⟨hshort, hlong⟩ := hlibraries library hlibrary
  exact (List.prefix_or_prefix_of_prefix hprefix h).elim hshort hlong

namespace Spelling

variable {s : Spelling} {name : String}

/-- The table has no row with a word that is refused. -/
theorem categoryOf_of_mem_baseWords (hmem : name.toList ∈ s.baseWords) (hname : isRefused name) (pointer : Bool) :
    categoryOf s.base pointer = if isRefused s.base then .unsupported else .unknown := by
  have hrows : ∀ row ∈ classificationTable, ∀ base ∈ row.bases,
      ∀ w ∈ words (fun c => isBlank c || c == '*') base.toList, isRefused (String.ofList w) = false := by
    decide +kernel
  obtain ⟨row, hrow, hcovers, -⟩ | ⟨hrefused, h⟩ | ⟨-, hrefused, h⟩ := categoryOf_cases s.base pointer
  · rw [← words_base] at hmem
    have hnot := hrows row hrow s.base (ClassificationRow.mem_bases hcovers) name.toList hmem
    rw [String.ofList_toList, hname] at hnot
    cases hnot
  · rw [h, if_pos hrefused]
  · rw [h, if_neg (Bool.eq_false_iff.mp hrefused)]

theorem isAlwaysHandle_of_mem_baseWords (hmem : name.toList ∈ s.baseWords) (hname : isRefused name) :
    s.isAlwaysHandle = false := by
  have hhandles : ∀ text ∈ handleSpellings, ∀ w ∈ baseWords ⟨text⟩, isRefused (String.ofList w) = false := by
    decide +kernel
  refine Bool.eq_false_iff.mpr fun hhandle => ?_
  rw [isAlwaysHandle, List.contains_iff_mem] at hhandle
  have hnot := hhandles s.text hhandle name.toList hmem
  rw [String.ofList_toList, hname] at hnot
  cases hnot

/-- A spelling is a name with qualifiers before and behind it, and pointer markers anywhere. -/
def Qualifies (s : Spelling) (before : Nat) (name : String) (after : Nat) : Prop :=
  s.baseWords = List.replicate before "const".toList ++ name.toList :: List.replicate after "const".toList

instance (s : Spelling) (before : Nat) (name : String) (after : Nat) : Decidable (s.Qualifies before name after) :=
  inferInstanceAs (Decidable (_ = _))

variable {before after : Nat}

theorem Qualifies.mem_baseWords (h : s.Qualifies before name after) : name.toList ∈ s.baseWords := by
  rw [Qualifies] at h
  simp [h]

/-- The base is refused if no qualifier stands before the refused name. -/
theorem Qualifies.isRefused_base (h : s.Qualifies before name after) (hname : isRefused name) :
    isRefused s.base = decide (before = 0) := by
  cases before with
  | zero => exact isRefused_of_prefix hname (prefix_base h)
  | succ before => exact isRefused_of_const (prefix_base h)

theorem Qualifies.category_eq (h : s.Qualifies before name after) (hname : isRefused name) :
    (classify s).category = if before = 0 then .unsupported else .unknown := by
  rw [category_classify, categoryOf_of_mem_baseWords h.mem_baseWords hname, h.isRefused_base hname]
  simp only [decide_eq_true_eq]

end Spelling

/-! ### Types of refused libraries -/

/-- A type of a refused library that no alias table replaces is refused, exactly if no qualifier stands before
its name. With one, it is decided by the name that the reference gives beside the spelling. -/
theorem refused_iff_unqualified {g : Graph} (hg : Obtained g) {id : RepositoryId} (hid : id ∈ g.buildOrder)
    {spec : TypeSpec} {s : Spelling} (hs : spec.nativeSpelling = some s) {before after : Nat} {name : String}
    (hqualifies : s.Qualifies before name after) (hname : isRefused name) (hhop : g.aliasHop id s = none)
    (context : TypeContext) :
    (g.decide id (.scalar spec context) = .error (.unsupportedType s.text) ↔ before = 0) ∧
    (before ≠ 0 → g.decide id (.scalar spec context) =
      g.decideByName id spec s.isPointer (context == .parameter)) := by
  obtain ⟨h, hh, rfl⟩ := hg.exists_consistent
  have hclassified : h.graph.classifiedSpelling id spec = some s := by
    have hhandle := Spelling.isAlwaysHandle_of_mem_baseWords hqualifies.mem_baseWords hname
    rw [Graph.classifiedSpelling, hs, Option.map_some, hhandle, hhop]
    rfl
  have hcategory := hqualifies.category_eq hname
  rw [Graph.decide_scalar]
  constructor
  · rw [hh.decideSpec_eq_error_iff hid hg]
    constructor
    · -- any spelling that it is classified by has the text, and so the base, of this one
      intro hfails
      have hrefused : isRefused s.base := by
        generalize hfault : Fault.unsupportedType s.text = fault at hfails
        cases hfails with
        | @refused t hby hrefused =>
            obtain rfl : s = t := congrArg Spelling.mk (Fault.unsupportedType.inj hfault)
            exact hrefused
        | unnamed | missed | cycle => cases hfault
      rw [hqualifies.isRefused_base hname] at hrefused
      exact of_decide_eq_true hrefused
    · intro hbefore
      refine .refused (.own hclassified) ?_
      rw [hqualifies.isRefused_base hname]
      exact decide_eq_true hbefore
  · intro hbefore
    rw [if_neg hbefore] at hcategory
    exact Graph.decideSpec_of_leftToName (.unknown hclassified hcategory) fun _ => ⟨s, hclassified⟩

namespace Sample

/-- A refused library, and a namespace that includes it. -/
def atk : Description where
  namespaceInfo := {
    name := some "Atk", version := some "2.0", classes := [{ name := some "Object", ctype := some "AtkObject" }] }

def gail : Graph := ({} : Graph).after [.register atk, .register (description "Gail" ["Atk"] []), .link]

def atkRepository : Repository where
  content := {
    key := ⟨"Atk", "2.0"⟩
    classes := [{
      name := .pascal "Object", ctype := some (.ofString "AtkObject"), parent := none, implements := []
      callables := {}, fields := [], signals := [], layouts := {} }] }
  includes := []

def gailRepository : Repository where
  content := { key := ⟨"Gail", "2.0"⟩ }
  includes := [⟨⟨"Atk", "2.0"⟩, "Gail-2.0", some ⟨0⟩⟩]

theorem ofDescription_atk : (Repository.ofDescription atk).outcome = .ok atkRepository := by
  rfl

theorem gail_eq : gail = {
    repositories := [atkRepository, gailRepository]
    positions := [(⟨"Gail", "2.0"⟩, ⟨1⟩), (⟨"Atk", "2.0"⟩, ⟨0⟩)]
    edges := [(⟨0⟩, ⟨1⟩)]
    buildOrder := [⟨0⟩, ⟨1⟩] } := by
  rw [gail, Graph.after]
  simp only [List.foldl, GraphCall.apply, ofDescription_atk]
  cbv

end Sample

open Sample in
/-- A qualifier in front lets a type of a refused library through, or makes it fail as one that is not there. -/
theorem qualified_gail :
    gail.decide ⟨1⟩ (.scalar (named "Atk.Object" "const AtkObject*") .parameter) =
      .ok { representation := .symbol ⟨⟨0⟩, .classType, 0⟩, isPointer := true } ∧
    gail.decide ⟨1⟩ (.scalar (named "Atk.Missing" "const AtkMissing*") .parameter) =
      .error (.unresolvedSymbol "Atk.Missing" "Gail-2.0") := by
  rw [gail_eq]
  decide +kernel

open Sample in
theorem refused_iff_unqualified_gail :
    gail.decide ⟨1⟩ (.scalar (named "Atk.Object" "AtkObject* const") .parameter) =
      .error (.unsupportedType "AtkObject* const") ∧
    gail.decide ⟨1⟩ (.scalar (named "Atk.Object" "const AtkObject*") .parameter) =
      gail.decideByName ⟨1⟩ (named "Atk.Object" "const AtkObject*") true true := by
  have hgail : Obtained gail := Obtained.empty.after _
  have hmem : (⟨1⟩ : RepositoryId) ∈ gail.buildOrder := by
    rw [gail_eq]
    decide
  have hbehind : gail.aliasHop ⟨1⟩ (.ofString "AtkObject* const") = none := by
    rw [gail_eq]
    decide +kernel
  have hfront : gail.aliasHop ⟨1⟩ (.ofString "const AtkObject*") = none := by
    rw [gail_eq]
    decide +kernel
  have hbehindQualifies : (Spelling.ofString "AtkObject* const").Qualifies 0 "AtkObject" 1 := by decide +kernel
  have hfrontQualifies : (Spelling.ofString "const AtkObject*").Qualifies 1 "AtkObject" 0 := by decide +kernel
  have hspec : (named "Atk.Object" "AtkObject* const").nativeSpelling = some (.ofString "AtkObject* const") := rfl
  have hspec' : (named "Atk.Object" "const AtkObject*").nativeSpelling = some (.ofString "const AtkObject*") := rfl
  obtain ⟨hrefused, -⟩ :=
    refused_iff_unqualified hgail hmem hspec hbehindQualifies (by decide) hbehind .parameter
  obtain ⟨-, hleft⟩ := refused_iff_unqualified hgail hmem hspec' hfrontQualifies (by decide) hfront .parameter
  exact ⟨hrefused.mpr rfl, hleft (by decide)⟩

end Interop
