import Interop.Proofs.Deciding
import Interop.Proofs.Parameters

/-! Encodings of texts. A text is encoded by the name that stands where its spelling is known. For an alias of a
fundamental type of texts, this is the name of the fundamental type only if no spelling on the way to it is
known. Main statement: `text_encoded_by_nearest_name`. -/

namespace Interop

/-! ### Encodings by name -/

/-- The encoding of a fundamental type of texts. -/
def textEncoding? (name : String) : Option TextEncoding :=
  if name = "utf8" then some .utf8 else if name = "filename" then some .platform else none

theorem encodingOf_some (name : String) :
    Representation.encodingOf (some name) = (textEncoding? name).getD .utf8 := by
  unfold Representation.encodingOf textEncoding?
  by_cases hutf8 : name = "utf8"
  · subst hutf8
    rfl
  · rw [if_neg hutf8]
    by_cases hfilename : name = "filename"
    · rw [if_pos (congrArg some hfilename), if_pos hfilename]
      rfl
    · rw [if_neg fun h => hfilename (Option.some.inj h), if_neg hfilename]
      rfl

/-- What is represented as a text has a spelling of texts, and the encoding of the name at it. -/
theorem Representation.ofCategory_eq_text {name : Option String} {s : Spelling} {encoding : TextEncoding}
    (h : ofCategory name s (classify s).category = .ok (some (.text encoding))) :
    (classify s).category = .text ∧ encoding = encodingOf name := by
  cases hcategory : (classify s).category with
  | text =>
      rw [hcategory] at h
      cases h
      exact ⟨rfl, rfl⟩
  | _ =>
      rw [hcategory] at h
      cases h

namespace DecidedType

variable {name : Option String} {s : Spelling} {c : Classification} {representation : Representation}
  {isParameter : Bool}

/-- A classified spelling keeps its representation, unless it is a pointer without a structure. -/
theorem representation_ofClassified (representation : Representation) (c : Classification) (isParameter : Bool) :
    (ofClassified representation c isParameter).representation = representation ∨
      ofClassified representation c isParameter = handle.withPointer true := by
  unfold ofClassified
  split
  · exact .inl rfl
  · split
    · exact .inl rfl
    · split
      · exact .inl rfl
      · exact .inr rfl

/-- A classified spelling that is decided to a text is a known one, encoded by the name that stands at it. -/
theorem encodingOf_of_isText
    (hrepresentation : Representation.ofCategory name s (classify s).category = .ok (some representation))
    (htext : (ofClassified representation c isParameter).isText) :
    (classify s).category = .text ∧
      (ofClassified representation c isParameter).representation = .text (Representation.encodingOf name) := by
  have hkept : (ofClassified representation c isParameter).representation = representation := by
    refine (representation_ofClassified representation c isParameter).resolve_right fun hhandle => ?_
    rw [hhandle] at htext
    cases htext
  rw [isText, hkept] at htext
  rw [hkept]
  cases representation with
  | text other =>
      obtain ⟨hcategory, rfl⟩ := Representation.ofCategory_eq_text hrepresentation
      exact ⟨hcategory, rfl⟩
  | _ => cases htext

end DecidedType

/-! ### Aliases of texts -/

/-- Whether the spelling of a type is known. -/
def TypeSpec.isKnown (spec : TypeSpec) : Bool := spec.nativeSpelling.any fun s => (classify s).category != .unknown

theorem nextName?_of_isKnown {target : TypeSpec} (h : target.isKnown) : Graph.nextName? target = none := if_pos h

theorem nextName?_of_not_isKnown {target : TypeSpec} (h : target.isKnown = false) :
    Graph.nextName? target = target.name :=
  if_neg (Bool.eq_false_iff.mp h)

namespace Graph

variable {g : Graph} {id : RepositoryId} {spec : TypeSpec} {encoding : TextEncoding} {isKnown early : Bool}

/-- Whether the spelling that a type is classified by is known. -/
def isKnownAt (g : Graph) (id : RepositoryId) (spec : TypeSpec) : Bool :=
  (g.classifiedSpelling id spec).any fun s => (classify s).category != .unknown

/-- By its name a type is the fundamental type of texts in an encoding, or an alias of such a type. `isKnown` tells
whether its spelling is known, and `early` whether one is before the fundamental type is reached. -/
inductive StandsForText (g : Graph) (encoding : TextEncoding) : Bool → Bool → RepositoryId → TypeSpec → Prop
  | fundamental {isKnown : Bool} {id : RepositoryId} {spec : TypeSpec} {name : String} (hname : spec.name = some name)
    (hencoding : textEncoding? name = some encoding)
    (hplain : isKnown = true ∨ ∀ address, g.lookupSymbol id name ≠ .ok address) :
    StandsForText g encoding isKnown false id spec
  /-- A symbol with the name of a fundamental type counts only where the spelling is not known. -/
  | hop {isKnown early : Bool} {id : RepositoryId} {spec : TypeSpec} {name : String} {address : SymbolRef}
    {found : Alias} (hname : spec.name = some name) (hsymbol : textEncoding? name = none ∨ isKnown = false)
    (hlookup : g.lookupSymbol id name = .ok address) (hfound : g.alias? address = some found)
    (h : StandsForText g encoding found.target.spec.isKnown early address.repository found.target.spec) :
    StandsForText g encoding isKnown (isKnown || early) id spec

theorem StandsForText.exists_name (h : g.StandsForText encoding isKnown early id spec) :
    ∃ name, spec.name = some name := by
  cases h with
  | fundamental hname => exact ⟨_, hname⟩
  | hop hname => exact ⟨_, hname⟩

/-- Where the spelling is known, the name at it is that of the fundamental type unless this comes later. -/
theorem StandsForText.encodingOf_name (h : g.StandsForText encoding true early id spec) :
    Representation.encodingOf spec.name = if early then .utf8 else encoding := by
  cases h with
  | fundamental hname hencoding =>
      rw [hname, encodingOf_some, hencoding]
      rfl
  | hop hname hsymbol =>
      have hnone := hsymbol.resolve_right Bool.noConfusion
      rw [hname, encodingOf_some, hnone]
      rfl

/-- Where the spelling is not known, the name leads to the first type on the way whose spelling is. -/
theorem StandsForText.encodingOf_target (h : g.StandsForText encoding isKnown early id spec)
    (hunknown : isKnown = false) {name : String} (hname : spec.name = some name) {target : TypeSpec}
    (hlead : g.resolveName id name = .ok (.native target)) :
    Representation.encodingOf target.name = if early then .utf8 else encoding := by
  induction h generalizing name with
  | fundamental hname' hencoding hplain =>
      obtain rfl := Option.some.inj (hname'.symm.trans hname)
      obtain ⟨start, hstart, -⟩ := resolveName_eq_ok.mp hlead
      exact absurd hstart (hplain.resolve_left (Bool.eq_false_iff.mp hunknown) start)
  | @hop isKnown early id spec name' address found hname' hsymbol hlookup hfound hrest ih =>
      obtain rfl := Option.some.inj (hname'.symm.trans hname)
      obtain ⟨start, hstart, hleads⟩ := resolveName_eq_ok.mp hlead
      obtain rfl : start = address := Except.ok.inj (hstart.symm.trans hlookup)
      rw [hunknown, Bool.false_or]
      cases hknown : found.target.spec.isKnown with
      | true =>
          -- the way ends at the target
          have hend : g.Leads start (.native found.target.spec) := ⟨0, .native hfound (nextName?_of_isKnown hknown)⟩
          have hall := resolveName_eq_ok.mpr ⟨start, hstart, hend⟩
          rw [hlead] at hall
          obtain rfl := NameTarget.native.inj (Except.ok.inj hall)
          rw [hknown] at hrest
          exact hrest.encodingOf_name
      | false =>
          obtain ⟨next, hnext⟩ := hrest.exists_name
          have hnextName := (nextName?_of_not_isKnown hknown).trans hnext
          exact ih hknown hnext (resolveName_eq_ok.mpr ((leads_iff_of_nextName? hfound hnextName _).mp hleads))

theorem isKnownAt_of_leftToName {isPointer : Bool} (h : g.LeftToName id spec isPointer) :
    g.isKnownAt id spec = false := by
  unfold isKnownAt
  cases h with
  | unspelled hnone =>
      rw [hnone]
      rfl
  | unknown hs hunknown =>
      rw [hs, Option.any_some, hunknown]
      rfl

/-- A type that stands for a text and is decided to one has the encoding of the fundamental type, unless a spelling is
known before that is reached. -/
theorem DecidesSpec.representation_eq_text {d : DecidedType} {isParameter : Bool}
    (h : g.DecidesSpec id spec isParameter d) (hstands : g.StandsForText encoding (g.isKnownAt id spec) early id spec)
    (htext : d.isText) : d.representation = .text (if early then .utf8 else encoding) := by
  cases h with
  | untyped => cases htext
  | symbol => cases htext
  | spelled hs hrepresentation =>
      obtain ⟨hcategory, hkept⟩ := DecidedType.encodingOf_of_isText hrepresentation htext
      have hknown : g.isKnownAt id spec = true := by
        rw [isKnownAt, hs, Option.any_some, hcategory]
        rfl
      rw [hknown] at hstands
      rw [hkept, hstands.encodingOf_name]
  | native hleft hname hlead hs hrepresentation =>
      obtain ⟨-, hkept⟩ := DecidedType.encodingOf_of_isText hrepresentation htext
      rw [hkept, hstands.encodingOf_target (isKnownAt_of_leftToName hleft) hname hlead]

end Graph

/-! ### Parameters -/

namespace ParameterUse

variable (use : ParameterUse) (g : Graph) {d : DecidedType} {encoding : TextEncoding}

/-- A text is passed as a text. -/
theorem representation_passing_of_text (hd : d.representation = .text encoding) :
    (use.passing g d).type.representation = .text encoding := by
  have hvoid : d.isVoid = false := by
    rw [DecidedType.isVoid, hd]
    rfl
  rw [representation_passing, hvoid, Bool.and_false, if_neg Bool.false_ne_true, hd]

theorem isArray_passing (harray : d.isArray = false) : (use.passing g d).type.isArray = false := by
  rw [type_passing]
  split
  · rfl
  · exact harray

/-- A text that a native signature takes as a declared parameter carries its encoding as a hint. -/
theorem hint_passing_of_text (hd : d.representation = .text encoding) (harray : d.isArray = false) :
    (use.passing g d).hint =
      if use.target = .native ∧ use.isReceiver = false then some (.text encoding) else none := by
  obtain ⟨parameter, isReceiver, target, offset⟩ := use
  cases isReceiver with
  | true => exact (if_neg fun h => Bool.noConfusion h.2).symm
  | false =>
      cases target with
      | managed => rfl
      | native =>
          have hrepresentation := representation_passing_of_text ⟨parameter, false, .native, offset⟩ g hd
          have hscalar := isArray_passing ⟨parameter, false, .native, offset⟩ g harray
          show MarshalHint.of? (passing ⟨parameter, false, .native, offset⟩ g d).type offset = _
          rw [MarshalHint.of?, hscalar, hrepresentation]
          rfl

end ParameterUse

theorem MarshalHint.marshalAs_text (encoding : TextEncoding) :
    (MarshalHint.text encoding).marshalAs = "[MarshalAs(UnmanagedType.LPStr)]" ↔ encoding = .platform := by
  cases encoding <;> decide

/-- How a parameter of a type that stands for a text is passed: with the encoding of the fundamental type, unless a
spelling is known before that is reached; then it is UTF-8. -/
structure Graph.MarshalsText (g : Graph) (use : ParameterUse) (d : DecidedType) (encoding : TextEncoding)
    (early : Bool) : Prop where
  decided : d.representation = .text (if early then .utf8 else encoding)
  passed : (use.passing g d).type.representation = .text (if early then .utf8 else encoding)
  /-- Only native signatures carry hints, and none for the instance that a method is called on. -/
  hint : (use.passing g d).hint =
    if use.target = .native ∧ use.isReceiver = false then some (.text (if early then .utf8 else encoding)) else none
  faithful : d.representation = .text encoding ↔ encoding = .utf8 ∨ early = false
  platform : (∃ hint, (use.passing g d).hint = some hint ∧ hint.marshalAs = "[MarshalAs(UnmanagedType.LPStr)]") ↔
    (use.target = .native ∧ use.isReceiver = false) ∧ encoding = .platform ∧ early = false

/-- A parameter whose type is a fundamental type of texts by its name, through aliases or not, and that is decided
to a text, has the encoding of that type exactly if this is UTF-8 or no spelling is known, from the reference on,
before the name of the fundamental type is reached. Otherwise it is passed as UTF-8. -/
theorem text_encoded_by_nearest_name {g : Graph} {id : RepositoryId} {use : ParameterUse} {spec : TypeSpec}
    (htype : use.parameter.type = .scalar spec .parameter) {encoding : TextEncoding} {early : Bool}
    (hstands : g.StandsForText encoding (g.isKnownAt id spec) early id spec) {d : DecidedType}
    (hd : g.decide id use.parameter.type = .ok d) (htext : d.isText) : g.MarshalsText use d encoding early := by
  rw [htype, Graph.decide_scalar] at hd
  have hdecided := (Graph.decideSpec_eq_ok.mp hd).representation_eq_text hstands htext
  have hfaithful : d.representation = .text encoding ↔ encoding = .utf8 ∨ early = false := by
    rw [hdecided]
    cases early <;> cases encoding <;> simp
  have harray : d.isArray = false := by simpa [DecidedType.isText, hdecided] using htext
  have hhint := use.hint_passing_of_text g hdecided harray
  refine ⟨hdecided, use.representation_passing_of_text g hdecided, hhint, hfaithful, ?_⟩
  rw [hhint]
  by_cases hnative : use.target = .native ∧ use.isReceiver = false
  · rw [if_pos hnative]
    simp only [Option.some.injEq, exists_eq_left', MarshalHint.marshalAs_text]
    cases early <;> cases encoding <;> simp [hnative]
  · rw [if_neg hnative]
    exact iff_of_false (fun h => by obtain ⟨_, ⟨⟩, _⟩ := h) fun h => hnative h.1

namespace Sample

/-- Typedefs of a file name: by its own name, by that of the first with the spelling of a text, and by that of the
first with its spelling. -/
def pathAliases : List AliasRow :=
  [("File", "PathFile", "filename", "gchar*"), ("Folder", "PathFolder", "File", "gchar*"),
    ("Disk", "PathDisk", "File", "PathFile")]

def path : Graph := ({} : Graph).after [.register (description "Path" [] (pathAliases.map described)), .link]

theorem path_eq : path = {
    repositories := [⟨{ key := ⟨"Path", "2.0"⟩, aliases := pathAliases.map built }, []⟩]
    positions := [(⟨"Path", "2.0"⟩, ⟨0⟩)]
    buildOrder := [⟨0⟩] } := by
  cbv

/-- A native parameter of a type. -/
def pathUse (spec : TypeSpec) : ParameterUse where
  parameter := ⟨.parameter "path", .scalar spec .parameter, .into, .nothing, false, false, none⟩
  isReceiver := false
  target := .native
  offset := 0

/-- How a native parameter of a type is marshalled. -/
def hintOf (spec : TypeSpec) : Option String := do
  let d ← (path.decide ⟨0⟩ (pathUse spec).parameter.type).toOption
  return (← ((pathUse spec).passing path d).hint).marshalAs

/-- The target of the typedef has a known spelling. -/
theorem standsForText_file (isKnown : Bool) (ctype : Option Spelling) :
    path.StandsForText .platform isKnown isKnown ⟨0⟩ ⟨some "File", ctype⟩ := by
  have hlookup : path.lookupSymbol ⟨0⟩ "File" = .ok ⟨⟨0⟩, .alias, 0⟩ := by
    rw [path_eq]
    decide +kernel
  have hfound : path.alias? ⟨⟨0⟩, .alias, 0⟩ = some (built ("File", "PathFile", "filename", "gchar*")) := by
    rw [path_eq]
    rfl
  have hknown : (built ("File", "PathFile", "filename", "gchar*")).target.spec.isKnown = true := by decide +kernel
  have hstands : path.StandsForText .platform isKnown (isKnown || false) ⟨0⟩ ⟨some "File", ctype⟩ :=
    .hop rfl (.inl rfl) hlookup hfound (.fundamental rfl rfl (.inl hknown))
  rwa [Bool.or_false] at hstands

/-- The target of the typedef has the spelling of another typedef. -/
theorem standsForText_disk (isKnown : Bool) (ctype : Option Spelling) :
    path.StandsForText .platform isKnown isKnown ⟨0⟩ ⟨some "Disk", ctype⟩ := by
  have hlookup : path.lookupSymbol ⟨0⟩ "Disk" = .ok ⟨⟨0⟩, .alias, 2⟩ := by
    rw [path_eq]
    decide +kernel
  have hfound : path.alias? ⟨⟨0⟩, .alias, 2⟩ = some (built ("Disk", "PathDisk", "File", "PathFile")) := by
    rw [path_eq]
    rfl
  have hunknown : (built ("Disk", "PathDisk", "File", "PathFile")).target.spec.isKnown = false := by decide +kernel
  have hrest := standsForText_file false (some (.ofString "PathFile"))
  have hstands : path.StandsForText .platform isKnown (isKnown || false) ⟨0⟩ ⟨some "Disk", ctype⟩ :=
    .hop rfl (.inl rfl) hlookup hfound (hunknown.symm ▸ hrest)
  rwa [Bool.or_false] at hstands

end Sample

open Sample in
/-- With a spelling at the reference, or behind an alias whose target has one, a file name is passed as UTF-8. -/
theorem utf8_path :
    hintOf ⟨some "File", none⟩ = some "[MarshalAs(UnmanagedType.LPStr)]" ∧
    hintOf (named "File" "PathFile") = some "[MarshalAs(UnmanagedType.LPUTF8Str)]" ∧
    hintOf (named "File" "const gchar*") = some "[MarshalAs(UnmanagedType.LPUTF8Str)]" ∧
    hintOf ⟨some "Folder", none⟩ = some "[MarshalAs(UnmanagedType.LPUTF8Str)]" := by
  unfold hintOf
  rw [path_eq]
  decide +kernel

open Sample in
theorem text_encoded_by_nearest_name_path :
    path.MarshalsText (pathUse (named "File" "PathFile"))
      { representation := .text .utf8, isPointer := true } .platform true ∧
    path.MarshalsText (pathUse (named "Disk" "PathDisk"))
      { representation := .text .platform, isPointer := true } .platform false := by
  have hknown : path.isKnownAt ⟨0⟩ (named "File" "PathFile") = true := by
    rw [path_eq]
    decide +kernel
  have hunknown : path.isKnownAt ⟨0⟩ (named "Disk" "PathDisk") = false := by
    rw [path_eq]
    decide +kernel
  have hfile : path.decide ⟨0⟩ (pathUse (named "File" "PathFile")).parameter.type =
      .ok { representation := .text .utf8, isPointer := true } := by
    rw [path_eq]
    decide +kernel
  have hdisk : path.decide ⟨0⟩ (pathUse (named "Disk" "PathDisk")).parameter.type =
      .ok { representation := .text .platform, isPointer := true } := by
    rw [path_eq]
    decide +kernel
  constructor
  · refine text_encoded_by_nearest_name rfl ?_ hfile rfl
    rw [hknown]
    exact standsForText_file true _
  · refine text_encoded_by_nearest_name rfl ?_ hdisk rfl
    rw [hunknown]
    exact standsForText_disk false _

end Interop
