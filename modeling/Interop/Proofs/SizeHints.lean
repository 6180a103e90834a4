import Interop.Proofs.Session
import Interop.Proofs.Shape
import Interop.Proofs.Signatures
import Interop.Proofs.SymbolNames
import Interop.Proofs.Void

/-! Where the lengths of arrays are passed. A typed array carries the position of the parameter with its length,
counted as the native signature lists its parameters. No other parameter carries such a position, and none
has more than one keyword for its direction. Main statement: `arrays_sized`. -/

namespace Interop

/-! ### Decisions -/

/-- The position of the declared parameter with the length of an array. -/
def TypeReference.length? (reference : TypeReference) : Option Nat := reference.array.bind (·.length)

/-- A reference was decided to a type at some moment, in the graph of that moment. -/
def DecidedOnce (id : RepositoryId) (reference : TypeReference) (d : DecidedType) : Prop :=
  ∃ g : Graph, g.decide id reference = .ok d

namespace Graph

variable {g : Graph} {id : RepositoryId} {reference : TypeReference} {d : DecidedType} {m m' : Memo}

theorem Coherent.decidedOnce (hm : g.Coherent id m) : g.Remembers id (DecidedOnce id) m :=
  fun site reference d h hget => ⟨g, hm.remembers site reference d h hget⟩

theorem Adds.decidedOnce (h : g.Adds m m') (hm : g.Remembers id (DecidedOnce id) m) :
    g.Remembers id (DecidedOnce id) m' := by
  intro site reference d hasked hget
  rcases h.fresh site d hget with hkept | ⟨reference', hreference, hd⟩
  · exact hm site reference d hasked hkept
  · obtain rfl := Option.some.inj (hasked.2.symm.trans hreference)
    exact ⟨g, hasked.1 ▸ hd⟩

/-- The length of a typed array is that of its reference. -/
theorem exists_length_of_isArray (hd : g.decide id reference = .ok d) (hcontext : reference.context = .parameter)
    (harray : d.isArray = true) :
    ∃ length, 0 < length ∧ reference.length? = some length ∧ d.lengthIndex = some length := by
  cases decide_eq_ok.mp hd with
  | scalar _ h =>
      rw [(decideSpec_eq_ok.mp h).isScalar.isArray_eq_false] at harray
      cases harray
  | unsized | texts | collapsed => cases harray
  | @typed array length element d hinfo hsized _ _ hlength =>
      obtain ⟨htold, -, -⟩ := ArrayInfo.sized?_eq_some.mp hsized
      refine ⟨length, Nat.pos_of_ne_zero hlength, ?_, ?_⟩
      · rw [TypeReference.length?, hinfo, Option.bind_some, htold]
      · rw [hcontext]
        rfl

end Graph

/-- Whatever is decided from a moment of a session on, all that is kept was decided once. -/
theorem GraphSession.Reached.decidedOnce {s : GraphSession} (hs : s.Reached) {m : Memo} (h : s.graph.Adds s.memo m)
    (id : RepositoryId) : s.graph.Remembers id (DecidedOnce id) m := by
  refine h.decidedOnce fun site reference d hasked hget => ?_
  obtain ⟨earlier, reference', hearlier, hcontinues, hreference, hd⟩ := hs.exists_decided hget
  obtain ⟨hnow, -⟩ := hearlier.decide_eq_ok hcontinues hreference hd
  obtain rfl := Option.some.inj (hasked.2.symm.trans hnow)
  exact ⟨earlier.graph, hasked.1 ▸ hd⟩

/-! ### Hints -/

namespace MarshalHint

/-- The attribute for an array starts with more than one for a text has. -/
theorem toList_marshalAs_sizedArray (k : Nat) : (sizedArray k).marshalAs.toList =
    "[MarshalAs(UnmanagedType.LPArray, SizeParamIndex=".toList ++ (k.repr.toList ++ ")]".toList) := by
  show ("[MarshalAs(UnmanagedType.LPArray, SizeParamIndex=" ++ k.repr ++ ")]").toList = _
  rw [String.toList_append, String.toList_append, List.append_assoc]

theorem marshalAs_sizedArray_inj {k k' : Nat} : (sizedArray k).marshalAs = (sizedArray k').marshalAs ↔ k = k' := by
  constructor
  · intro h
    have htext := congrArg String.toList h
    rw [toList_marshalAs_sizedArray, toList_marshalAs_sizedArray] at htext
    exact Nat.repr_injective (String.toList_injective (List.append_cancel_right (List.append_cancel_left htext)))
  · rintro rfl
    rfl

/-- No other attribute is one for an array. -/
theorem ne_marshalAs_sizedArray {stated : String} (k : Nat)
    (h : stated = "" ∨ ∃ encoding, stated = (text encoding).marshalAs) :
    stated ≠ (sizedArray k).marshalAs := by
  intro heq
  have hstart := congrArg (List.take 31) (congrArg String.toList heq)
  rw [toList_marshalAs_sizedArray, List.take_append_of_le_length (by decide)] at hstart
  rcases h with rfl | ⟨encoding, rfl⟩
  · exact absurd hstart (by decide)
  · cases encoding <;> exact absurd hstart (by decide)

theorem marshalAs_eq_sizedArray {hint : Option MarshalHint} {k : Nat} :
    hint.elim "" (·.marshalAs) = (sizedArray k).marshalAs ↔ hint = some (sizedArray k) := by
  rcases hint with _ | ⟨k' | encoding⟩
  · exact iff_of_false (ne_marshalAs_sizedArray k (.inl rfl)) nofun
  · rw [Option.elim_some, marshalAs_sizedArray_inj, Option.some.injEq, sizedArray.injEq]
  · exact iff_of_false (ne_marshalAs_sizedArray k (.inr ⟨encoding, rfl⟩)) nofun

end MarshalHint

namespace ParameterUse

variable (use : ParameterUse) (g : Graph) (d : DecidedType)

/-- Only declared parameters of native signatures have hints, by the types that they are passed as. -/
theorem hint_passing : (use.passing g d).hint =
    if use.target = .native ∧ use.isReceiver = false then MarshalHint.of? (use.passing g d).type use.offset
    else none := by
  obtain ⟨parameter, isReceiver, target, offset⟩ := use
  cases isReceiver <;> cases target <;> rfl

theorem lengthIndex_passing (h : (use.passing g d).type.isArray = true) :
    d.isArray = true ∧ (use.passing g d).type.lengthIndex = d.lengthIndex := by
  rw [type_passing] at h ⊢
  split at h
  · cases h
  · next hstays =>
      rw [if_neg hstays]
      exact ⟨h, rfl⟩

end ParameterUse

/-! ### Keywords -/

/-- A text that starts with a keyword for a direction. -/
def IsDirected (text : String) : Prop := ∃ keyword ∈ ["ref ", "out "], keyword.toList <+: text.toList

instance (text : String) : Decidable (IsDirected text) :=
  inferInstanceAs (Decidable (∃ keyword ∈ ["ref ", "out "], keyword.toList <+: text.toList))

/-- No keyword reaches behind a character that none has. -/
theorem IsDirected.of_append {text back : String} (h : IsDirected (text ++ back))
    (hback : ∃ c rest, back.toList = c :: rest ∧ ∀ keyword ∈ ["ref ", "out "], c ∉ keyword.toList) :
    IsDirected text := by
  obtain ⟨keyword, hkeyword, hstarts⟩ := h
  obtain ⟨c, rest, hfirst, hfresh⟩ := hback
  rw [String.toList_append] at hstarts
  refine ⟨keyword, hkeyword, ?_⟩
  rcases Nat.le_total keyword.toList.length text.toList.length with hlength | hlength
  · exact List.prefix_of_prefix_length_le hstarts (List.prefix_append ..) hlength
  · obtain ⟨reached, hreached⟩ := List.prefix_of_prefix_length_le (List.prefix_append ..) hstarts hlength
    rw [← hreached, hfirst] at hstarts
    rw [← hreached]
    have hrest := (List.prefix_append_right_inj _).mp hstarts
    cases reached with
    | nil => rw [List.append_nil]
    | cons first reached =>
        obtain ⟨rfl, -⟩ := List.cons_prefix_cons.mp hrest
        exact absurd (hreached ▸ List.mem_append_right _ List.mem_cons_self) (hfresh keyword hkeyword)

theorem IsDirected.startsSmall {text : String} (h : IsDirected text) : StartsSmall text := by
  obtain ⟨keyword, hkeyword, back, hback⟩ := h
  have hsmall : ∀ keyword ∈ ["ref ", "out "], ∃ c rest, keyword.toList = c :: rest ∧ c.isLower = true := by
    intro keyword hkeyword
    rcases List.mem_cons.mp hkeyword with rfl | hkeyword
    · exact ⟨_, _, rfl, by decide⟩
    · obtain rfl := List.mem_singleton.mp hkeyword
      exact ⟨_, _, rfl, by decide⟩
  obtain ⟨c, rest, hfirst, hlower⟩ := hsmall keyword hkeyword
  rw [hfirst] at hback
  exact ⟨c, by rw [← hback]; rfl, hlower⟩

theorem PrimitiveKind.not_isDirected (kind : PrimitiveKind) : ¬IsDirected kind.managedName := by
  cases kind <;> decide

namespace Graph

variable (g : Graph) (id : RepositoryId) (d : DecidedType) (target : Target)

/-- The name of a type without the keyword that it may have. -/
def plainName : String := g.typeName id { d with byRef := false } target

theorem typeName_eq_plainName :
    g.typeName id d target = (if d.byRef then "ref " else "") ++ g.plainName id d target := by
  obtain ⟨representation, byRef, isArray, isPointer, lengthIndex⟩ := d
  cases byRef with
  | true => rfl
  | false => exact String.empty_append.symm

/-- Only a type of another namespace, whose name starts with a keyword itself, is named so. -/
theorem exists_symbol_of_isDirected (hg : Obtained g) (h : IsDirected (g.plainName id d target)) :
    ∃ symbol, d.representation = .symbol symbol ∧ symbol.isExternal id = true ∧
      IsDirected (g.namespaceName symbol.repository) := by
  have hbase : ∀ {base : String}, IsDirected (if d.isArray then base ++ "[]" else base) → IsDirected base := by
    intro base h
    split at h
    · exact h.of_append ⟨'[', [']'], rfl, by decide⟩
    · exact h
  obtain ⟨representation, byRef, isArray, isPointer, lengthIndex⟩ := d
  cases representation with
  | primitive kind => exact absurd (hbase h) kind.not_isDirected
  | value | text | handle | delegate => exact absurd (hbase h) (by decide)
  | symbol symbol =>
      refine ⟨symbol, rfl, ?_⟩
      have hname := hbase h
      split at hname
      · exact absurd hname (by decide)
      · obtain ⟨name, hcapital, heq⟩ := hg.exists_managedName_eq symbol id
        rw [heq] at hname
        split at hname
        · next hexternal =>
            refine ⟨hexternal, hname.of_append ⟨'.', name.toList, ?_, by decide⟩⟩
            rw [String.toList_append]
            rfl
        · exact absurd hname.startsSmall hcapital

end Graph

/-- A type is named with one keyword at most, behind which there is none unless it is of another namespace, whose
own name starts with one. -/
structure NamedOnce (g : Graph) (id : RepositoryId) (d : DecidedType) (target : Target) (name : String) : Prop where
  name_eq : ∃ keyword ∈ ["", "ref ", "out "], ∃ mark ∈ ["", "?"], name = keyword ++ g.plainName id d target ++ mark
  plain : IsDirected (g.plainName id d target) →
    ∃ symbol, d.representation = .symbol symbol ∧ symbol.isExternal id = true ∧
      IsDirected (g.namespaceName symbol.repository)

namespace ParameterUse

variable (use : ParameterUse) (g : Graph) (d : DecidedType)

/-- What has a keyword for its direction is not passed by reference besides. -/
theorem byRef_passing : (use.passing g d).decoration = .plain ∨ (use.passing g d).type.byRef = false := by
  rw [type_passing]
  unfold passing
  cases use.isReceiver with
  | true => exact .inl rfl
  | false =>
      cases hdecoration : Decoration.of use.parameter with
      | plain => exact .inl hdecoration
      | ref | out =>
          right
          split
          · rfl
          · exact Bool.and_false _

end ParameterUse

theorem Emitter.namedOnce_parameter (e : Emitter) (hg : Obtained e.graph) (use : ParameterUse) (d : DecidedType) :
    NamedOnce e.graph e.id (use.passing e.graph d).type use.target
      (e.parameter use.parameter (use.passing e.graph d) use.target).typeName where
  name_eq := by
    have hmark : ∀ nullable : Bool, (if nullable then "?" else "") ∈ ["", "?"] := by decide
    have hkeyword : ∀ decoration : Decoration, decoration.keyword ∈ ["", "ref ", "out "] := by
      intro decoration
      cases decoration <;> decide
    have hbyRef : (if (use.passing e.graph d).type.byRef then "ref " else "") ∈ ["", "ref ", "out "] := by
      split <;> decide
    rw [parameter, Graph.typeName_eq_plainName]
    rcases use.byRef_passing e.graph d with hplain | hvalue
    · refine ⟨_, hbyRef, _, hmark (use.passing e.graph d).nullable, ?_⟩
      rw [hplain]
      exact congrArg (· ++ _) String.empty_append
    · refine ⟨_, hkeyword (use.passing e.graph d).decoration, _, hmark (use.passing e.graph d).nullable, ?_⟩
      rw [hvalue]
      exact congrArg (fun name => _ ++ name ++ _) String.empty_append
  plain := e.graph.exists_symbol_of_isDirected e.id _ _ hg

/-! ### Signatures -/

namespace Emitter

/-- An entry of a signature shows a parameter by a type that its reference was decided to, with one keyword at
most. -/
structure Shows (e : Emitter) (use : ParameterUse) (d : DecidedType) (entry : Emitted.Parameter) : Prop where
  decided : DecidedOnce e.id use.parameter.type d
  entry_eq : entry = e.parameter use.parameter (use.passing e.graph d) use.target
  named : NamedOnce e.graph e.id (use.passing e.graph d).type use.target entry.typeName

/-- A declared parameter carries the position of the entry with its length exactly if it is passed as a typed
array. -/
structure Sizes (e : Emitter) (list : ParameterList) (native : List Emitted.Parameter) (p : Parameter)
    (d : DecidedType) (entry : Emitted.Parameter) : Prop where
  typed : (e.graph.passParameter p d .native list.receiverOffset).type.isArray = true →
    ∃ length, 0 < length ∧ p.type.length? = some length ∧
      entry.marshalAs = (MarshalHint.sizedArray (length + list.receiverOffset)).marshalAs ∧
      ∀ sibling, list.declared[length]? = some sibling → ∃ d' entry',
        native[length + list.receiverOffset]? = some entry' ∧
        e.Shows ⟨sibling, false, .native, list.receiverOffset⟩ d' entry'
  untyped : (e.graph.passParameter p d .native list.receiverOffset).type.isArray = false →
    ∀ k, entry.marshalAs ≠ (MarshalHint.sizedArray k).marshalAs

/-- A native signature lists the instance, the declared parameters in order, and the one for errors. -/
structure SizesArrays (e : Emitter) (list : ParameterList) (throws : Bool) (native : List Emitted.Parameter) :
    Prop where
  length_eq : native.length = list.receiverOffset + list.declared.length + if throws then 1 else 0
  receiver : ∀ p, list.receiver = some p →
    ∃ d entry, native[0]? = some entry ∧ e.Shows ⟨p, true, .native, 0⟩ d entry ∧ entry.marshalAs = ""
  declared : ∀ i p, list.declared[i]? = some p →
    ∃ d entry, native[i + list.receiverOffset]? = some entry ∧
      e.Shows ⟨p, false, .native, list.receiverOffset⟩ d entry ∧ e.Sizes list native p d entry
  error : throws = true → native[list.receiverOffset + list.declared.length]? = some errorParameter

end Emitter

namespace ParameterList

variable (list : ParameterList)

theorem length_nativeUses : list.nativeUses.length = list.receiverOffset + list.declared.length := by
  rw [nativeUses, receiverOffset, List.length_append, List.length_map, List.length_map]
  cases list.receiver <;> rfl

theorem getElem?_nativeUses (i : Nat) : list.nativeUses[i + list.receiverOffset]? =
    list.declared[i]?.map (⟨·, false, .native, list.receiverOffset⟩) := by
  rw [nativeUses, ← List.getElem?_map, List.getElem?_append_right, List.length_map]
  · cases hreceiver : list.receiver <;> simp [receiverOffset, hreceiver]
  · rw [List.length_map, receiverOffset]
    cases list.receiver <;> simp

theorem getElem?_nativeUses_zero {p : Parameter} (hp : list.receiver = some p) :
    list.nativeUses[0]? = some ⟨p, true, .native, 0⟩ := by
  rw [nativeUses, hp]
  rfl

end ParameterList

namespace Emitter

variable {e : Emitter} {list : ParameterList} {shown : List Emitted.Parameter}

theorem shows_of_shownBy (hg : Obtained e.graph) {use : ParameterUse} {entry : Emitted.Parameter}
    (h : e.ShownBy (DecidedOnce e.id) use entry) : ∃ d, e.Shows use d entry := by
  obtain ⟨d, hd, rfl⟩ := h
  exact ⟨d, hd, rfl, e.namedOnce_parameter hg use d⟩

/-- Managed parameters and instances carry nothing. -/
theorem Shows.marshalAs_eq_empty {use : ParameterUse} {d : DecidedType} {entry : Emitted.Parameter}
    (h : e.Shows use d entry) (huse : use.target = .managed ∨ use.isReceiver = true) : entry.marshalAs = "" := by
  have hhint : (use.passing e.graph d).hint = none := by
    rw [use.hint_passing, if_neg]
    rintro ⟨hnative, hdeclared⟩
    rcases huse with hmanaged | hreceiver
    · rw [hnative] at hmanaged
      cases hmanaged
    · rw [hdeclared] at hreceiver
      cases hreceiver
  rw [h.entry_eq, parameter, hhint]
  rfl

section Entries

variable (hg : Obtained e.graph) (h : List.Forall₂ (e.ShownBy (DecidedOnce e.id)) list.nativeUses shown)
  (throws : Bool)

include hg h

theorem exists_shows {j : Nat} {use : ParameterUse} (huse : list.nativeUses[j]? = some use) :
    ∃ d entry, (shown ++ trailing throws)[j]? = some entry ∧ e.Shows use d entry := by
  obtain ⟨entry, hentry, hshown⟩ := exists_getElem?_right h huse
  obtain ⟨d, hd⟩ := shows_of_shownBy hg hshown
  refine ⟨d, entry, ?_, hd⟩
  rwa [List.getElem?_append_left (List.getElem?_eq_some_iff.mp hentry).1]

/-- The hint of a declared parameter, by its type. -/
theorem Shows.sizes {p : Parameter} (hp : p.Regular) {d : DecidedType} {entry : Emitted.Parameter}
    (hentry : e.Shows ⟨p, false, .native, list.receiverOffset⟩ d entry) :
    e.Sizes list (shown ++ trailing throws) p d entry := by
  have hhint : (e.graph.passParameter p d .native list.receiverOffset).hint =
      MarshalHint.of? (e.graph.passParameter p d .native list.receiverOffset).type list.receiverOffset := rfl
  have hattribute : entry.marshalAs =
      (e.graph.passParameter p d .native list.receiverOffset).hint.elim "" (·.marshalAs) := by
    rw [hentry.entry_eq]
    rfl
  constructor
  · intro harray
    obtain ⟨hd, hindex⟩ :=
      ParameterUse.lengthIndex_passing ⟨p, false, .native, list.receiverOffset⟩ e.graph d harray
    obtain ⟨before, hbefore⟩ := hentry.decided
    obtain ⟨length, hpos, hlength, hlengthIndex⟩ := Graph.exists_length_of_isArray hbefore hp.context_eq hd
    have hindex : (e.graph.passParameter p d .native list.receiverOffset).type.lengthIndex = some length :=
      hindex.trans hlengthIndex
    refine ⟨length, hpos, hlength, ?_, fun sibling hsibling => ?_⟩
    · rw [hattribute, hhint, MarshalHint.of?, if_pos harray, hindex]
      rfl
    · refine exists_shows hg h throws ?_
      rw [list.getElem?_nativeUses, hsibling, Option.map_some]
  · intro harray k hk
    rw [hattribute, MarshalHint.marshalAs_eq_sizedArray, hhint, MarshalHint.of?, harray,
      if_neg Bool.false_ne_true] at hk
    split at hk <;> cases hk

theorem sizesArrays_of_shownBy (hlist : list.Regular) : e.SizesArrays list throws (shown ++ trailing throws) := by
  have hlength : shown.length = list.receiverOffset + list.declared.length := by
    rw [← h.length_eq, list.length_nativeUses]
  constructor
  case length_eq =>
    rw [List.length_append, hlength]
    cases throws <;> rfl
  case receiver =>
    intro p hp
    obtain ⟨d, entry, hentry, hshows⟩ := exists_shows hg h throws (list.getElem?_nativeUses_zero hp)
    exact ⟨d, entry, hentry, hshows, hshows.marshalAs_eq_empty (.inr rfl)⟩
  case declared =>
    intro i p hp
    have huse := list.getElem?_nativeUses i
    rw [hp, Option.map_some] at huse
    obtain ⟨d, entry, hentry, hshows⟩ := exists_shows hg h throws huse
    have hregular : p.Regular := hlist p (List.mem_append_right _ (List.mem_of_getElem? hp))
    exact ⟨d, entry, hentry, hshows, hshows.sizes hg h throws hregular⟩
  case error =>
    rintro rfl
    rw [← hlength, List.getElem?_append_right (Nat.le_refl _), Nat.sub_self]
    rfl

end Entries

end Emitter

end Interop
