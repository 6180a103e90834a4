import Interop.Proofs.Accounts

/-! The parameters of what is emitted. Each parameter that a signature shows is one of the declaration, passed
by what its type decides to in the graph or, from a memo with other decisions, by what these say. Main
statements: `showsBy_of_emitFrom`, `shows_of_emitFrom`, `exists_emitFrom_callable`. -/

namespace Interop

/-! ### Uses -/

/-- A parameter as one of the signatures of its declaration takes it. -/
structure ParameterUse where
  parameter : Parameter
  isReceiver : Bool
  target : Target
  /-- How far the declared positions are shifted in the signature. -/
  offset : Nat
deriving DecidableEq, Repr

/-- How a parameter of a decided type is passed. -/
def ParameterUse.passing (use : ParameterUse) (g : Graph) (d : DecidedType) : ParameterPassing :=
  if use.isReceiver then g.passReceiver use.parameter d use.target
  else g.passParameter use.parameter d use.target use.offset

namespace ParameterUse

variable (use : ParameterUse) (g : Graph) (d : DecidedType)

/-- A declared parameter is no `void`, and where a keyword tells the direction, it is not by reference. -/
theorem type_passing : (use.passing g d).type =
    if !use.isReceiver && d.isVoid then .handle
    else { d with byRef := d.byRef && (use.isReceiver || Decoration.of use.parameter == .plain) } := by
  obtain ⟨representation, byRef, isArray, isPointer, lengthIndex⟩ := d
  unfold passing
  cases use.isReceiver with
  | true =>
      rw [Bool.true_or, Bool.and_true]
      rfl
  | false =>
      rw [if_neg Bool.false_ne_true, Bool.false_or, Bool.not_false, Bool.true_and]
      unfold Graph.passParameter
      dsimp only
      cases Decoration.of use.parameter with
      | plain =>
          rw [if_pos rfl, beq_self_eq_true, Bool.and_true]
      | ref | out =>
          rw [if_neg (by decide), beq_eq_false_iff_ne.mpr (by decide), Bool.and_false]
          split <;> rfl

theorem representation_passing : (use.passing g d).type.representation =
    if !use.isReceiver && d.isVoid then .handle else d.representation := by
  rw [type_passing]
  split <;> rfl

theorem nullable_passing : (use.passing g d).nullable =
    g.allowsNull use.parameter.nullable use.parameter.type (use.passing g d).type use.target := by
  unfold passing
  cases use.isReceiver <;> rfl

end ParameterUse

namespace ParameterList

/-- The parameters of a native signature. -/
def nativeUses (list : ParameterList) : List ParameterUse :=
  list.receiver.toList.map (⟨·, true, .native, 0⟩)
    ++ list.declared.map (⟨·, false, .native, list.receiverOffset⟩)

/-- The parameters of a managed signature. -/
def managedUses (list : ParameterList) : List ParameterUse := list.managed.map (⟨·, false, .managed, 0⟩)

/-- The arguments of a signal. -/
def argumentUses (list : ParameterList) : List ParameterUse :=
  list.declared.map (⟨·, false, .native, 0⟩)

end ParameterList

/-- The parameters of all signatures that an item emits. -/
def Work.uses : Work → List ParameterUse
  | .callable _ c => c.parameters.nativeUses ++ c.parameters.managedUses
  | .callback c => c.parameters.nativeUses
  | .signal _ s => s.parameters.argumentUses
  | _ => []

namespace Emitter

variable (e : Emitter)

/-- How a parameter is shown by what its type decides to. -/
def shown (use : ParameterUse) : Except Fault Emitted.Parameter := do
  let d ← e.graph.decide e.id use.parameter.type
  return e.parameter use.parameter (use.passing e.graph d) use.target

/-- The type of an argument of a signal, by what it decides to. -/
def shownType (use : ParameterUse) : Except Fault String := do
  let d ← e.graph.decide e.id use.parameter.type
  return e.graph.typeName e.id (use.passing e.graph d).type use.target

/-- The signatures of what is emitted show the parameters of its item and, where a callable throws, the one
for the error. -/
inductive ShowsAll : Work → EmittedDeclaration → Prop
  | callable {owner : Option SymbolName} {c : Callable} {f : Emitted.Function} {native : List Emitted.Parameter}
    (hnative : c.parameters.nativeUses.mapM e.shown = .ok native)
    (herror : f.nativeParameters = native ++ if c.throws then [errorParameter] else [])
    (hmanaged : c.parameters.managedUses.mapM e.shown = .ok f.managedParameters) :
    ShowsAll (.callable owner c) (.function f)
  | callback {c : Callback} {emitted : Emitted.Callback} {native : List Emitted.Parameter}
    (hnative : c.parameters.nativeUses.mapM e.shown = .ok native)
    (herror : emitted.parameters = native ++ if c.throws then [errorParameter] else []) :
    ShowsAll (.callback c) (.callback emitted)
  | signal {owner : SymbolName} {s : Signal} {emitted : Emitted.Signal}
    (harguments : s.parameters.argumentUses.mapM e.shownType = .ok (emitted.arguments.map (·.typeName))) :
    ShowsAll (.signal owner s) (.signal emitted)
  | layout {name : SymbolName} {ctype : Option Spelling} {fields : List Field} {folder : Emitted.Folder}
    {emitted : Emitted.Layout} : ShowsAll (.layout name ctype fields folder) (.layout emitted)
  | classLayout {c : Class} {emitted : Emitted.Layout} : ShowsAll (.classLayout c) (.layout emitted)
  | enumeration {declared : Enumeration} {emitted : Emitted.Enumeration} :
    ShowsAll (.enumeration declared) (.enumeration emitted)
  | constant {c : Constant} {emitted : Emitted.Constant} : ShowsAll (.constant c) (.constant emitted)

/-- A parameter is shown by a type that may stand for its reference. -/
def ShownBy (D : TypeReference → DecidedType → Prop) (use : ParameterUse) (p : Emitted.Parameter) : Prop :=
  ∃ d, D use.parameter.type d ∧ p = e.parameter use.parameter (use.passing e.graph d) use.target

/-- As `ShowsAll`, by types that may stand for the references of the parameters. -/
inductive ShowsBy (D : TypeReference → DecidedType → Prop) : Work → EmittedDeclaration → Prop
  | callable {owner : Option SymbolName} {c : Callable} {f : Emitted.Function} {native : List Emitted.Parameter}
    (hnative : List.Forall₂ (e.ShownBy D) c.parameters.nativeUses native)
    (herror : f.nativeParameters = native ++ if c.throws then [errorParameter] else [])
    (hmanaged : List.Forall₂ (e.ShownBy D) c.parameters.managedUses f.managedParameters) :
    ShowsBy D (.callable owner c) (.function f)
  | callback {c : Callback} {emitted : Emitted.Callback} {native : List Emitted.Parameter}
    (hnative : List.Forall₂ (e.ShownBy D) c.parameters.nativeUses native)
    (herror : emitted.parameters = native ++ if c.throws then [errorParameter] else []) :
    ShowsBy D (.callback c) (.callback emitted)
  | signal {owner : SymbolName} {s : Signal} {emitted : Emitted.Signal}
    (harguments : List.Forall₂ (fun use (argument : Emitted.SignalArgument) => ∃ d, D use.parameter.type d ∧
      argument.typeName = e.graph.typeName e.id (use.passing e.graph d).type use.target)
      s.parameters.argumentUses emitted.arguments) :
    ShowsBy D (.signal owner s) (.signal emitted)
  | layout {name : SymbolName} {ctype : Option Spelling} {fields : List Field} {folder : Emitted.Folder}
    {emitted : Emitted.Layout} : ShowsBy D (.layout name ctype fields folder) (.layout emitted)
  | classLayout {c : Class} {emitted : Emitted.Layout} : ShowsBy D (.classLayout c) (.layout emitted)
  | enumeration {declared : Enumeration} {emitted : Emitted.Enumeration} :
    ShowsBy D (.enumeration declared) (.enumeration emitted)
  | constant {c : Constant} {emitted : Emitted.Constant} : ShowsBy D (.constant c) (.constant emitted)

/-- The types that references decide to in the graph of an emitter. -/
def Decided (reference : TypeReference) (d : DecidedType) : Prop := e.graph.decide e.id reference = .ok d

variable {e}

theorem shown_of_shownBy {use : ParameterUse} {p : Emitted.Parameter} (h : e.ShownBy e.Decided use p) :
    e.shown use = .ok p := by
  obtain ⟨d, hd, rfl⟩ := h
  exact bind_eq_ok.mpr ⟨d, hd, rfl⟩

theorem mapM_shown_of_shownBy {uses : List ParameterUse} {all : List Emitted.Parameter}
    (h : List.Forall₂ (e.ShownBy e.Decided) uses all) : uses.mapM e.shown = .ok all :=
  mapM_eq_ok.mpr (h.imp fun _ _ => shown_of_shownBy)

theorem ShowsBy.showsAll {work : Work} {declaration : EmittedDeclaration}
    (h : e.ShowsBy e.Decided work declaration) : e.ShowsAll work declaration := by
  cases h with
  | callable hnative herror hmanaged =>
      exact .callable (mapM_shown_of_shownBy hnative) herror (mapM_shown_of_shownBy hmanaged)
  | callback hnative herror => exact .callback (mapM_shown_of_shownBy hnative) herror
  | signal harguments =>
      refine .signal (mapM_eq_ok.mpr (List.forall₂_map_right_iff.mpr (harguments.imp fun use argument => ?_)))
      rintro ⟨d, hd, htype⟩
      exact bind_eq_ok.mpr ⟨d, hd, htype ▸ rfl⟩
  | layout => exact .layout
  | classLayout => exact .classLayout
  | enumeration => exact .enumeration
  | constant => exact .constant

theorem exists_decide_of_shown {uses : List ParameterUse} {shown : List Emitted.Parameter}
    (h : uses.mapM e.shown = .ok shown) {use : ParameterUse} (huse : use ∈ uses) :
    ∃ d, e.graph.decide e.id use.parameter.type = .ok d := by
  obtain ⟨p, -, hp⟩ := exists_mem_right (mapM_eq_ok.mp h) huse
  obtain ⟨d, hd, -⟩ := bind_eq_ok.mp hp
  exact ⟨d, hd⟩

/-- Every parameter of what is emitted has a decided type. -/
theorem ShowsAll.exists_decide {work : Work} {declaration : EmittedDeclaration}
    (h : e.ShowsAll work declaration) {use : ParameterUse} (huse : use ∈ work.uses) :
    ∃ d, e.graph.decide e.id use.parameter.type = .ok d := by
  cases h with
  | callable hnative _ hmanaged =>
      exact (List.mem_append.mp huse).elim (exists_decide_of_shown hnative) (exists_decide_of_shown hmanaged)
  | callback hnative => exact exists_decide_of_shown hnative huse
  | signal harguments =>
      obtain ⟨name, -, hname⟩ := exists_mem_right (mapM_eq_ok.mp harguments) huse
      obtain ⟨d, hd, -⟩ := bind_eq_ok.mp hname
      exact ⟨d, hd⟩
  | layout | classLayout | enumeration | constant => cases huse

end Emitter

/-! ### Emission -/

/-- From a memo with an invariant, a computation leaves such a memo, and what it gives if it does not fail has a
property. -/
def Yields {α : Type} (I : Memo → Prop) (P : α → Prop) (x : Deciding α) : Prop :=
  ∀ m, I m → (∀ a, (x.run.run m).1 = .ok a → P a) ∧ I (x.run.run m).2

namespace Yields

variable {α β : Type} {I : Memo → Prop} {P : α → Prop} {Q : β → Prop} {x : Deciding α}

theorem pure {a : α} (h : P a) : Yields I P (Pure.pure a) := by
  refine fun m hm => ⟨?_, hm⟩
  rintro _ ⟨⟩
  exact h

theorem bind {next : α → Deciding β} (h : Yields I P x) (hnext : ∀ a, P a → Yields I Q (next a)) :
    Yields I Q (x >>= next) := by
  intro m hm
  rw [run_bind]
  obtain ⟨hx, hleft⟩ := h m hm
  generalize x.run.run m = left at hx hleft
  obtain ⟨result, left⟩ := left
  cases result with
  | error fault => exact ⟨nofun, hleft⟩
  | ok a => exact hnext a (hx a rfl) left hleft

theorem imp {Q : α → Prop} (h : Yields I P x) (hQ : ∀ a, P a → Q a) : Yields I Q x :=
  fun m hm => ⟨fun a ha => hQ a ((h m hm).1 a ha), (h m hm).2⟩

theorem map {f : α → β} (h : Yields I P x) (hf : ∀ a, P a → Q (f a)) : Yields I Q (f <$> x) := by
  rw [map_eq_pure_bind]
  exact h.bind fun a ha => .pure (hf a ha)

theorem listMapM {R : α → β → Prop} {f : α → Deciding β} {items : List α}
    (h : ∀ a ∈ items, Yields I (R a) (f a)) : Yields I (List.Forall₂ R items) (items.mapM f) := by
  induction items with
  | nil => exact .pure .nil
  | cons a items ih =>
      obtain ⟨ha, hitems⟩ := List.forall_mem_cons.mp h
      rw [List.mapM_cons]
      exact ha.bind fun b hb => (ih hitems).bind fun rest hrest => .pure (.cons hb hrest)

theorem optionMapM {R : α → β → Prop} {f : α → Deciding β} {item : Option α}
    (h : ∀ a, item = some a → Yields I (R a) (f a)) :
    Yields I (fun found => List.Forall₂ R item.toList found.toList) (item.mapM f) := by
  cases item with
  | none => exact .pure .nil
  | some a => exact (h a rfl).map fun b hb => .cons hb .nil

end Yields

/-- The decisions kept for the references of a repository are types that may stand for them. -/
def Graph.Remembers (g : Graph) (id : RepositoryId) (D : TypeReference → DecidedType → Prop) (m : Memo) : Prop :=
  ∀ site reference d, g.Asked id site reference → m.get? site = some d → D reference d

theorem Graph.Remembers.keep {g : Graph} {id : RepositoryId} {D : TypeReference → DecidedType → Prop} {m : Memo}
    (hm : g.Remembers id D m) {site : Site} {reference : TypeReference} {d : DecidedType}
    (h : g.Asked id site reference) (hnone : m.get? site = none) (hd : D reference d) :
    g.Remembers id D (m.keep site d) := by
  intro site' reference' d' h' hget
  rcases (Graph.get?_keep_of_none hnone).mp hget with hkept | hnew
  · exact hm site' reference' d' h' hkept
  · obtain ⟨rfl, rfl⟩ := Prod.mk.inj hnew
    rwa [Option.some.inj (h'.2.symm.trans h.2)]

theorem Graph.Coherent.remembers {g : Graph} {id : RepositoryId} {m : Memo} (hm : g.Coherent id m) :
    g.Remembers id (Emitter.mk g id).Decided m := by
  intro site reference d h hget
  have hd := hm site reference d h hget
  rwa [h.1] at hd

namespace Emitter

section Remembers

variable (e : Emitter) {D : TypeReference → DecidedType → Prop} {place : Place}
  (hD : ∀ reference d, e.Decided reference d → D reference d)

include hD

/-- What is decided is kept already or decided afresh. -/
theorem yields_resolve {slot : TypeSlot} {reference : TypeReference}
    (h : e.graph.Asked e.id ⟨e.id, place, slot⟩ reference) :
    Yields (e.graph.Remembers e.id D) (D reference) (e.resolve place slot reference) := by
  intro m hm
  rw [resolve, run_resolve]
  cases hkept : m.get? ⟨e.id, place, slot⟩ with
  | some d =>
      refine ⟨?_, hm⟩
      rintro _ ⟨⟩
      exact hm _ reference d h hkept
  | none =>
      dsimp only
      cases hd : e.graph.decide e.id reference with
      | error fault => exact ⟨nofun, hm⟩
      | ok d =>
          refine ⟨?_, hm.keep h hkept (hD reference d hd)⟩
          rintro _ ⟨⟩
          exact hD reference d hd

theorem yields_shown {slot : TypeSlot} {use : ParameterUse}
    (h : e.graph.Asked e.id ⟨e.id, place, slot⟩ use.parameter.type) :
    Yields (e.graph.Remembers e.id D) (e.ShownBy D use) (do
      let decided ← e.resolve place slot use.parameter.type
      return e.parameter use.parameter (use.passing e.graph decided) use.target) :=
  (e.yields_resolve hD h).bind fun d hd => .pure ⟨d, hd, rfl⟩

section Parameters

variable {list : ParameterList} {result : TypeReference}
  (h : ∀ slot reference, list.referenceAt? result slot = some reference →
    e.graph.Asked e.id ⟨e.id, place, slot⟩ reference)

include h

theorem yields_nativeParameters (throws : Bool) :
    Yields (e.graph.Remembers e.id D)
      (fun all => ∃ native, List.Forall₂ (e.ShownBy D) list.nativeUses native ∧
        all = native ++ if throws then [errorParameter] else [])
      (e.nativeParameters place list throws) := by
  have hreceiver : ∀ p, list.receiver = some p → e.graph.Asked e.id ⟨e.id, place, .receiver⟩ p.type := by
    intro p hp
    refine h .receiver p.type ?_
    rw [ParameterList.referenceAt?, hp, Option.map_some]
  refine Yields.bind (.optionMapM (R := fun p => e.ShownBy D ⟨p, true, .native, 0⟩) fun p hp => ?_)
    fun receiver hshown => ?_
  · exact e.yields_shown hD (hreceiver p hp)
  refine Yields.bind (.listMapM (R := fun p => e.ShownBy D ⟨p.1, false, .native, list.receiverOffset⟩)
    fun entry hp => ?_) fun declared hdeclared => ?_
  · exact e.yields_shown hD (e.asks_declared h hp)
  refine .pure ⟨_, List.rel_append ?_ ?_, rfl⟩
  · exact List.forall₂_map_left_iff.mpr hshown
  · rw [← List.zipIdx_map_fst 0 list.declared, List.map_map]
    exact List.forall₂_map_left_iff.mpr hdeclared

theorem yields_managedParameters :
    Yields (e.graph.Remembers e.id D) (List.Forall₂ (e.ShownBy D) list.managedUses)
      (e.managedParameters place list) := by
  rw [ParameterList.managedUses, ParameterList.managed, List.map_map]
  refine Yields.imp (.listMapM (R := fun p => e.ShownBy D ⟨p.1, false, .managed, 0⟩) fun entry hp => ?_)
    fun managed hmanaged => List.forall₂_map_left_iff.mpr hmanaged
  exact e.yields_shown hD (e.asks_declared h (List.mem_of_mem_filter hp))

theorem yields_function {c : Callable} (hlist : c.parameters = list) (hresult : c.returnValue.type = result)
    (owner : Option SymbolName) :
    Yields (e.graph.Remembers e.id D) (fun f => e.ShowsBy D (.callable owner c) (.function f))
      (e.function place owner c) := by
  subst hlist hresult
  refine (e.yields_resolve hD (h .result _ rfl)).bind fun returned _ => ?_
  refine (e.yields_nativeParameters hD h c.throws).bind fun native hnative => ?_
  obtain ⟨native, hnative, rfl⟩ := hnative
  exact (e.yields_managedParameters hD h).bind fun managed hmanaged => .pure (.callable hnative rfl hmanaged)

theorem yields_callback {c : Callback} (hlist : c.parameters = list) (hresult : c.returnValue.type = result) :
    Yields (e.graph.Remembers e.id D) (fun emitted => e.ShowsBy D (.callback c) (.callback emitted))
      (e.callback place c) := by
  subst hlist hresult
  refine (e.yields_resolve hD (h .result _ rfl)).bind fun returned _ => ?_
  refine (e.yields_nativeParameters hD h c.throws).bind fun native hnative => ?_
  obtain ⟨native, hnative, rfl⟩ := hnative
  exact .pure (.callback hnative rfl)

theorem yields_signal {s : Signal} (hlist : s.parameters = list) (hresult : s.returnValue.type = result)
    (owner : SymbolName) :
    Yields (e.graph.Remembers e.id D) (fun emitted => e.ShowsBy D (.signal owner s) (.signal emitted))
      (e.signal place owner s) := by
  subst hlist hresult
  refine (e.yields_resolve hD (h .result _ rfl)).bind fun returned _ => ?_
  refine Yields.bind (.listMapM (R := fun p (argument : Emitted.SignalArgument) => ∃ d, D p.1.type d ∧
    argument.typeName = e.graph.typeName e.id (e.graph.passParameter p.1 d .native 0).type .native)
    fun entry hp => ?_) fun arguments harguments => ?_
  · exact (e.yields_resolve hD (e.asks_declared h hp)).bind fun d hd => .pure ⟨d, hd, rfl⟩
  refine .pure (.signal ?_)
  rw [ParameterList.argumentUses, ← List.zipIdx_map_fst 0 s.parameters.declared, List.map_map]
  exact List.forall₂_map_left_iff.mpr harguments

end Parameters

variable {e} {ns : Namespace} {m : Memo} {item : WorkItem}

/-- The parameters of an item are shown by types that may stand for their references, if so may those that are
kept and those that are decided afresh. -/
theorem showsBy_of_emitFrom (hns : e.content? = some ns) (hm : e.graph.Remembers e.id D m)
    (hitem : item ∈ e.items ns) {declaration : EmittedDeclaration}
    (h : e.emitFrom m item = .ok declaration) : e.ShowsBy D item.work declaration := by
  have hasked := asked_of_mem_items hns hitem
  rw [emitFrom, emit] at h
  obtain ⟨identifier, place, work⟩ := item
  cases work with
  | callable owner c =>
      have hfunction := e.yields_function hD hasked rfl rfl owner
      exact ((hfunction.map fun _ hf => hf) m hm).1 declaration h
  | callback c =>
      have hcallback := e.yields_callback hD hasked rfl rfl
      exact ((hcallback.map fun _ hemitted => hemitted) m hm).1 declaration h
  | signal owner s =>
      have hsignal := e.yields_signal hD hasked rfl rfl owner
      exact ((hsignal.map fun _ hemitted => hemitted) m hm).1 declaration h
  | layout name ctype fields folder =>
      exact (Gives.any _).map (fun _ _ => .layout) m declaration h
  | classLayout c => exact (Gives.any _).map (fun _ _ => .classLayout) m declaration h
  | enumeration declared =>
      cases h
      exact .enumeration
  | constant c => exact (Gives.any _).map (fun _ _ => .constant) m declaration h

end Remembers

variable {e : Emitter} {ns : Namespace} {m : Memo} {item : WorkItem}

/-- From a coherent memo, the parameters of an item are shown by what their types decide to. -/
theorem shows_of_emitFrom (hns : e.content? = some ns) (hm : e.graph.Coherent e.id m)
    (hitem : item ∈ e.items ns) {declaration : EmittedDeclaration}
    (h : e.emitFrom m item = .ok declaration) : e.ShowsAll item.work declaration :=
  (showsBy_of_emitFrom (fun _ _ hd => hd) hns hm.remembers hitem h).showsAll

/-- A callable whose types are decided is emitted, whatever was decided before. -/
theorem exists_emitFrom_callable {c : Callable} (hresult : ∃ d, e.graph.decide e.id c.returnValue.type = .ok d)
    (hnative : ∃ native, c.parameters.nativeUses.mapM e.shown = .ok native) (identifier : String)
    (place : Place) (owner : Option SymbolName) (m : Memo) :
    ∃ f, e.emitFrom m ⟨identifier, place, .callable owner c⟩ = .ok (.function f) := by
  obtain ⟨native, hnative⟩ := hnative
  have hdecided : ∀ slot reference, c.parameters.referenceAt? c.returnValue.type slot = some reference →
      ∃ d, e.graph.decide e.id reference = .ok d := by
    intro slot reference hreference
    cases slot with
    | result =>
        cases hreference
        exact hresult
    | receiver =>
        obtain ⟨p, hp, rfl⟩ := Option.map_eq_some_iff.mp hreference
        have huse : ⟨p, true, .native, 0⟩ ∈ c.parameters.nativeUses :=
          List.mem_append_left _ (List.mem_map_of_mem (Option.mem_toList.mpr hp))
        exact exists_decide_of_shown hnative huse
    | parameter i =>
        obtain ⟨p, hp, rfl⟩ := Option.map_eq_some_iff.mp hreference
        have huse : ⟨p, false, .native, c.parameters.receiverOffset⟩ ∈ c.parameters.nativeUses :=
          List.mem_append_right _ (List.mem_map_of_mem (List.mem_of_getElem? hp))
        exact exists_decide_of_shown hnative huse
    | field i | value => cases hreference
  have hscripted : Scripted e.graph (fun site reference => ∃ d, e.graph.decide site.repository reference = .ok d)
      (fun _ => False) (e.function place owner c) := e.scripted_function owner c hdecided
  obtain ⟨s, hrun, hasks, hraises⟩ := hscripted
  cases hemitted : ((s.run e.graph).run.run m).1 with
  | error fault =>
      rcases Script.fault_of_run hasks hraises hemitted with ⟨⟨⟩⟩ | ⟨site, reference, ⟨d, hd⟩, hfault⟩
      rw [hd] at hfault
      cases hfault
  | ok f =>
      refine ⟨f, ?_⟩
      rw [emitFrom, emit]
      show ((EmittedDeclaration.function <$> e.function place owner c).run.run m).1 = _
      rw [map_eq_pure_bind, ← hrun, run_bind]
      generalize (s.run e.graph).run.run m = left at hemitted ⊢
      obtain ⟨result, left⟩ := left
      obtain rfl := hemitted
      rfl

end Emitter

end Interop
